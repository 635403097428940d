import SolarDrive.Lib.Bytes
import Mathlib.Logic.Function.Basic

/-!
# The poller and the kernel

The poller keeps a map of its channels beside the interest set of the kernel, and
decides from the map and from the mask of a channel which `epoll_ctl` to call. An
operation does two things at one descriptor: `updateChannel_eq` and `removeChannel_eq`
say what comes of both, and that the call of the kernel succeeds.
-/

namespace SolarDrive.Network

def EPOLLIN : UInt32 := 0x001
def EPOLLPRI : UInt32 := 0x002
def EPOLLOUT : UInt32 := 0x004

def kNoneEvent : UInt32 := 0
def kReadEvent : UInt32 := EPOLLIN ||| EPOLLPRI
def kWriteEvent : UInt32 := EPOLLOUT

inductive EpollCtl where
  | add
  | mod
  | del
deriving DecidableEq

/-- The mask, and the channel that `data.ptr` points to. -/
structure EpollEvent (χ : Type) where
  events : UInt32
  ptr : χ
deriving DecidableEq

/-- `epoll_ctl`; none when it fails. -/
def epollCtl {χ : Type} (op : EpollCtl) (fd : Int) (ev : EpollEvent χ)
    (kernel : Int → Option (EpollEvent χ)) : Option (Int → Option (EpollEvent χ)) :=
  match op, kernel fd with
  | .add, none => some (Function.update kernel fd (some ev))
  | .mod, some _ => some (Function.update kernel fd (some ev))
  | .del, some _ => some (Function.update kernel fd none)
  -- `EEXIST`
  | .add, some _ => none
  -- `ENOENT`
  | .mod, none => none
  | .del, none => none

/-- The poller, the masks of its channels and the interest set of its `epoll_fd_`. -/
structure EpollPoller (χ : Type) where
  kernel : Int → Option (EpollEvent χ) := fun _ => none
  /-- `channels_`. -/
  channels : Int → Option χ := fun _ => none
  /-- `events_` of each channel. -/
  events : χ → UInt32 := fun _ => kNoneEvent
  /-- The calls of `epoll_ctl` that were logged as failed. -/
  failures : List (EpollCtl × Int) := []

/-- What is called on a channel. -/
inductive ChannelCall where
  | enableReading
  | enableWriting
  | disableWriting
  | disableAll
  | remove
deriving DecidableEq

/-- The mask after the call; `remove` leaves it. -/
def ChannelCall.mask (events : UInt32) : ChannelCall → UInt32
  | .enableReading => events ||| kReadEvent
  | .enableWriting => events ||| kWriteEvent
  | .disableWriting => events &&& ~~~kWriteEvent
  | .disableAll => kNoneEvent
  | .remove => events

namespace EpollPoller

variable {χ : Type} [DecidableEq χ] (fd : χ → Int)

def hasChannel (p : EpollPoller χ) (c : χ) : Bool := p.channels (fd c) = some c

def isNoneEvent (p : EpollPoller χ) (c : χ) : Bool := p.events c = kNoneEvent

def epollUpdate (op : EpollCtl) (c : χ) (p : EpollPoller χ) : EpollPoller χ :=
  match epollCtl op (fd c) ⟨p.events c, c⟩ p.kernel with
  | some kernel => { p with kernel }
  | none => { p with failures := p.failures ++ [(op, fd c)] }

def updateChannel (c : χ) (p : EpollPoller χ) : EpollPoller χ :=
  if p.isNoneEvent c then
    if p.hasChannel fd c then
      let p := p.epollUpdate fd .del c
      { p with channels := Function.update p.channels (fd c) none }
    else p
  else if p.hasChannel fd c then p.epollUpdate fd .mod c
  else { p with channels := Function.update p.channels (fd c) (some c) }.epollUpdate fd .add c

def removeChannel (c : χ) (p : EpollPoller χ) : EpollPoller χ :=
  let p := { p with channels := Function.update p.channels (fd c) none }
  if p.isNoneEvent c then p else p.epollUpdate fd .del c

def step (p : EpollPoller χ) (op : χ × ChannelCall) : EpollPoller χ :=
  match op.2 with
  | .remove => p.removeChannel fd op.1
  | call => { p with
      events := Function.update p.events op.1 (call.mask (p.events op.1)) }.updateChannel fd op.1

def run (ops : List (χ × ChannelCall)) : EpollPoller χ := ops.foldl (step fd) {}

end EpollPoller

/-! ## The order of the calls -/

section Order

variable {χ : Type} {ops : List (χ × ChannelCall)} {c d : χ} {call : ChannelCall}

/-- The channel has been enabled or disabled. -/
def Changed (ops : List (χ × ChannelCall)) (c : χ) : Prop :=
  ∃ call, call ≠ ChannelCall.remove ∧ (c, call) ∈ ops

/-- It has been removed since the last time. -/
def RemovedSince (ops : List (χ × ChannelCall)) (c : χ) : Prop :=
  ∃ before after, ops = before ++ (c, .remove) :: after ∧ Changed before c ∧ ¬ Changed after c

/-- No channel is removed again before it is enabled or disabled. -/
def RemovedOnce (ops : List (χ × ChannelCall)) : Prop :=
  ∀ before c after, ops = before ++ (c, .remove) :: after → ¬ RemovedSince before c

theorem RemovedOnce.snoc {op : χ × ChannelCall} (h : RemovedOnce (ops ++ [op])) :
    RemovedOnce ops ∧ (op.2 = .remove → ¬ RemovedSince ops op.1) := by
  constructor
  · rintro before c after rfl
    exact h before c (after ++ [op]) (by simp)
  · intro hremove
    obtain ⟨c, call⟩ := op
    dsimp only at hremove
    subst hremove
    exact h ops c [] rfl

/-- So it is when no channel is removed twice at all. -/
theorem removedOnce_of_count [DecidableEq χ] (h : ∀ c, ops.count (c, ChannelCall.remove) ≤ 1) :
    RemovedOnce ops := by
  rintro before c after rfl ⟨earlier, later, rfl, -⟩
  have hcount := h c
  simp only [List.count_append, List.count_cons_self] at hcount
  omega

theorem changed_snoc : Changed (ops ++ [(d, call)]) c ↔
    Changed ops c ∨ (c = d ∧ call ≠ .remove) := by
  unfold Changed
  constructor
  · rintro ⟨call', hne, hmem⟩
    rcases List.mem_append.mp hmem with hmem | hmem
    · exact Or.inl ⟨call', hne, hmem⟩
    · simp only [List.mem_singleton, Prod.mk.injEq] at hmem
      obtain ⟨rfl, rfl⟩ := hmem
      exact Or.inr ⟨rfl, hne⟩
  · rintro (⟨call', hne, hmem⟩ | ⟨rfl, hne⟩)
    · exact ⟨call', hne, List.mem_append_left _ hmem⟩
    · exact ⟨call, hne, by simp⟩

/-- A call on another channel changes nothing for this one. -/
theorem RemovedSince.snoc (h : RemovedSince ops c) (hne : c ≠ d) :
    RemovedSince (ops ++ [(d, call)]) c := by
  obtain ⟨before, after, rfl, hchanged, hsince⟩ := h
  refine ⟨before, after ++ [(d, call)], by simp, hchanged, ?_⟩
  rw [changed_snoc]
  rintro (hlater | ⟨hsame, -⟩)
  · exact hsince hlater
  · exact hne hsame

theorem removedSince_remove (h : Changed ops c) : RemovedSince (ops ++ [(c, .remove)]) c := by
  refine ⟨ops, [], rfl, h, ?_⟩
  rintro ⟨call, -, hmem⟩
  cases hmem

end Order

/-! ## What an operation comes to -/

namespace EpollPoller

variable {χ : Type} [DecidableEq χ] {fd : χ → Int}

/-- The mask of the channel, and whether map and kernel hold it with that mask. -/
def place (fd : χ → Int) (c : χ) (m : UInt32) (held : Bool) (p : EpollPoller χ) :
    EpollPoller χ where
  kernel := Function.update p.kernel (fd c) (if held then some ⟨m, c⟩ else none)
  channels := Function.update p.channels (fd c) (if held then some c else none)
  events := Function.update p.events c m
  failures := p.failures

/-- After these calls the map holds channels that want events, each under its descriptor,
the kernel holds the same, and only a channel that was removed may want events in vain. -/
structure Registered (fd : χ → Int) (ops : List (χ × ChannelCall)) (p : EpollPoller χ) : Prop where
  succeeded : p.failures = []
  kernel : ∀ n, p.kernel n = (p.channels n).map fun c => ⟨p.events c, c⟩
  held : ∀ n c, p.channels n = some c → fd c = n ∧ p.events c ≠ kNoneEvent
  wanted : ∀ c, p.events c ≠ kNoneEvent →
    Changed ops c ∧ (p.channels (fd c) = some c ∨ RemovedSince ops c)

section Steps

variable {p : EpollPoller χ} {ops : List (χ × ChannelCall)} {c : χ} {m : UInt32}
  {call : ChannelCall}

omit [DecidableEq χ] in
/-- Under its descriptor stands the channel itself or nothing, in the map and the kernel. -/
theorem Registered.at_fd (h : Registered fd ops p) (hfd : Function.Injective fd) (c : χ) :
    (p.channels (fd c) = none ∧ p.kernel (fd c) = none) ∨
    (p.channels (fd c) = some c ∧ p.kernel (fd c) = some ⟨p.events c, c⟩) := by
  have hkernel := h.kernel (fd c)
  cases hchannel : p.channels (fd c) with
  | none =>
      rw [hchannel] at hkernel
      exact Or.inl ⟨rfl, hkernel⟩
  | some d =>
      have hsame := hfd (h.held _ _ hchannel).1
      subst hsame
      rw [hchannel] at hkernel
      exact Or.inr ⟨rfl, hkernel⟩

/-- `update_channel` behind a change of the mask. -/
theorem updateChannel_eq (h : Registered fd ops p) (hfd : Function.Injective fd) (c : χ)
    (m : UInt32) : { p with events := Function.update p.events c m }.updateChannel fd c =
      p.place fd c m (m ≠ kNoneEvent) := by
  rcases h.at_fd hfd c with ⟨hchannel, hkernel⟩ | ⟨hchannel, hkernel⟩
  · have hsame : Function.update p.channels (fd c) none = p.channels := by
      rw [← hchannel, Function.update_eq_self]
    have hkept : Function.update p.kernel (fd c) none = p.kernel := by
      rw [← hkernel, Function.update_eq_self]
    by_cases hm : m = kNoneEvent
    · simp [updateChannel, isNoneEvent, hasChannel, place, hm, hchannel, hsame, hkept]
    · simp [updateChannel, isNoneEvent, hasChannel, epollUpdate, epollCtl, place, hm, hchannel,
        hkernel]
  · have hsame : Function.update p.channels (fd c) (some c) = p.channels := by
      rw [← hchannel, Function.update_eq_self]
    by_cases hm : m = kNoneEvent
    · simp [updateChannel, isNoneEvent, hasChannel, epollUpdate, epollCtl, place, hm, hchannel,
        hkernel]
    · simp [updateChannel, isNoneEvent, hasChannel, epollUpdate, epollCtl, place, hm, hchannel,
        hkernel, hsame]

/-- `remove_channel` of a channel that is held if it wants events. -/
theorem removeChannel_eq (h : Registered fd ops p) (hfd : Function.Injective fd)
    (hheld : p.events c ≠ kNoneEvent → p.channels (fd c) = some c) :
    p.removeChannel fd c = p.place fd c (p.events c) false := by
  by_cases hnone : p.events c = kNoneEvent
  · rcases h.at_fd hfd c with ⟨-, hkernel⟩ | ⟨hchannel, -⟩
    · have hkept : Function.update p.kernel (fd c) none = p.kernel := by
        rw [← hkernel, Function.update_eq_self]
      have hmask : Function.update p.events c kNoneEvent = p.events := by
        rw [← hnone, Function.update_eq_self]
      simp [removeChannel, isNoneEvent, place, hnone, hkept, hmask]
    · exact absurd hnone (h.held _ _ hchannel).2
  · rcases h.at_fd hfd c with ⟨hchannel, -⟩ | ⟨-, hkernel⟩
    · rw [hheld hnone] at hchannel
      cases hchannel
    · simp [removeChannel, isNoneEvent, epollUpdate, epollCtl, place, hnone, hkernel]

/-- Whatever is placed at one descriptor is registered if the map holds a channel exactly
when it wants events, or it wants them in vain because it has just been removed. -/
theorem Registered.place {held : Bool} (h : Registered fd ops p) (hfd : Function.Injective fd)
    (hheld : held = true → m ≠ kNoneEvent)
    (hwanted : m ≠ kNoneEvent → Changed (ops ++ [(c, call)]) c ∧
      (held = true ∨ RemovedSince (ops ++ [(c, call)]) c)) :
    Registered fd (ops ++ [(c, call)]) (p.place fd c m held) := by
  refine ⟨h.succeeded, ?_, ?_, ?_⟩
  · intro n
    by_cases hn : n = fd c
    · subst hn
      cases held with
      | true => simp [EpollPoller.place]
      | false => simp [EpollPoller.place]
    · -- no other descriptor leads to this channel
      have hkernel := h.kernel n
      simp only [EpollPoller.place, Function.update_of_ne hn]
      rw [hkernel]
      cases hchannel : p.channels n with
      | none => rfl
      | some d =>
          have hd : d ≠ c := by
            rintro rfl
            exact hn (h.held _ _ hchannel).1.symm
          simp [Function.update_of_ne hd]
  · intro n d hd
    by_cases hn : n = fd c
    · subst hn
      cases held with
      | true =>
          have hsame : c = d := by simpa [EpollPoller.place] using hd
          subst hsame
          exact ⟨rfl, by simpa [EpollPoller.place] using hheld rfl⟩
      | false => simp [EpollPoller.place] at hd
    · have hd : p.channels n = some d := by
        simpa [EpollPoller.place, Function.update_of_ne hn] using hd
      obtain ⟨rfl, hwants⟩ := h.held _ _ hd
      have hne : d ≠ c := by
        rintro rfl
        exact hn rfl
      exact ⟨rfl, by simpa [EpollPoller.place, Function.update_of_ne hne] using hwants⟩
  · intro d hd
    by_cases hdc : d = c
    · subst hdc
      have hm : m ≠ kNoneEvent := by simpa [EpollPoller.place] using hd
      obtain ⟨hchanged, hheld | hremoved⟩ := hwanted hm
      · exact ⟨hchanged, Or.inl (by simp [EpollPoller.place, hheld])⟩
      · exact ⟨hchanged, Or.inr hremoved⟩
    · have hfdne : fd d ≠ fd c := fun heq => hdc (hfd heq)
      obtain ⟨hchanged, hwas⟩ := h.wanted d
        (by simpa [EpollPoller.place, Function.update_of_ne hdc] using hd)
      refine ⟨changed_snoc.mpr (Or.inl hchanged), ?_⟩
      rcases hwas with hchannel | hremoved
      · exact Or.inl (by simpa [EpollPoller.place, Function.update_of_ne hfdne] using hchannel)
      · exact Or.inr (hremoved.snoc hdc)

theorem Registered.step (h : Registered fd ops p) (hfd : Function.Injective fd)
    (hremove : call = .remove → ¬ RemovedSince ops c) :
    Registered fd (ops ++ [(c, call)]) (p.step fd (c, call)) := by
  have hchange : ∀ m, call ≠ .remove →
      p.step fd (c, call) = { p with events := Function.update p.events c m }.updateChannel fd c →
      Registered fd (ops ++ [(c, call)]) (p.step fd (c, call)) := by
    intro m hcall hstep
    rw [hstep, updateChannel_eq h hfd]
    refine h.place hfd (fun hheld => by simpa using hheld) fun hm => ?_
    exact ⟨changed_snoc.mpr (Or.inr ⟨rfl, hcall⟩), Or.inl (by simpa using hm)⟩
  cases call with
  | remove =>
      have hheld : p.events c ≠ kNoneEvent → p.channels (fd c) = some c := by
        intro hwants
        rcases (h.wanted c hwants).2 with hchannel | hremoved
        · exact hchannel
        · exact absurd hremoved (hremove rfl)
      show Registered fd _ (p.removeChannel fd c)
      rw [removeChannel_eq h hfd hheld]
      refine h.place hfd nofun fun hwants => ?_
      have hchanged := (h.wanted c hwants).1
      exact ⟨changed_snoc.mpr (Or.inl hchanged), Or.inr (removedSince_remove hchanged)⟩
  | enableReading => exact hchange _ nofun rfl
  | enableWriting => exact hchange _ nofun rfl
  | disableWriting => exact hchange _ nofun rfl
  | disableAll => exact hchange _ nofun rfl

end Steps

theorem registered_run (hfd : Function.Injective fd) (ops : List (χ × ChannelCall))
    (hops : RemovedOnce ops) : Registered fd ops (run fd ops) := by
  induction ops using List.reverseRecOn with
  | nil => exact ⟨rfl, fun _ => rfl, nofun, fun c hc => absurd rfl hc⟩
  | append_singleton ops op ih =>
      obtain ⟨hbefore, hlast⟩ := hops.snoc
      obtain ⟨c, call⟩ := op
      have hrun : run fd (ops ++ [(c, call)]) = (run fd ops).step fd (c, call) := by
        unfold run
        rw [List.foldl_append]
        rfl
      rw [hrun]
      exact (ih hbefore).step hfd hlast

/-- The kernel holds what the map holds, with the masks of the moment; a channel that has
not been removed since its last change is there if and only if it wants events. -/
structure Mirrors (fd : χ → Int) (ops : List (χ × ChannelCall)) (p : EpollPoller χ) : Prop where
  succeeded : p.failures = []
  kernel : ∀ n, p.kernel n = (p.channels n).map fun c => ⟨p.events c, c⟩
  descriptor : ∀ n c, p.channels n = some c → fd c = n
  registered : ∀ c, ¬ RemovedSince ops c →
    ((p.kernel (fd c)).isSome = true ↔ p.events c ≠ kNoneEvent)

/-- **The registration mirrors the channels** after every call, in every order of calls that
removes no channel twice. -/
theorem registration_mirrors (fd : χ → Int) (hfd : Function.Injective fd)
    (ops : List (χ × ChannelCall)) (hops : RemovedOnce ops) :
    ∀ done, done <+: ops → Mirrors fd done (run fd done) := by
  rintro done ⟨rest, rfl⟩
  have hdone : RemovedOnce done := by
    rintro before c after rfl
    exact hops before c (after ++ rest) (by simp)
  have h := registered_run hfd done hdone
  refine ⟨h.succeeded, h.kernel, fun n c hc => (h.held n c hc).1, fun c hsince => ?_⟩
  rcases h.at_fd hfd c with ⟨hchannel, hkernel⟩ | ⟨hchannel, hkernel⟩
  · rw [hkernel]
    refine iff_of_false nofun fun hwants => ?_
    rcases (h.wanted c hwants).2 with hheld | hremoved
    · rw [hchannel] at hheld
      cases hheld
    · exact hsince hremoved
  · rw [hkernel]
    exact iff_of_true rfl (h.held _ _ hchannel).2

/-- A channel at 5, one at 6. -/
def twoChannels (c : Bool) : Int := if c then 6 else 5

def twoChannelCalls : List (Bool × ChannelCall) :=
  [(false, .enableReading), (true, .enableReading), (true, .enableWriting), (false, .remove),
    (true, .disableAll), (false, .enableWriting)]

theorem two_channels_mirrored :
    Mirrors twoChannels twoChannelCalls (run twoChannels twoChannelCalls) ∧
    (run twoChannels twoChannelCalls).channels 5 = some false ∧
    (run twoChannels twoChannelCalls).channels 6 = none :=
  ⟨registration_mirrors twoChannels (by decide) twoChannelCalls
    (removedOnce_of_count (by decide)) _ (List.prefix_refl _), by decide, by decide⟩

end EpollPoller

end SolarDrive.Network
