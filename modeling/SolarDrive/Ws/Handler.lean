import SolarDrive.Ws.Codec

/-!
# Frames on an upgraded connection

The message callback gives the handler everything that is buffered, once for each
read event, and the handler decodes one frame. So a frame is handled when an event
is left for it, which is what `Paced` says and `all_handled_iff` proves.
-/

namespace SolarDrive.Ws

open Lib

/-- What the handler sends for a frame. -/
def replyTo (f : WsFrame) : List Bytes :=
  if f.opcode = kPing then [encode kPong f.payload]
  else if f.opcode = kClose then [encode kClose []]
  else []

/-- A connection whose context is a `WsHandler`. -/
structure WsConn where
  inputBuffer : Bytes := []
  handled : List WsFrame := []
  /-- What is passed to `send`. -/
  replies : List Bytes := []

namespace WsConn

/-- `WsHandler::feed`: the bytes consumed; none when `decode` throws. -/
def feed (s : WsConn) (data : Bytes) : Option (WsConn × Nat) :=
  match decode data with
  | .incomplete => some (s, 0)
  | .frame f consumed =>
      some ({ s with handled := s.handled ++ [f], replies := s.replies ++ replyTo f }, consumed)
  | .lengthError => none

/-- The message callback for a read event. -/
def onMessage (s : WsConn) (bytes : Bytes) : Option WsConn :=
  let data := s.inputBuffer ++ bytes
  if data = [] then some { s with inputBuffer := data }
  else
    match s.feed data with
    | some (s, consumed) => some { s with inputBuffer := data.drop consumed }
    | none => none

def run (s : WsConn) (cuts : List Bytes) : Option WsConn := cuts.foldlM onMessage s

end WsConn

/-- The text of some frames. -/
def wires (fs : List ClientFrame) : Bytes := (fs.map ClientFrame.wire).flatten

/-- For every frame one read event is left when it has come whole, and one more for
each frame behind it: the events but the last `d` hold the frames but the last `d`. -/
def Paced (buffered : Nat) (fs : List ClientFrame) (cuts : List Bytes) : Prop :=
  ∀ d < fs.length, d < cuts.length ∧
    (wires (fs.take (fs.length - d))).length ≤
      buffered + (cuts.take (cuts.length - d)).flatten.length

instance (buffered : Nat) (fs : List ClientFrame) (cuts : List Bytes) :
    Decidable (Paced buffered fs cuts) :=
  inferInstanceAs (Decidable (∀ d < fs.length, _))

section Pace

variable {buffered : Nat} {f : ClientFrame} {fs : List ClientFrame} {c : Bytes} {cuts : List Bytes}

theorem wires_cons (f : ClientFrame) (fs : List ClientFrame) :
    wires (f :: fs) = f.wire ++ wires fs := rfl

/-- Without an event every frame is left. -/
theorem paced_nil : Paced buffered fs [] ↔ fs = [] := by
  constructor
  · intro h
    by_contra hne
    exact absurd (h 0 (List.length_pos_iff.mpr hne)).1 (Nat.not_lt_zero 0)
  · rintro rfl d hd
    exact absurd hd (Nat.not_lt_zero d)

theorem length_take_frames {d : Nat} (hd : d ≤ fs.length) :
    (wires ((f :: fs).take ((f :: fs).length - d))).length =
      f.wire.length + (wires (fs.take (fs.length - d))).length := by
  have hsucc : (f :: fs).length - d = (fs.length - d) + 1 := by
    rw [List.length_cons]
    omega
  rw [hsucc, List.take_succ_cons, wires_cons, List.length_append]

theorem length_take_cuts {d : Nat} (hd : d ≤ cuts.length) :
    ((c :: cuts).take ((c :: cuts).length - d)).flatten.length =
      c.length + (cuts.take (cuts.length - d)).flatten.length := by
  have hsucc : (c :: cuts).length - d = (cuts.length - d) + 1 := by
    rw [List.length_cons]
    omega
  rw [hsucc, List.take_succ_cons, List.flatten_cons, List.length_append]

/-- An event in which the first frame is complete takes it. -/
theorem paced_complete (hcomplete : f.wire.length ≤ buffered + c.length) :
    Paced buffered (f :: fs) (c :: cuts) ↔
      Paced (buffered + c.length - f.wire.length) fs cuts := by
  constructor
  · intro h d hd
    -- the frames behind the first need an event each
    have hevents := (h fs.length (by rw [List.length_cons]; omega)).1
    rw [List.length_cons] at hevents
    obtain ⟨-, hbytes⟩ := h d (by rw [List.length_cons]; omega)
    rw [length_take_frames (by omega), length_take_cuts (by omega)] at hbytes
    exact ⟨by omega, by omega⟩
  · intro h d hd
    rw [List.length_cons] at hd
    have hevents : fs.length ≤ cuts.length := by
      by_contra hfew
      exact absurd (h cuts.length (by omega)).1 (Nat.lt_irrefl _)
    refine ⟨by rw [List.length_cons]; omega, ?_⟩
    rw [length_take_frames (by omega), length_take_cuts (by omega)]
    by_cases hlast : d = fs.length
    · have hnone : (wires (fs.take (fs.length - d))).length = 0 := by
        rw [hlast, Nat.sub_self]
        rfl
      omega
    · have hbytes := (h d (by omega)).2
      omega

/-- An event in which it is not only adds to the buffer. -/
theorem paced_incomplete (hincomplete : buffered + c.length < f.wire.length) :
    Paced buffered (f :: fs) (c :: cuts) ↔ Paced (buffered + c.length) (f :: fs) cuts := by
  constructor
  · intro h d hd
    obtain ⟨hevents, hbytes⟩ := h d hd
    rw [List.length_cons] at hd hevents
    rw [length_take_cuts (by omega)] at hbytes
    refine ⟨?_, by omega⟩
    by_contra hlast
    have heq : cuts.length - d = 0 := by omega
    rw [length_take_frames (by omega), heq] at hbytes
    simp only [List.take_zero, List.flatten_nil, List.length_nil] at hbytes
    omega
  · intro h d hd
    obtain ⟨hevents, hbytes⟩ := h d hd
    refine ⟨by rw [List.length_cons]; omega, ?_⟩
    rw [length_take_cuts (by omega)]
    omega

end Pace

namespace WsConn

variable {s : WsConn}

theorem append_eq_of_length {xs ys as bs : Bytes} (h : xs ++ ys = as ++ bs)
    (hle : as.length ≤ xs.length) : ∃ mid, xs = as ++ mid ∧ bs = mid ++ ys := by
  obtain ⟨mid, hmid⟩ : as <+: xs :=
    List.prefix_of_prefix_length_le ⟨bs, h.symm⟩ (List.prefix_append xs ys) hle
  refine ⟨mid, hmid.symm, ?_⟩
  rw [← hmid, List.append_assoc] at h
  exact (List.append_cancel_left h).symm

/-- What an event does is what is decoded; from nothing it is nothing. -/
theorem onMessage_eq (s : WsConn) (bytes : Bytes) : s.onMessage bytes =
    match decode (s.inputBuffer ++ bytes) with
    | .incomplete => some { s with inputBuffer := s.inputBuffer ++ bytes }
    | .frame f consumed => some
        { inputBuffer := (s.inputBuffer ++ bytes).drop consumed, handled := s.handled ++ [f]
          replies := s.replies ++ replyTo f }
    | .lengthError => none := by
  unfold onMessage feed
  dsimp only
  split
  · rename_i hnil
    rw [hnil]
    rfl
  · cases decode (s.inputBuffer ++ bytes) with
    | incomplete => rfl
    | frame f consumed => rfl
    | lengthError => rfl

/-- One read event: the first frame is handled if it has come whole. -/
theorem onMessage_spec {f : ClientFrame} {fs : List ClientFrame} {c rest : Bytes}
    (h : s.inputBuffer ++ c ++ rest = wires (f :: fs)) :
    (f.wire.length ≤ s.inputBuffer.length + c.length →
      ∃ left, s.onMessage c = some
        { inputBuffer := left, handled := s.handled ++ [f.frame]
          replies := s.replies ++ replyTo f.frame } ∧ left ++ rest = wires fs ∧
        left.length = s.inputBuffer.length + c.length - f.wire.length) ∧
    (s.inputBuffer.length + c.length < f.wire.length →
      s.onMessage c = some { s with inputBuffer := s.inputBuffer ++ c }) := by
  rw [wires_cons] at h
  constructor
  · intro hcomplete
    obtain ⟨left, hsplit, hleft⟩ := append_eq_of_length h (by rwa [List.length_append])
    refine ⟨left, ?_, hleft.symm, ?_⟩
    · have hne : s.inputBuffer ++ c ≠ [] := by
        have htwo := f.two_le_length_wire
        rw [← List.length_pos_iff, hsplit, List.length_append]
        omega
      unfold onMessage feed
      dsimp only
      rw [if_neg hne, hsplit, f.decode_wire left]
      simp only [List.drop_left]
    · have hlen := congrArg List.length hsplit
      rw [List.length_append, List.length_append] at hlen
      omega
  · intro hincomplete
    have hpart : s.inputBuffer ++ c <+: f.wire := by
      refine List.prefix_of_prefix_length_le ⟨rest, h⟩ (List.prefix_append f.wire _) ?_
      rw [List.length_append]
      omega
    unfold onMessage feed
    dsimp only
    split
    · rfl
    · rw [f.decode_incomplete hpart (by rwa [List.length_append])]
      rfl

/-- After the last event the frames that have been handled come first and the others
are in the buffer, and there are none of these exactly when the events were paced. -/
theorem run_spec {cuts : List Bytes} : ∀ {s : WsConn} {fs : List ClientFrame},
    s.inputBuffer ++ cuts.flatten = wires fs →
    ∃ done left s', fs = done ++ left ∧ s.run cuts = some s' ∧
      s'.handled = s.handled ++ done.map ClientFrame.frame ∧
      s'.replies = s.replies ++ (done.map ClientFrame.frame).flatMap replyTo ∧
      s'.inputBuffer = wires left ∧
      (left = [] ↔ Paced s.inputBuffer.length fs cuts) := by
  induction cuts with
  | nil =>
      intro s fs h
      rw [List.flatten_nil, List.append_nil] at h
      exact ⟨[], fs, s, rfl, rfl, by simp, by simp, h, paced_nil.symm⟩
  | cons c cuts ih =>
      intro s fs h
      rw [List.flatten_cons, ← List.append_assoc] at h
      cases fs with
      | nil =>
          have hlen := congrArg List.length h
          simp only [wires, List.map_nil, List.flatten_nil, List.length_nil, List.length_append]
            at hlen
          -- no frame is left, so neither the buffer nor the cuts hold a byte
          have hbuffer : s.inputBuffer = [] := List.eq_nil_of_length_eq_zero (by omega)
          have hc : c = [] := List.eq_nil_of_length_eq_zero (by omega)
          have hrest : cuts.flatten = [] := List.eq_nil_of_length_eq_zero (by omega)
          have hmessage : s.onMessage c = some s := by
            unfold onMessage
            dsimp only
            rw [hbuffer, hc, List.append_nil, if_pos rfl, ← hbuffer]
          obtain ⟨done, left, s', hsplit, hrun, hhandled, hreplies, hleft, -⟩ :=
            @ih s [] (by rw [hbuffer, hrest]; rfl)
          have hnone : left = [] := (List.append_eq_nil_iff.mp hsplit.symm).2
          refine ⟨done, left, s', hsplit, ?_, hhandled, hreplies, hleft, ?_⟩
          · rw [run, List.foldlM_cons, hmessage]
            exact hrun
          · exact iff_of_true hnone fun d hd => absurd hd (Nat.not_lt_zero d)
      | cons f fs =>
          obtain ⟨hcomplete, hincomplete⟩ := onMessage_spec h
          by_cases hcome : f.wire.length ≤ s.inputBuffer.length + c.length
          · -- one event handles one frame, even when the next one has come whole
            obtain ⟨buffer, hmessage, hrest, hlen⟩ := hcomplete hcome
            obtain ⟨done, left, s', rfl, hrun, hhandled, hreplies, hbuffer, hpaced⟩ := ih (s := {
              inputBuffer := buffer, handled := s.handled ++ [f.frame]
              replies := s.replies ++ replyTo f.frame }) hrest
            refine ⟨f :: done, left, s', rfl, ?_, ?_, ?_, hbuffer, ?_⟩
            · rw [run, List.foldlM_cons, hmessage]
              exact hrun
            · rw [hhandled]
              simp
            · rw [hreplies]
              simp
            · rw [paced_complete hcome, hpaced]
              dsimp only
              rw [hlen]
          · have hmessage := hincomplete (by omega)
            obtain ⟨done, left, s', hsplit, hrun, hhandled, hreplies, hleft, hpaced⟩ :=
              @ih { s with inputBuffer := s.inputBuffer ++ c } (f :: fs) h
            refine ⟨done, left, s', hsplit, ?_, hhandled, hreplies, hleft, ?_⟩
            · rw [run, List.foldlM_cons, hmessage]
              exact hrun
            · rw [paced_incomplete (by omega), hpaced]
              dsimp only
              rw [List.length_append]

/-- What the client is promised: all its frames have been handled, in order and once,
each with its reply, and no complete frame is left. -/
structure AllHandled (s s' : WsConn) (fs : List ClientFrame) : Prop where
  handled : s'.handled = s.handled ++ fs.map ClientFrame.frame
  replies : s'.replies = s.replies ++ (fs.map ClientFrame.frame).flatMap replyTo
  waiting : decode s'.inputBuffer = .incomplete

theorem decode_wires_nil {fs : List ClientFrame} (h : decode (wires fs) = .incomplete) :
    fs = [] := by
  cases fs with
  | nil => rfl
  | cons f fs =>
      rw [wires_cons, f.decode_wire] at h
      cases h

/-- Every frame is handled exactly when the events leave one for each. -/
theorem all_handled_iff (s : WsConn) (hempty : s.inputBuffer = []) (fs : List ClientFrame)
    (cuts : List Bytes) (hcuts : cuts.flatten = wires fs) :
    (∃ s', s.run cuts = some s' ∧ AllHandled s s' fs) ↔ Paced 0 fs cuts := by
  obtain ⟨done, left, s', rfl, hrun, hhandled, hreplies, hleft, hpaced⟩ :=
    @run_spec cuts s fs (by rw [hempty, hcuts, List.nil_append])
  rw [hempty, List.length_nil] at hpaced
  rw [← hpaced]
  constructor
  · rintro ⟨s'', hrun', hall⟩
    rw [hrun, Option.some.injEq] at hrun'
    subst hrun'
    exact decode_wires_nil (hleft ▸ hall.waiting)
  · rintro rfl
    rw [List.append_nil]
    refine ⟨s', hrun, hhandled, hreplies, ?_⟩
    rw [hleft]
    rfl

def ping (payload : Bytes) (h : payload.length < 2 ^ 63) : ClientFrame where
  first := 0x89
  key := some [1, 2, 3, 4]
  payload := payload
  key_length := by simp
  payload_fits := h

/-- Two pings, the second on its way when the first is handled. -/
def twoPings : List ClientFrame := [ping (ascii "a") (by decide), ping (ascii "bc") (by decide)]

theorem pings_handled : ∃ s', run {} [(wires twoPings).take 9, (wires twoPings).drop 9] = some s' ∧
    AllHandled {} s' twoPings :=
  (all_handled_iff {} rfl twoPings _ (by decide)).mpr (by decide)

/-- Both come in one read: the second gets no answer before more data comes. -/
theorem second_ping_waits : ¬ ∀ (fs : List ClientFrame) (cuts : List Bytes), [] ∉ cuts →
    cuts.flatten = wires fs → ∃ s', run {} cuts = some s' ∧ AllHandled {} s' fs := by
  intro h
  have hhandled := h twoPings [wires twoPings] (by decide) (by simp)
  obtain ⟨s', hrun, hall⟩ := hhandled
  have honly : (run {} [wires twoPings]).map WsConn.replies =
      some [encode kPong (ascii "a")] := by decide +kernel
  rw [hrun, Option.map_some, Option.some.injEq, hall.replies] at honly
  revert honly
  decide +kernel

end WsConn

end SolarDrive.Ws
