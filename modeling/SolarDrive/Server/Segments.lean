import SolarDrive.Server.Session

/-!
# A stream that changes its protocol

Requests, then an upgrade, then frames, in any reads. The callback of the upgrade
changes the context, but the parser it is called from goes on to the end of the read.
So the frames are read as frames when a read ends with the upgrade, and then each
needs a read of its own; `upgraded_iff` says that this and nothing else decides.
-/

namespace SolarDrive.Server

open Lib Http Network Ws

namespace Site

variable {σ : Type} (S : Site σ)

/-- The number of requests answered and the world, after a request. -/
def tally (t : Nat × σ) (req : HttpRequest) : Nat × σ := (S.reply req t.1 t.2).2

/-- Every request gets a response. -/
def Answered : List HttpRequest → Nat × σ → Prop
  | [], _ => True
  | req :: reqs, t =>
      (∃ resp keepAlive, (S.reply req t.1 t.2).1 = .response resp keepAlive) ∧
        Answered reqs (S.tally t req)

/-- And none of them ends the connection. -/
def Kept : List HttpRequest → Nat × σ → Prop
  | [], _ => True
  | req :: reqs, t => S.closes req t.1 t.2 = false ∧ Kept reqs (S.tally t req)

/-- The responses. -/
def answers : List HttpRequest → Nat × σ → Bytes
  | [], _ => []
  | req :: reqs, t =>
      (match (S.reply req t.1 t.2).1 with
        | .response resp keepAlive => S.responseText resp keepAlive
        | _ => []) ++ answers reqs (S.tally t req)

/-- What is sent for an upgrade. -/
def greeting (key : Bytes) (session : Option Bytes) (world : σ) : Bytes :=
  S.buildUpgradeResponse key ++
    match session with
    | none => encode kText (S.metrics world).dumpJson
    | some _ => []

end Site

/-- The bytes of a client: requests, an upgrade that is accepted, and frames. -/
structure UpgradeStream {σ : Type} (S : Site σ) (world : σ) where
  requests : List HttpRequest
  upgrade : HttpRequest
  /-- The text of these, and its last byte. -/
  front : Bytes
  last : UInt8
  frames : List ClientFrame
  parser : HttpParser
  feed_front : HttpParser.fresh.feed front = .ok (parser, requests)
  feed_last : parser.feedByte last = .ok (.fresh, [upgrade])
  answered : S.Answered requests (0, world)
  key : Bytes
  session : Option Bytes
  accepted : S.tryHandleUpgrade upgrade (requests.foldl S.tally (0, world)).2 = .accepted key session

/-- What the loop does for the client: it reads, or the socket is writable. -/
inductive Turn where
  | read (bytes : Bytes)
  | writable

def reads (turns : List Turn) : List Bytes :=
  turns.filterMap fun turn =>
    match turn with
    | .read bytes => some bytes
    | .writable => none

namespace UpgradeStream

variable {σ : Type} {S : Site σ} {world : σ} (st : UpgradeStream S world)

def text : Bytes := st.front ++ st.last :: wires st.frames

/-- The world that the upgrade finds. -/
def meanwhile : σ := (st.requests.foldl S.tally (0, world)).2

/-- All of it has been taken for what it is: the requests and the upgrade have been
dispatched, the frames decoded, and each has its answer. -/
structure Understood (s : Session σ) : Prop where
  handled : s.handled = st.requests ++ [st.upgrade]
  frames : s.frames = st.frames.map ClientFrame.frame
  stream : s.conn.stream = S.answers st.requests (0, world) ++
    S.greeting st.key st.session st.meanwhile ++
    ((st.frames.map ClientFrame.frame).flatMap replyTo).flatten

/-- Some read ends with the upgrade, and the others are paced for the frames. -/
def Aligned (cuts : List Bytes) : Prop :=
  ∃ k ≤ cuts.length, (cuts.take k).flatten.length = st.front.length + 1 ∧
    Paced 0 st.frames (cuts.drop k)

end UpgradeStream

/-! ## What a ledger says -/

namespace Site

variable {σ : Type} {S : Site σ} {t : Nat × σ}

theorem kept_append {xs ys : List HttpRequest} :
    S.Kept (xs ++ ys) t ↔ S.Kept xs t ∧ S.Kept ys (xs.foldl S.tally t) := by
  induction xs generalizing t with
  | nil => exact (true_and _).symm.to_iff
  | cons x xs ih =>
      simp only [List.cons_append, Kept, List.foldl_cons, ih, and_assoc]

theorem answered_append {xs ys : List HttpRequest} :
    S.Answered (xs ++ ys) t ↔ S.Answered xs t ∧ S.Answered ys (xs.foldl S.tally t) := by
  induction xs generalizing t with
  | nil => exact (true_and _).symm.to_iff
  | cons x xs ih =>
      simp only [List.cons_append, Answered, List.foldl_cons, ih, and_assoc]

theorem answers_append {xs ys : List HttpRequest} :
    S.answers (xs ++ ys) t = S.answers xs t ++ S.answers ys (xs.foldl S.tally t) := by
  induction xs generalizing t with
  | nil => rfl
  | cons x xs ih =>
      simp only [List.cons_append, answers, List.foldl_cons, ih, List.append_assoc]

end Site

namespace Session

variable {σ : Type} (S : Site σ) (kernel : Kernel)

def turn (s : Session σ) : Turn → Session σ
  | .read bytes => s.onRead S kernel bytes
  | .writable => if s.crashed then s else s.handleWrite kernel

def run (s : Session σ) (turns : List Turn) : Session σ := turns.foldl (turn S kernel) s

theorem run_append (s : Session σ) (xs ys : List Turn) :
    s.run S kernel (xs ++ ys) = (s.run S kernel xs).run S kernel ys := List.foldl_append

/-- No write fails. -/
def Unfailing : Prop := ∀ n asked, kernel n asked ≠ .error

/-- Every write is taken whole. -/
def Prompt : Prop := ∀ n asked, kernel n asked = .accepted asked

/-! ## Requests -/

/-- The connection is open and no response is to end it. -/
structure Live (s : Session σ) : Prop where
  opened : s.conn.state = .connected
  flowing : s.conn.Flowing
  staying : s.writeComplete ≠ .forceClose
  running : s.crashed = false

/-- Some requests have been served and this has been sent for them. -/
structure Served (s s' : Session σ) (reqs : List HttpRequest) (text : Bytes) : Prop where
  live : Live s'
  context : s'.context = s.context
  inputBuffer : s'.inputBuffer = s.inputBuffer
  parser : s'.parser = s.parser
  frames : s'.frames = s.frames
  handled : s'.handled = s.handled ++ reqs
  tally : (s'.requestCount, s'.world) = reqs.foldl S.tally (s.requestCount, s.world)
  stream : s'.conn.stream = s.conn.stream ++ text
  /-- Nothing waits when the kernel is prompt. -/
  drained : Prompt kernel → s.conn.outputBuffer.data = [] → s'.conn.outputBuffer.data = []

section Requests

variable {S kernel} {s s' s'' : Session σ}

theorem Served.trans {xs ys : List HttpRequest} {bs cs : Bytes} (h : Served S kernel s s' xs bs)
    (h' : Served S kernel s' s'' ys cs) : Served S kernel s s'' (xs ++ ys) (bs ++ cs) where
  live := h'.live
  context := h'.context.trans h.context
  inputBuffer := h'.inputBuffer.trans h.inputBuffer
  parser := h'.parser.trans h.parser
  frames := h'.frames.trans h.frames
  handled := by rw [h'.handled, h.handled, List.append_assoc]
  tally := by rw [h'.tally, h.tally, List.foldl_append]
  stream := by rw [h'.stream, h.stream, List.append_assoc]
  drained := fun hprompt hempty => h'.drained hprompt (h.drained hprompt hempty)

/-- A prompt kernel takes a message whole when nothing waits. -/
theorem sendInLoop_prompt {c : TcpConnection} {text : Bytes} (hopen : c.state = .connected)
    (hflow : c.Flowing) (hempty : c.outputBuffer.data = []) :
    c.sendInLoop text (.accepted text.length) =
      ({ c with sent := c.sent ++ text }, .writeComplete) := by
  unfold TcpConnection.sendInLoop
  rw [if_pos (by simp [TcpConnection.isConnected, hopen]),
    TcpConnection.writeMessage_direct _ _ hflow hempty]
  simp

theorem send_prompt (hprompt : Prompt kernel) (text : Bytes) (hopen : s.conn.state = .connected)
    (hflow : s.conn.Flowing) (hempty : s.conn.outputBuffer.data = []) :
    s.send kernel text = { s with
      conn := { s.conn with sent := s.conn.sent ++ text }
      writes := s.writes + 1 }.runWriteComplete := by
  unfold send proceed
  rw [if_pos (by simp [TcpConnection.isConnected, hopen]), hprompt,
    sendInLoop_prompt hopen hflow hempty]

/-- On a live connection a message is sent and nothing else happens. -/
theorem send_live (hkernel : Unfailing kernel) (text : Bytes) (h : Live s) :
    ∃ conn, s.send kernel text = { s with conn, writes := s.writes + 1 } ∧
      conn.state = .connected ∧ conn.Flowing ∧ conn.stream = s.conn.stream ++ text ∧
      (Prompt kernel → s.conn.outputBuffer.data = [] → conn.outputBuffer.data = []) := by
  rcases send_cases kernel text h.opened h.flowing with
    ⟨conn, hsend, hopen', hflow', hstream, -⟩ | ⟨-, -, -, -, herror | hforce⟩
  · refine ⟨conn, hsend, hopen', hflow', hstream, fun hprompt hempty => ?_⟩
    have hsent := (send_prompt hprompt text h.opened h.flowing hempty).symm.trans hsend
    rw [runWriteComplete_of_ne (s := { s with
      conn := { s.conn with sent := s.conn.sent ++ text }
      writes := s.writes + 1 }) h.staying] at hsent
    have hconn := congrArg Session.conn hsent
    dsimp only at hconn
    rw [← hconn]
    exact hempty
  · exact absurd herror (hkernel _ _)
  · exact absurd hforce h.staying

theorem Live.sendResponse (hkernel : Unfailing kernel) (resp : HttpResponse) (h : Live s) :
    Served S kernel s (s.sendResponse S kernel resp true) [] (S.responseText resp true) := by
  have hanswering : Live (s.answering true) := ⟨h.opened, h.flowing, nofun, h.running⟩
  obtain ⟨conn, hsend, hopen, hflow, hstream, hdrained⟩ :=
    send_live hkernel (S.responseText resp true) hanswering
  unfold Session.sendResponse
  rw [hsend]
  exact ⟨⟨hopen, hflow, nofun, h.running⟩, rfl, rfl, rfl, rfl, (List.append_nil _).symm, rfl,
    hstream, hdrained⟩

/-- A request whose response keeps the connection. -/
theorem Live.onRequest (hkernel : Unfailing kernel) {req : HttpRequest} (h : Live s)
    (hanswered : S.Answered [req] (s.requestCount, s.world))
    (hkept : S.Kept [req] (s.requestCount, s.world)) :
    Served S kernel s (s.onRequest S kernel req) [req]
      (S.answers [req] (s.requestCount, s.world)) := by
  obtain ⟨⟨resp, keepAlive, hresp⟩, -⟩ := hanswered
  obtain ⟨hcloses, -⟩ := hkept
  obtain ⟨count, world, hreply⟩ : ∃ count world,
      S.reply req s.requestCount s.world = (.response resp keepAlive, count, world) :=
    ⟨_, _, Prod.ext hresp rfl⟩
  have hkeep : keepAlive = true := by
    unfold Site.closes at hcloses
    rw [hreply] at hcloses
    simpa using hcloses
  subst hkeep
  have hresponse := Live.sendResponse (S := S) hkernel resp (s := { s with
    requestCount := count
    world := world
    handled := s.handled ++ [req]
    late := if s.closing then s.late ++ [req] else s.late })
    ⟨h.opened, h.flowing, h.staying, h.running⟩
  have hanswer : S.answers [req] (s.requestCount, s.world) = S.responseText resp true := by
    simp [Site.answers, hresp]
  unfold Session.onRequest
  dsimp only
  rw [hreply, hanswer]
  refine ⟨hresponse.live, hresponse.context, hresponse.inputBuffer, hresponse.parser,
    hresponse.frames, ?_, ?_, hresponse.stream, hresponse.drained⟩
  · rw [hresponse.handled, List.append_nil]
  · rw [hresponse.tally]
    exact (congrArg Prod.snd hreply).symm

/-- The requests of a read before the rest of it. -/
theorem Live.finishFeed (hkernel : Unfailing kernel) {e : Option StoError}
    (more : List HttpRequest) {reqs : List HttpRequest} : ∀ {s : Session σ}, Live s →
    S.Answered reqs (s.requestCount, s.world) → S.Kept reqs (s.requestCount, s.world) →
    ∃ s', Served S kernel s s' reqs (S.answers reqs (s.requestCount, s.world)) ∧
      s.finishFeed S kernel e (reqs ++ more) = s'.finishFeed S kernel e more := by
  induction reqs with
  | nil =>
      intro s h _ _
      exact ⟨s, ⟨h, rfl, rfl, rfl, rfl, (List.append_nil _).symm, rfl, (List.append_nil _).symm,
        fun _ hempty => hempty⟩, rfl⟩
  | cons req reqs ih =>
      intro s h hanswered hkept
      rw [← List.singleton_append, Site.answered_append] at hanswered
      rw [← List.singleton_append, Site.kept_append] at hkept
      have hone := Live.onRequest hkernel (s := { s with pending := some (reqs ++ more, e) })
        ⟨h.opened, h.flowing, h.staying, h.running⟩ hanswered.1 hkept.1
      have htally := hone.tally
      obtain ⟨s', hserved, hfinish⟩ := ih hone.live (htally ▸ hanswered.2) (htally ▸ hkept.2)
      refine ⟨s', ?_, ?_⟩
      · rw [htally] at hserved
        have hall := hone.trans hserved
        rw [← Site.answers_append, List.singleton_append] at hall
        exact ⟨hall.live, hall.context, hall.inputBuffer, hall.parser, hall.frames, hall.handled,
          hall.tally, hall.stream, hall.drained⟩
      · rw [List.cons_append, Session.finishFeed,
          if_neg (by rw [hone.live.running]; exact Bool.false_ne_true)]
        exact hfinish

end Requests

/-! ## Reads of requests -/

/-- Between two reads of a connection that speaks HTTP. -/
structure Speaking (s : Session σ) (parser : HttpParser) : Prop where
  live : Live s
  context : s.context = .http
  inputBuffer : s.inputBuffer = []
  pending : s.pending = none
  parser : s.parser = parser

section Reads

variable {S kernel} {s s' : Session σ} {p q : HttpParser}

/-- What is fed in two parts. -/
theorem feed_append {xs ys : Bytes} {out : List HttpRequest} (h : p.feed (xs ++ ys) = .ok (q, out)) :
    ∃ p' xs' ys', p.feed xs = .ok (p', xs') ∧ p'.feed ys = .ok (q, ys') ∧ out = xs' ++ ys' := by
  cases hfirst : p.feed xs with
  | error e =>
      rw [HttpParser.feed_append_error ys hfirst] at h
      cases h
  | ok r =>
      obtain ⟨p', xs'⟩ := r
      rw [HttpParser.feed_append_ok ys hfirst] at h
      cases hrest : p'.feed ys with
      | error e =>
          rw [hrest] at h
          cases h
      | ok r =>
          obtain ⟨r, ys'⟩ := r
          rw [hrest] at h
          cases h
          exact ⟨p', xs', ys', rfl, hrest, rfl⟩

theorem deliveries_append {xs : Bytes} (ys : Bytes) : ∀ {p : HttpParser} {out : List HttpRequest},
    p.feed xs = .ok (q, out) →
    p.deliveries (xs ++ ys) = (out ++ (q.deliveries ys).1, (q.deliveries ys).2) := by
  induction xs with
  | nil =>
      intro p out h
      cases h
      rfl
  | cons c cs ih =>
      intro p out h
      rw [← List.singleton_append] at h
      obtain ⟨p', first, rest, hfirst, hrest, rfl⟩ := feed_append h
      have hbyte : p.feedByte c = .ok (p', first) := by
        simp only [HttpParser.feed] at hfirst
        cases hbyte : p.feedByte c with
        | error e =>
            rw [hbyte] at hfirst
            cases hfirst
        | ok r =>
            rw [hbyte] at hfirst
            simpa using hfirst
      simp only [List.cons_append, HttpParser.deliveries, hbyte, ih hrest, List.append_assoc]

theorem onRead_http (h : Speaking s p) {c : Bytes} {reqs : List HttpRequest} {e : Option StoError}
    (hdeliveries : p.deliveries c = (reqs, e)) :
    s.onRead S kernel c = { s with
      pending := some (reqs, e)
      parser := match p.feed c with
        | .ok (parser, _) => parser
        | .error _ => p }.finishFeed S kernel e reqs := by
  unfold onRead handleRead
  rw [if_neg (by rw [h.live.running]; exact Bool.false_ne_true),
    if_neg (by simp [TcpConnection.isConnected, h.live.opened])]
  simp only [h.context, h.inputBuffer, List.nil_append]
  rewrite [h.parser, hdeliveries]
  rfl

/-- Some reads have brought requests that keep the connection. -/
structure Talked (S : Site σ) (kernel : Kernel) (s s' : Session σ) (q : HttpParser)
    (reqs : List HttpRequest) : Prop where
  speaking : Speaking s' q
  frames : s'.frames = s.frames
  handled : s'.handled = s.handled ++ reqs
  tally : (s'.requestCount, s'.world) = reqs.foldl S.tally (s.requestCount, s.world)
  stream : s'.conn.stream = s.conn.stream ++ S.answers reqs (s.requestCount, s.world)
  drained : Prompt kernel → s.conn.outputBuffer.data = [] → s'.conn.outputBuffer.data = []

theorem Talked.trans {s'' : Session σ} {r : HttpParser} {xs ys : List HttpRequest}
    (h : Talked S kernel s s' q xs) (h' : Talked S kernel s' s'' r ys) :
    Talked S kernel s s'' r (xs ++ ys) where
  speaking := h'.speaking
  frames := h'.frames.trans h.frames
  handled := by rw [h'.handled, h.handled, List.append_assoc]
  tally := by rw [h'.tally, h.tally, List.foldl_append]
  stream := by rw [h'.stream, h.stream, h.tally, Site.answers_append, List.append_assoc]
  drained := fun hprompt hempty => h'.drained hprompt (h.drained hprompt hempty)

/-- A read of requests that keep the connection. -/
theorem Speaking.onRead (hkernel : Unfailing kernel) (h : Speaking s p) {c : Bytes}
    {reqs : List HttpRequest} (hfeed : p.feed c = .ok (q, reqs))
    (hanswered : S.Answered reqs (s.requestCount, s.world))
    (hkept : S.Kept reqs (s.requestCount, s.world)) :
    Talked S kernel s (s.onRead S kernel c) q reqs := by
  rw [onRead_http h ((HttpParser.feed_eq_deliveries p c).1 q reqs hfeed), hfeed]
  obtain ⟨s', hserved, hfinish⟩ := Live.finishFeed hkernel (e := none) []
    (s := { s with pending := some (reqs, none), parser := q })
    ⟨h.live.opened, h.live.flowing, h.live.staying, h.live.running⟩ hanswered hkept
  rw [List.append_nil] at hfinish
  dsimp only
  rw [hfinish]
  exact ⟨⟨⟨hserved.live.opened, hserved.live.flowing, hserved.live.staying, rfl⟩,
    hserved.context.trans h.context, hserved.inputBuffer.trans h.inputBuffer, rfl, hserved.parser⟩,
    hserved.frames, hserved.handled, hserved.tally, hserved.stream, hserved.drained⟩

theorem Live.handleWrite (hkernel : Unfailing kernel) (h : Live s) :
    ∃ conn, s.handleWrite kernel = { s with conn, writes := s.writes + 1 } ∧
      conn.state = .connected ∧ conn.Flowing ∧ conn.stream = s.conn.stream ∧
      (s.conn.outputBuffer.data = [] → conn.outputBuffer.data = []) := by
  rcases handleWrite_cases kernel h.opened h.flowing with
    ⟨conn, hwrite, hopen', hflow', hstream, -⟩ | ⟨-, -, -, herror | hforce⟩
  · refine ⟨conn, hwrite, hopen', hflow', hstream, fun hempty => ?_⟩
    have hsame : s.handleWrite kernel = { s with writes := s.writes + 1 } := by
      unfold Session.handleWrite proceed
      rw [TcpConnection.handleWrite_empty _ hempty]
      rfl
    have hconn := congrArg Session.conn (hwrite.symm.trans hsame)
    dsimp only at hconn
    rw [hconn]
    exact hempty
  · exact absurd herror (hkernel _ _)
  · exact absurd hforce h.staying

/-- The reads before the upgrade's last byte, with the socket writable in between. -/
theorem Speaking.run (hkernel : Unfailing kernel) (turns : List Turn) :
    ∀ {s : Session σ} {p : HttpParser} {reqs : List HttpRequest}, Speaking s p →
    p.feed (reads turns).flatten = .ok (q, reqs) → S.Answered reqs (s.requestCount, s.world) →
    S.Kept reqs (s.requestCount, s.world) → Talked S kernel s (s.run S kernel turns) q reqs := by
  induction turns with
  | nil =>
      intro s p reqs h hfeed _ _
      cases hfeed
      exact ⟨h, rfl, (List.append_nil _).symm, rfl, (List.append_nil _).symm,
        fun _ hempty => hempty⟩
  | cons t turns ih =>
      intro s p reqs h hfeed hanswered hkept
      cases t with
      | read c =>
          change p.feed (c ++ (reads turns).flatten) = _ at hfeed
          obtain ⟨p', xs, ys, hfirst, hrest, rfl⟩ := feed_append hfeed
          rw [Site.answered_append] at hanswered
          rw [Site.kept_append] at hkept
          have hread := h.onRead hkernel hfirst hanswered.1 hkept.1
          have htally := hread.tally
          exact hread.trans (ih hread.speaking hrest (htally ▸ hanswered.2) (htally ▸ hkept.2))
      | writable =>
          obtain ⟨conn, hwrite, hopen, hflow, hstream, hdrained⟩ := h.live.handleWrite hkernel
          have hturn : turn S kernel s .writable = { s with conn, writes := s.writes + 1 } := by
            unfold turn
            dsimp only
            rw [if_neg (by rw [h.live.running]; exact Bool.false_ne_true), hwrite]
          have hafter : Speaking { s with conn, writes := s.writes + 1 } p :=
            ⟨⟨hopen, hflow, h.live.staying, h.live.running⟩, h.context, h.inputBuffer, h.pending,
              h.parser⟩
          have hfirst : Talked S kernel s { s with conn, writes := s.writes + 1 } p [] :=
            ⟨hafter, rfl, (List.append_nil _).symm, rfl,
              hstream.trans (List.append_nil _).symm, fun _ => hdrained⟩
          have hrest := ih (s := { s with conn, writes := s.writes + 1 }) hafter hfeed hanswered hkept
          rw [Session.run, List.foldl_cons, hturn]
          exact hfirst.trans hrest

end Reads

/-! ## The upgrade -/

/-- Between two reads of a connection that has been upgraded. -/
structure Upgraded (s : Session σ) : Prop where
  live : Live s
  context : ∃ uploadId, s.context = .ws uploadId
  pending : s.pending = none

section Upgrades

variable {S kernel} {s s' : Session σ}

theorem Live.upgrade (hkernel : Unfailing kernel) (h : Live s) (key : Bytes)
    (session : Option Bytes) : Live (s.upgrade S kernel key session) ∧
    (∃ uploadId, (s.upgrade S kernel key session).context = .ws uploadId) ∧
    (s.upgrade S kernel key session).inputBuffer = s.inputBuffer ∧
    (s.upgrade S kernel key session).frames = s.frames ∧
    (s.upgrade S kernel key session).handled = s.handled ∧
    (s.upgrade S kernel key session).conn.stream =
      s.conn.stream ++ S.greeting key session s.world := by
  obtain ⟨conn, hsend, hopen, hflow, hstream, -⟩ :=
    send_live hkernel (S.buildUpgradeResponse key) h
  unfold Session.upgrade
  rw [hsend]
  cases session with
  | none =>
      obtain ⟨conn', hsend', hopen', hflow', hstream', -⟩ := send_live hkernel
        (encode kText (S.metrics s.world).dumpJson) (s := { s with
          conn
          writes := s.writes + 1
          metrics := s.metrics + 1
          context := .ws [] }) ⟨hopen, hflow, h.staying, h.running⟩
      dsimp only at hsend' ⊢
      rw [hsend']
      refine ⟨⟨hopen', hflow', h.staying, h.running⟩, ⟨[], rfl⟩, rfl, rfl, rfl, ?_⟩
      rw [hstream', hstream, Site.greeting, List.append_assoc]
  | some uploadId =>
      refine ⟨⟨hopen, hflow, h.staying, h.running⟩, ⟨uploadId, rfl⟩, rfl, rfl, rfl, ?_⟩
      rw [Site.greeting, List.append_nil]
      exact hstream

/-- An upgrade is handed over, with more behind it in the read. -/
theorem Live.finishUpgrade (hkernel : Unfailing kernel) (h : Live s) {req : HttpRequest}
    {key : Bytes} {session : Option Bytes}
    (haccepted : S.tryHandleUpgrade req s.world = .accepted key session)
    (more : List HttpRequest) (e : Option StoError) :
    ∃ s', s.finishFeed S kernel e (req :: more) = s'.finishFeed S kernel e more ∧ Live s' ∧
      (∃ uploadId, s'.context = .ws uploadId) ∧ s'.inputBuffer = s.inputBuffer ∧
      s'.frames = s.frames ∧ s'.handled = s.handled ++ [req] ∧
      s'.conn.stream = s.conn.stream ++ S.greeting key session s.world := by
  have hreply : S.reply req s.requestCount s.world =
      (.upgrade key session, s.requestCount, s.world) := by
    unfold Site.reply
    rw [haccepted]
  obtain ⟨hlive, hcontext, hbuffer, hframes, hhandled, hstream⟩ := Live.upgrade (S := S) hkernel
    (s := { s with
      pending := some (more, e)
      handled := s.handled ++ [req]
      late := if s.closing then s.late ++ [req] else s.late })
    ⟨h.opened, h.flowing, h.staying, h.running⟩ key session
  refine ⟨_, ?_, hlive, hcontext, hbuffer, hframes, hhandled, hstream⟩
  rw [Session.finishFeed, Session.onRequest]
  dsimp only
  rw [hreply]
  dsimp only
  rw [if_neg (by rw [hlive.running]; exact Bool.false_ne_true)]

theorem speaking_established (world : σ) : Speaking { world := world } .fresh where
  live := ⟨rfl, ⟨rfl, by simp [TcpConnection.established]⟩, nofun, rfl⟩
  context := rfl
  inputBuffer := rfl
  pending := rfl
  parser := rfl

theorem stream_established : TcpConnection.established.stream = [] := by
  simp [TcpConnection.established, TcpConnection.stream]

/-- The reads up to the one that completes the upgrade, and what is left of it. -/
theorem run_upgrade (hkernel : Unfailing kernel) {world : σ} (st : UpgradeStream S world)
    (hkept : S.Kept st.requests (0, world)) {turns : List Turn} {c : Bytes}
    (hfront : (reads turns).flatten ++ c = st.front) (extra : Bytes) :
    ∃ s', run S kernel { world := world } (turns ++ [.read (c ++ st.last :: extra)]) =
        s'.finishFeed S kernel (HttpParser.fresh.deliveries extra).2
          (HttpParser.fresh.deliveries extra).1 ∧
      Live s' ∧ (∃ uploadId, s'.context = .ws uploadId) ∧ s'.inputBuffer = [] ∧ s'.frames = [] ∧
      s'.handled = st.requests ++ [st.upgrade] ∧
      s'.conn.stream = S.answers st.requests (0, world) ++
        S.greeting st.key st.session st.meanwhile := by
  have hfeed := st.feed_front
  rw [← hfront] at hfeed
  obtain ⟨p, xs, ys, hbefore, hlast, hreqs⟩ := feed_append hfeed
  have hanswered := st.answered
  rw [hreqs, Site.answered_append] at hanswered
  rw [hreqs, Site.kept_append] at hkept
  have htalked := (speaking_established world).run (S := S) hkernel turns hbefore hanswered.1 hkept.1
  rw [run_append]
  generalize run S kernel { world := world } turns = s₁ at htalked
  obtain ⟨hspeaking, hframes, hhandled, htally, hstream, -⟩ := htalked
  change s₁.handled = xs at hhandled
  change s₁.conn.stream = TcpConnection.established.stream ++ _ at hstream
  rw [stream_established, List.nil_append] at hstream
  -- the requests of the read, the upgrade, and what comes behind it
  have hdeliveries : p.deliveries (c ++ st.last :: extra) =
      (ys ++ st.upgrade :: (HttpParser.fresh.deliveries extra).1,
        (HttpParser.fresh.deliveries extra).2) := by
    rw [deliveries_append _ hlast, HttpParser.deliveries, st.feed_last]
    rfl
  obtain ⟨s₂, hserved, hfinish⟩ := Live.finishFeed hkernel
    (e := (HttpParser.fresh.deliveries extra).2)
    (st.upgrade :: (HttpParser.fresh.deliveries extra).1) (s := { s₁ with
      pending := some (ys ++ st.upgrade :: (HttpParser.fresh.deliveries extra).1,
        (HttpParser.fresh.deliveries extra).2)
      parser := match p.feed (c ++ st.last :: extra) with
        | .ok (parser, _) => parser
        | .error _ => p })
    ⟨hspeaking.live.opened, hspeaking.live.flowing, hspeaking.live.staying, hspeaking.live.running⟩
    (htally ▸ hanswered.2) (htally ▸ hkept.2)
  have hworld : s₂.world = st.meanwhile := by
    have hafter := congrArg Prod.snd hserved.tally
    dsimp only at hafter
    rw [hafter, htally, UpgradeStream.meanwhile, hreqs, List.foldl_append]
  have haccepted : S.tryHandleUpgrade st.upgrade s₂.world = .accepted st.key st.session := by
    rw [hworld]
    exact st.accepted
  obtain ⟨s₃, hupgrade, hlive, hcontext, hbuffer, hframes', hhandled', hstream'⟩ :=
    Live.finishUpgrade hkernel hserved.live haccepted
      (HttpParser.fresh.deliveries extra).1 (HttpParser.fresh.deliveries extra).2
  refine ⟨s₃, ?_, hlive, hcontext, ?_, ?_, ?_, ?_⟩
  · change s₁.onRead S kernel (c ++ st.last :: extra) = _
    rw [onRead_http hspeaking hdeliveries, hfinish, hupgrade]
  · rw [hbuffer, hserved.inputBuffer]
    exact hspeaking.inputBuffer
  · rw [hframes', hserved.frames]
    exact hframes
  · rw [hhandled', hserved.handled, hreqs]
    dsimp only
    rw [hhandled]
  · rw [hstream', hserved.stream, hworld, hreqs, Site.answers_append]
    dsimp only
    rw [hstream, htally]

/-! ## Reads of frames -/

theorem Live.sendAll (hkernel : Unfailing kernel) (texts : List Bytes) : ∀ {s : Session σ}, Live s →
    ∃ conn writes, texts.foldl (fun s text => s.send kernel text) s = { s with conn, writes } ∧
      conn.state = .connected ∧ conn.Flowing ∧ conn.stream = s.conn.stream ++ texts.flatten := by
  induction texts with
  | nil =>
      intro s h
      exact ⟨s.conn, s.writes, rfl, h.opened, h.flowing, (List.append_nil _).symm⟩
  | cons text texts ih =>
      intro s h
      obtain ⟨conn, hsend, hopen, hflow, hstream, -⟩ := send_live hkernel text h
      obtain ⟨conn', writes, hsends, hopen', hflow', hstream'⟩ :=
        ih (s := { s with conn, writes := s.writes + 1 }) ⟨hopen, hflow, h.staying, h.running⟩
      refine ⟨conn', writes, ?_, hopen', hflow', ?_⟩
      · rw [List.foldl_cons, hsend, hsends]
      · rw [hstream']
        dsimp only
        rw [hstream, List.flatten_cons, List.append_assoc]

/-- The connection is the handler's, behind what had been sent before. -/
structure Mirrors (s : Session σ) (ws : WsConn) (before : Bytes) : Prop where
  upgraded : Upgraded s
  inputBuffer : s.inputBuffer = ws.inputBuffer
  frames : s.frames = ws.handled
  stream : s.conn.stream = before ++ ws.replies.flatten

theorem Mirrors.onRead (hkernel : Unfailing kernel) {ws ws' : WsConn} {before c : Bytes}
    (h : Mirrors s ws before) (hmessage : ws.onMessage c = some ws') :
    Mirrors (s.onRead S kernel c) ws' before ∧ (s.onRead S kernel c).handled = s.handled := by
  obtain ⟨hupgraded, hbuffer, hframes, hstream⟩ := h
  obtain ⟨hlive, ⟨uploadId, hcontext⟩, hpending⟩ := hupgraded
  have hread : s.handleRead kernel c = s.onFrames kernel (ws.inputBuffer ++ c) := by
    unfold handleRead
    rw [if_neg (by simp [TcpConnection.isConnected, hlive.opened])]
    simp only [hcontext, hbuffer]
  unfold Session.onRead
  rw [if_neg (by rw [hlive.running]; exact Bool.false_ne_true), hread]
  unfold onFrames
  rw [WsConn.onMessage_eq] at hmessage
  cases hdecode : decode (ws.inputBuffer ++ c) with
  | incomplete =>
      simp only [hdecode, Option.some.injEq] at hmessage
      subst hmessage
      simp only [hpending]
      exact ⟨⟨⟨⟨hlive.opened, hlive.flowing, hlive.staying, hlive.running⟩, ⟨uploadId, hcontext⟩, rfl⟩,
        rfl, hframes, hstream⟩, trivial⟩
  | frame f consumed =>
      simp only [hdecode, Option.some.injEq] at hmessage
      subst hmessage
      obtain ⟨conn, writes, hsends, hopen, hflow, hstream'⟩ := Live.sendAll hkernel (replyTo f)
        (s := { s with
          inputBuffer := (ws.inputBuffer ++ c).drop consumed
          frames := s.frames ++ [f] })
        ⟨hlive.opened, hlive.flowing, hlive.staying, hlive.running⟩
      dsimp only
      rw [hsends]
      simp only [hpending]
      refine ⟨⟨⟨⟨hopen, hflow, hlive.staying, hlive.running⟩, ⟨uploadId, hcontext⟩, rfl⟩, rfl, ?_, ?_⟩,
        trivial⟩
      · dsimp only
        rw [hframes]
      · rw [hstream', List.flatten_append, ← List.append_assoc, ← hstream]
  | lengthError =>
      simp only [hdecode] at hmessage
      cases hmessage

theorem Mirrors.run (hkernel : Unfailing kernel) {before : Bytes} {turns : List Turn} :
    ∀ {s : Session σ} {ws ws' : WsConn}, Mirrors s ws before → ws.run (reads turns) = some ws' →
    Mirrors (s.run S kernel turns) ws' before ∧ (s.run S kernel turns).handled = s.handled := by
  induction turns with
  | nil =>
      intro s ws ws' h hrun
      cases hrun
      exact ⟨h, rfl⟩
  | cons t turns ih =>
      intro s ws ws' h hrun
      cases t with
      | read c =>
          change (c :: reads turns).foldlM WsConn.onMessage ws = some ws' at hrun
          rw [List.foldlM_cons] at hrun
          obtain ⟨ws₁, hfirst, hrest⟩ := Option.bind_eq_some_iff.mp hrun
          obtain ⟨hread, hhandled⟩ := h.onRead (S := S) hkernel hfirst
          obtain ⟨hall, hhandled'⟩ := ih hread hrest
          exact ⟨hall, hhandled'.trans hhandled⟩
      | writable =>
          obtain ⟨⟨hlive, hcontext, hpending⟩, hbuffer, hframes, hstream⟩ := h
          obtain ⟨conn, hwrite, hopen, hflow, hsame, -⟩ := hlive.handleWrite hkernel
          have hturn : turn S kernel s .writable = { s with conn, writes := s.writes + 1 } := by
            unfold turn
            dsimp only
            rw [if_neg (by rw [hlive.running]; exact Bool.false_ne_true), hwrite]
          rw [Session.run, List.foldl_cons, hturn]
          exact ih (s := { s with conn, writes := s.writes + 1 })
            ⟨⟨⟨hopen, hflow, hlive.staying, hlive.running⟩, hcontext, hpending⟩, hbuffer, hframes,
              hsame.trans hstream⟩ hrun

/-- When a read ends with the upgrade, its frames are all understood exactly when the
reads after it are paced for them. -/
theorem understood_aligned (hkernel : Unfailing kernel) {world : σ} (st : UpgradeStream S world)
    (hkept : S.Kept st.requests (0, world)) (turns after : List Turn) {c : Bytes}
    (hfront : (reads turns).flatten ++ c = st.front)
    (hback : (reads after).flatten = wires st.frames) :
    st.Understood (run S kernel { world := world } (turns ++ .read (c ++ [st.last]) :: after)) ↔
      Paced 0 st.frames (reads after) := by
  obtain ⟨s', hrun, hlive, hcontext, hbuffer, hframes, hhandled, hstream⟩ :=
    run_upgrade hkernel st hkept hfront []
  obtain ⟨done, left, ws, hsplit, hws, hdone, hreplies, -, hpaced⟩ :=
    @WsConn.run_spec (reads after) {} st.frames (by rw [hback]; rfl)
  have hmirrors : Mirrors (s'.finishFeed S kernel none []) {}
      (S.answers st.requests (0, world) ++ S.greeting st.key st.session st.meanwhile) :=
    ⟨⟨⟨hlive.opened, hlive.flowing, hlive.staying, rfl⟩, hcontext, rfl⟩, hbuffer, hframes,
      hstream.trans (List.append_nil _).symm⟩
  obtain ⟨hall, hhandled'⟩ := hmirrors.run (S := S) hkernel hws
  have hend : run S kernel { world := world } (turns ++ .read (c ++ [st.last]) :: after) =
      (s'.finishFeed S kernel none []).run S kernel after := by
    rw [← List.singleton_append, ← List.append_assoc, run_append, hrun]
    rfl
  rw [hend]
  refine Iff.trans ?_ hpaced
  constructor
  · rintro ⟨-, hframes', -⟩
    have hlen := congrArg List.length (hall.frames.symm.trans hframes')
    rw [hdone, hsplit] at hlen
    simpa using hlen
  · rintro rfl
    rw [List.append_nil] at hsplit
    refine ⟨?_, ?_, ?_⟩
    · rw [hhandled']
      exact hhandled
    · rw [hall.frames, hdone, hsplit]
      rfl
    · rw [hall.stream, hreplies, hsplit]
      rfl

/-! ## Bytes that come with the upgrade -/

/-- What the frames decoded take, and what is buffered. -/
def received (s : Session σ) : Nat := (s.frames.map frameSize).sum + s.inputBuffer.length

/-- The requests of a read leave the frames alone, and no context is HTTP again. -/
theorem onRequest_frame (S : Site σ) (kernel : Kernel) (req : HttpRequest) (s : Session σ) :
    (s.onRequest S kernel req).received = s.received ∧
    ((∃ uploadId, s.context = .ws uploadId) →
      ∃ uploadId, (s.onRequest S kernel req).context = .ws uploadId) := by
  unfold onRequest
  dsimp only
  split
  · rename_i key session count world _
    unfold upgrade
    obtain ⟨conn, disconnects, sessions, metrics, writes, hsend⟩ := send_frame kernel
      (S.buildUpgradeResponse key) { s with
        requestCount := count
        world := world
        handled := s.handled ++ [req]
        late := if s.closing then s.late ++ [req] else s.late }
    dsimp only at hsend ⊢
    rw [hsend]
    cases session with
    | none =>
        dsimp only
        obtain ⟨_, _, _, _, _, hsend'⟩ := send_frame kernel (encode kText (S.metrics world).dumpJson)
          { s with
            conn, disconnects, sessions, writes
            metrics := metrics + 1
            context := .ws []
            requestCount := count
            world := world
            handled := s.handled ++ [req]
            late := if s.closing then s.late ++ [req] else s.late }
        rw [hsend']
        exact ⟨rfl, fun _ => ⟨[], rfl⟩⟩
    | some uploadId => exact ⟨rfl, fun _ => ⟨uploadId, rfl⟩⟩
  · rename_i resp keepAlive count world _
    unfold sendResponse
    obtain ⟨_, _, _, _, _, hsend⟩ := send_frame kernel (S.responseText resp keepAlive)
      (answering keepAlive { s with
        requestCount := count
        world := world
        handled := s.handled ++ [req]
        late := if s.closing then s.late ++ [req] else s.late })
    rw [hsend]
    exact ⟨rfl, id⟩
  · exact ⟨rfl, id⟩

theorem finishFeed_frame (S : Site σ) (kernel : Kernel) (e : Option StoError)
    (reqs : List HttpRequest) : ∀ s : Session σ,
    (s.finishFeed S kernel e reqs).received = s.received ∧
    ((∃ uploadId, s.context = .ws uploadId) →
      ∃ uploadId, (s.finishFeed S kernel e reqs).context = .ws uploadId) := by
  induction reqs with
  | nil => exact fun s => ⟨rfl, id⟩
  | cons req reqs ih =>
      intro s
      obtain ⟨hreceived, hcontext⟩ := onRequest_frame S kernel req
        { s with pending := some (reqs, e) }
      obtain ⟨hreceived', hcontext'⟩ :=
        ih ({ s with pending := some (reqs, e) }.onRequest S kernel req)
      rw [finishFeed]
      split
      · exact ⟨hreceived, hcontext⟩
      · exact ⟨hreceived'.trans hreceived, fun h => hcontext' (hcontext h)⟩

theorem onFrames_frame (kernel : Kernel) (data : Bytes) (s : Session σ) :
    (s.onFrames kernel data).received ≤
      (s.frames.map frameSize).sum + max s.inputBuffer.length data.length ∧
    (s.onFrames kernel data).context = s.context := by
  have hreplies : ∀ (texts : List Bytes) (s : Session σ),
      (texts.foldl (fun s text => s.send kernel text) s).received = s.received ∧
      (texts.foldl (fun s text => s.send kernel text) s).context = s.context := by
    intro texts
    induction texts with
    | nil => exact fun s => ⟨rfl, rfl⟩
    | cons text texts ih =>
        intro s
        obtain ⟨_, _, _, _, _, hsend⟩ := send_frame kernel text s
        obtain ⟨hreceived, hcontext⟩ := ih (s.send kernel text)
        rw [List.foldl_cons, hreceived, hcontext, hsend]
        exact ⟨rfl, rfl⟩
  unfold onFrames
  split
  · exact ⟨Nat.add_le_add_left (Nat.le_max_right _ _) _, rfl⟩
  · rename_i f consumed hdecode
    obtain ⟨hreceived, hcontext⟩ := hreplies (replyTo f) { s with
      inputBuffer := data.drop consumed
      frames := s.frames ++ [f] }
    obtain ⟨hsize, hconsumed, -⟩ := frameSize_le hdecode
    refine ⟨?_, hcontext⟩
    rw [hreceived]
    simp only [received, List.map_append, List.sum_append, List.map_cons, List.map_nil,
      List.sum_cons, List.sum_nil, List.length_drop]
    omega
  · exact ⟨Nat.add_le_add_left (Nat.le_max_left _ _) _, rfl⟩

/-- A connection that is upgraded decodes no more than it reads. -/
theorem turn_frame (S : Site σ) (kernel : Kernel) (t : Turn) (s : Session σ)
    (hcontext : ∃ uploadId, s.context = .ws uploadId) :
    (∃ uploadId, (turn S kernel s t).context = .ws uploadId) ∧
    (turn S kernel s t).received ≤ s.received + (reads [t]).flatten.length := by
  cases t with
  | read c =>
      obtain ⟨uploadId, hws⟩ := hcontext
      have hread : (∃ uploadId, (s.handleRead kernel c).context = .ws uploadId) ∧
          (s.handleRead kernel c).received ≤ s.received + c.length := by
        unfold handleRead
        split
        · exact ⟨⟨uploadId, hws⟩, Nat.le_add_right _ _⟩
        · simp only [hws]
          obtain ⟨hreceived, hsame⟩ := onFrames_frame kernel (s.inputBuffer ++ c) s
          refine ⟨⟨uploadId, hsame.trans hws⟩, hreceived.trans ?_⟩
          simp only [received, List.length_append]
          omega
      have hflat : (reads [.read c]).flatten = c := by simp [reads]
      rw [hflat]
      unfold turn onRead
      dsimp only
      split
      · exact ⟨⟨uploadId, hws⟩, Nat.le_add_right _ _⟩
      · split
        · exact hread
        · rename_i reqs e _
          obtain ⟨hreceived, hkept⟩ := finishFeed_frame S kernel e reqs (s.handleRead kernel c)
          exact ⟨hkept hread.1, hreceived ▸ hread.2⟩
  | writable =>
      unfold turn
      dsimp only
      split
      · exact ⟨hcontext, Nat.le_add_right _ _⟩
      · obtain ⟨_, _, _, _, _, hwrite⟩ := handleWrite_frame kernel s
        rw [hwrite]
        exact ⟨hcontext, Nat.le_add_right _ _⟩

theorem run_frame (S : Site σ) (kernel : Kernel) (turns : List Turn) : ∀ s : Session σ,
    (∃ uploadId, s.context = .ws uploadId) →
    (run S kernel s turns).received ≤ s.received + (reads turns).flatten.length := by
  induction turns with
  | nil => exact fun s _ => Nat.le_add_right _ _
  | cons t turns ih =>
      intro s hcontext
      obtain ⟨hws, hreceived⟩ := turn_frame S kernel t s hcontext
      have hrest := ih (turn S kernel s t) hws
      have hsplit : (reads (t :: turns)).flatten.length =
          (reads [t]).flatten.length + (reads turns).flatten.length := by
        rw [← List.length_append, ← List.flatten_append, reads, reads, reads,
          ← List.filterMap_append]
        rfl
      rw [hsplit]
      exact hrest.trans (by omega)

theorem sum_frameSize (fs : List ClientFrame) :
    ((fs.map ClientFrame.frame).map frameSize).sum = (wires fs).length := by
  induction fs with
  | nil => rfl
  | cons f fs ih =>
      rw [wires_cons, List.length_append, List.map_cons, List.map_cons, List.sum_cons, ih,
        f.frameSize_frame]

/-- Bytes behind the upgrade in its read are lost to the frames. -/
theorem not_understood_behind (hkernel : Unfailing kernel) {world : σ} (st : UpgradeStream S world)
    (hkept : S.Kept st.requests (0, world)) (turns after : List Turn) {c extra : Bytes}
    (hfront : (reads turns).flatten ++ c = st.front)
    (hback : extra ++ (reads after).flatten = wires st.frames) (hextra : extra ≠ []) :
    ¬ st.Understood
      (run S kernel { world := world } (turns ++ .read (c ++ st.last :: extra) :: after)) := by
  obtain ⟨s', hrun, -, hcontext, hbuffer, hframes, -⟩ :=
    run_upgrade hkernel st hkept hfront extra
  rw [← List.singleton_append, ← List.append_assoc, run_append, hrun]
  obtain ⟨hreceived, hws⟩ := finishFeed_frame S kernel (HttpParser.fresh.deliveries extra).2
    (HttpParser.fresh.deliveries extra).1 s'
  have hnone : s'.received = 0 := by
    rw [received, hbuffer, hframes]
    rfl
  rw [hnone] at hreceived
  have hmost := run_frame S kernel after _ (hws hcontext)
  rintro ⟨-, hall, -⟩
  have hsizes := sum_frameSize st.frames
  rw [← hall, ← hback, List.length_append] at hsizes
  have hpos := List.length_pos_iff.mpr hextra
  rw [hreceived, received, hsizes] at hmost
  omega

end Upgrades

/-! ## Requests that end the connection -/

section Closings

variable {S kernel} {s s' : Session σ}

theorem Prompt.unfailing (h : Prompt kernel) : Unfailing kernel := by
  intro n asked
  rw [h]
  nofun

/-- With a prompt kernel the response is written and the connection closed. -/
theorem sendResponse_closing (hprompt : Prompt kernel) (resp : HttpResponse) (h : Live s)
    (hdrained : s.conn.outputBuffer.data = []) :
    (s.sendResponse S kernel resp false).conn.state = .disconnected ∧
    (s.sendResponse S kernel resp false).conn.stream =
      s.conn.stream ++ S.responseText resp false ∧
    (s.sendResponse S kernel resp false).crashed = false := by
  have hsent := send_prompt (s := s.answering false) hprompt (S.responseText resp false) h.opened
    h.flowing hdrained
  let written : Session σ := { s.answering false with
    conn := { s.conn with sent := s.conn.sent ++ S.responseText resp false }
    writes := s.writes + 1 }
  have hforce : written.runWriteComplete = written.handleClose :=
    runWriteComplete_of_force rfl h.opened
  have hclose := handleClose_of_connected (s := written) h.opened
  unfold sendResponse
  rw [hsent.trans (hforce.trans hclose)]
  refine ⟨rfl, ?_, h.running⟩
  change s.conn.sent ++ S.responseText resp false ++ s.conn.outputBuffer.data =
    s.conn.sent ++ s.conn.outputBuffer.data ++ S.responseText resp false
  rw [hdrained, List.append_nil, List.append_nil]

theorem Live.onRequest_closing (hprompt : Prompt kernel) {req : HttpRequest} (h : Live s)
    (hdrained : s.conn.outputBuffer.data = [])
    (hanswered : S.Answered [req] (s.requestCount, s.world))
    (hends : ¬ S.Kept [req] (s.requestCount, s.world)) :
    (s.onRequest S kernel req).conn.state = .disconnected ∧
    (s.onRequest S kernel req).conn.stream =
      s.conn.stream ++ S.answers [req] (s.requestCount, s.world) ∧
    (s.onRequest S kernel req).crashed = false := by
  obtain ⟨⟨resp, keepAlive, hresp⟩, -⟩ := hanswered
  obtain ⟨count, world, hreply⟩ : ∃ count world,
      S.reply req s.requestCount s.world = (.response resp keepAlive, count, world) :=
    ⟨_, _, Prod.ext hresp rfl⟩
  have hlast : keepAlive = false := by
    by_contra hkeep
    refine hends ⟨?_, trivial⟩
    unfold Site.closes
    rw [hreply]
    simpa using hkeep
  subst hlast
  have hanswer : S.answers [req] (s.requestCount, s.world) = S.responseText resp false := by
    simp [Site.answers, hresp]
  unfold Session.onRequest
  dsimp only
  rw [hreply, hanswer]
  exact sendResponse_closing hprompt resp (s := { s with
    requestCount := count
    world := world
    handled := s.handled ++ [req]
    late := if s.closing then s.late ++ [req] else s.late })
    ⟨h.opened, h.flowing, h.staying, h.running⟩ hdrained

theorem send_closed (text : Bytes) (h : s.conn.state = .disconnected) :
    (s.send kernel text).conn = s.conn := by
  rw [send_of_disconnected h]

theorem upgrade_closed (key : Bytes) (session : Option Bytes) (h : s.conn.state = .disconnected) :
    (s.upgrade S kernel key session).conn = s.conn := by
  unfold Session.upgrade
  rw [send_of_disconnected h]
  cases session with
  | none => exact send_closed (s := { s with metrics := s.metrics + 1, context := .ws [] }) _ h
  | some uploadId => rfl

/-- On a connection that has closed, nothing is sent any more. -/
theorem onRequest_closed (req : HttpRequest) (h : s.conn.state = .disconnected) :
    (s.onRequest S kernel req).conn = s.conn := by
  unfold Session.onRequest
  dsimp only
  split
  · rename_i key session count world _
    exact upgrade_closed key session (s := { s with
      requestCount := count
      world := world
      handled := s.handled ++ [req]
      late := if s.closing then s.late ++ [req] else s.late }) h
  · rename_i resp keepAlive count world _
    exact send_closed (s := answering keepAlive { s with
      requestCount := count
      world := world
      handled := s.handled ++ [req]
      late := if s.closing then s.late ++ [req] else s.late }) (S.responseText resp keepAlive) h
  · rfl

theorem finishFeed_closed {e : Option StoError} (reqs : List HttpRequest) : ∀ {s : Session σ},
    s.conn.state = .disconnected → (s.finishFeed S kernel e reqs).conn = s.conn := by
  induction reqs with
  | nil => exact fun _ => rfl
  | cons req reqs ih =>
      intro s h
      have hfirst : ({ s with pending := some (reqs, e) }.onRequest S kernel req).conn = s.conn :=
        onRequest_closed (s := { s with pending := some (reqs, e) }) req h
      rw [finishFeed]
      split
      · exact hfirst
      · rw [ih (by rw [hfirst]; exact h), hfirst]

theorem onRead_closed (c : Bytes) (h : s.conn.state = .disconnected) :
    (s.onRead S kernel c).conn = s.conn := by
  have hread : s.handleRead kernel c = s := by
    unfold handleRead
    rw [if_pos (by simp [TcpConnection.isConnected, h])]
  unfold Session.onRead
  rw [hread]
  dsimp only
  split
  · rfl
  · split
    · rfl
    · exact finishFeed_closed _ h

theorem run_closed (cuts : List Bytes) : ∀ {s : Session σ}, s.conn.state = .disconnected →
    (run S kernel s (cuts.map .read)).conn = s.conn := by
  induction cuts with
  | nil => exact fun _ => rfl
  | cons c cuts ih =>
      intro s h
      have hfirst : (s.onRead S kernel c).conn = s.conn := onRead_closed c h
      rw [List.map_cons, run, List.foldl_cons]
      exact (ih (s := s.onRead S kernel c) (by rw [hfirst]; exact h)).trans hfirst

/-- A connection that has closed after no more than these bytes. -/
def ClosedWithin (s : Session σ) (n : Nat) : Prop :=
  s.conn.state = .disconnected ∧ s.conn.stream.length ≤ n

/-- Among the requests one ends the connection: the read closes it there. -/
theorem finishFeed_closing (hprompt : Prompt kernel) {e : Option StoError}
    (more : List HttpRequest) {reqs : List HttpRequest} : ∀ {s : Session σ}, Live s →
    s.conn.outputBuffer.data = [] → S.Answered reqs (s.requestCount, s.world) →
    ¬ S.Kept reqs (s.requestCount, s.world) →
    ClosedWithin (s.finishFeed S kernel e (reqs ++ more))
      (s.conn.stream.length + (S.answers reqs (s.requestCount, s.world)).length) := by
  induction reqs with
  | nil => exact fun _ _ _ hnot => absurd trivial hnot
  | cons req reqs ih =>
      intro s h hdrained hanswered hnot
      rw [← List.singleton_append, Site.answered_append] at hanswered
      rw [← List.singleton_append, Site.kept_append] at hnot
      rw [← List.singleton_append, Site.answers_append, List.length_append, List.append_assoc,
        List.singleton_append, Session.finishFeed]
      have hlive : Live { s with pending := some (reqs ++ more, e) } :=
        ⟨h.opened, h.flowing, h.staying, h.running⟩
      by_cases hkept : S.Kept [req] (s.requestCount, s.world)
      · have hone := hlive.onRequest hprompt.unfailing hanswered.1 hkept
        have hrest := ih hone.live (hone.drained hprompt hdrained) (hone.tally ▸ hanswered.2)
          (fun hrest => hnot ⟨hkept, hone.tally ▸ hrest⟩)
        rw [if_neg (by rw [hone.live.running]; exact Bool.false_ne_true)]
        refine ⟨hrest.1, hrest.2.trans ?_⟩
        rw [hone.tally, hone.stream, List.length_append]
        dsimp only
        omega
      -- the connection is closed behind this response, and nothing follows
      · obtain ⟨hclosed, hstream, hrunning⟩ :=
          hlive.onRequest_closing hprompt hdrained hanswered.1 hkept
        rw [if_neg (by rw [hrunning]; exact Bool.false_ne_true)]
        unfold ClosedWithin
        rw [finishFeed_closed _ hclosed, hstream, List.length_append]
        exact ⟨hclosed, by dsimp only; omega⟩

/-- Among the requests of a read one ends the connection. -/
theorem onRead_closing (hprompt : Prompt kernel) {p : HttpParser} (h : Speaking s p)
    (hdrained : s.conn.outputBuffer.data = []) {c : Bytes} {reqs more : List HttpRequest}
    {e : Option StoError} (hdeliveries : p.deliveries c = (reqs ++ more, e))
    (hanswered : S.Answered reqs (s.requestCount, s.world))
    (hnot : ¬ S.Kept reqs (s.requestCount, s.world)) :
    ClosedWithin (s.onRead S kernel c)
      (s.conn.stream.length + (S.answers reqs (s.requestCount, s.world)).length) := by
  rw [onRead_http h hdeliveries]
  exact finishFeed_closing hprompt more
    (s := { s with pending := some (reqs ++ more, e), parser := _ })
    ⟨h.live.opened, h.live.flowing, h.live.staying, h.live.running⟩ hdrained hanswered hnot

theorem ClosedWithin.run {n : Nat} (S : Site σ) (kernel : Kernel) (h : ClosedWithin s n) (cuts : List Bytes) :
    ClosedWithin (run S kernel s (cuts.map .read)) n := by
  unfold ClosedWithin
  rw [run_closed cuts h.1]
  exact h

theorem run_closing (hprompt : Prompt kernel) {q : HttpParser} (cuts : List Bytes) :
    ∀ {s : Session σ} {p : HttpParser} {reqs : List HttpRequest}, Speaking s p →
    s.conn.outputBuffer.data = [] → p.feed cuts.flatten = .ok (q, reqs) →
    S.Answered reqs (s.requestCount, s.world) → ¬ S.Kept reqs (s.requestCount, s.world) →
    ClosedWithin (run S kernel s (cuts.map .read))
      (s.conn.stream.length + (S.answers reqs (s.requestCount, s.world)).length) := by
  induction cuts with
  | nil =>
      intro s p reqs _ _ hfeed _ hnot
      cases hfeed
      exact absurd trivial hnot
  | cons c cuts ih =>
      intro s p reqs h hdrained hfeed hanswered hnot
      obtain ⟨p', xs, ys, hfirst, hrest, rfl⟩ := feed_append hfeed
      rw [Site.answered_append] at hanswered
      rw [Site.kept_append] at hnot
      rw [Site.answers_append, List.length_append, List.map_cons]
      change ClosedWithin (run S kernel (s.onRead S kernel c) (cuts.map .read)) _
      by_cases hkept : S.Kept xs (s.requestCount, s.world)
      · have htalked := h.onRead hprompt.unfailing hfirst hanswered.1 hkept
        have hclosed := ih htalked.speaking (htalked.drained hprompt hdrained) hrest
          (htalked.tally ▸ hanswered.2) (fun hys => hnot ⟨hkept, htalked.tally ▸ hys⟩)
        refine ⟨hclosed.1, hclosed.2.trans ?_⟩
        rw [htalked.tally, htalked.stream, List.length_append]
        omega
      · have hdeliveries : p.deliveries c = (xs ++ [], none) := by
          rw [List.append_nil]
          exact (HttpParser.feed_eq_deliveries p c).1 p' xs hfirst
        have hclosed := (onRead_closing hprompt h hdrained hdeliveries hanswered.1 hkept).run
          S kernel cuts
        exact ⟨hclosed.1, hclosed.2.trans (by omega)⟩

/-- The read that has a byte of the stream. -/
theorem cut_at {pre rest : Bytes} {b : UInt8} : ∀ {cuts : List Bytes},
    cuts.flatten = pre ++ b :: rest → ∃ before c extra after,
      cuts = before ++ (c ++ b :: extra) :: after ∧ before.flatten ++ c = pre ∧
        extra ++ after.flatten = rest := by
  intro cuts
  induction cuts generalizing pre with
  | nil =>
      intro h
      cases pre <;> cases h
  | cons c cuts ih =>
      intro h
      rw [List.flatten_cons] at h
      rcases List.append_eq_append_iff.mp h with ⟨mid, rfl, hrest⟩ | ⟨mid, rfl, hrest⟩
      · obtain ⟨before, d, extra, after, rfl, rfl, hafter⟩ := ih hrest
        exact ⟨c :: before, d, extra, after, rfl, by simp, hafter⟩
      · cases mid with
        | nil =>
            obtain ⟨before, d, extra, after, rfl, hbefore, hafter⟩ := @ih [] hrest.symm
            refine ⟨pre :: before, d, extra, after, by simp, ?_, hafter⟩
            rw [List.flatten_cons, List.append_assoc, hbefore, List.append_nil]
        | cons b' extra =>
            rw [List.cons_append, List.cons.injEq] at hrest
            obtain ⟨rfl, hrest⟩ := hrest
            exact ⟨[], pre, extra, cuts, rfl, rfl, hrest.symm⟩

theorem reads_map_read (cuts : List Bytes) : reads (cuts.map .read) = cuts := by
  induction cuts with
  | nil => rfl
  | cons c cuts ih => exact congrArg (c :: ·) ih

/-- A request before the upgrade that ends the connection: with a prompt kernel the
upgrade is never answered. -/
theorem not_understood_closing (hprompt : Prompt kernel) {world : σ} (st : UpgradeStream S world)
    (hnot : ¬ S.Kept st.requests (0, world)) {cuts : List Bytes} (hcuts : cuts.flatten = st.text) :
    ¬ st.Understood (run S kernel { world := world } (cuts.map .read)) := by
  obtain ⟨before, c, extra, after, rfl, hfront, -⟩ := cut_at hcuts
  have hfeed := st.feed_front
  rw [← hfront] at hfeed
  obtain ⟨p, xs, ys, hbefore, hlast, hreqs⟩ := feed_append hfeed
  have hanswered := st.answered
  rw [hreqs, Site.answered_append] at hanswered
  rw [hreqs, Site.kept_append] at hnot
  have hstart := speaking_established world
  have hempty : TcpConnection.established.outputBuffer.data = [] := by
    simp [TcpConnection.established]
  have hclosed : ClosedWithin
      (run S kernel { world := world } ((before ++ (c ++ st.last :: extra) :: after).map .read))
      (S.answers st.requests (0, world)).length := by
    rw [List.map_append, List.map_cons, ← List.singleton_append, ← List.append_assoc, run_append]
    refine ClosedWithin.run S kernel ?_ after
    have hlength : (S.answers st.requests (0, world)).length =
        (S.answers xs (0, world)).length + (S.answers ys (xs.foldl S.tally (0, world))).length := by
      rw [hreqs, Site.answers_append, List.length_append]
    rw [run_append, hlength]
    -- the request that ends the connection came with the upgrade, or before
    by_cases hkept : S.Kept xs (0, world)
    · have htalked := hstart.run (S := S) hprompt.unfailing (before.map .read)
        (by rw [reads_map_read]; exact hbefore) hanswered.1 hkept
      generalize run S kernel { world := world } (before.map .read) = s₁ at htalked
      have hdeliveries : p.deliveries (c ++ st.last :: extra) =
          (ys ++ st.upgrade :: (HttpParser.fresh.deliveries extra).1,
            (HttpParser.fresh.deliveries extra).2) := by
        rw [deliveries_append _ hlast, HttpParser.deliveries, st.feed_last]
        rfl
      have hclosed := onRead_closing hprompt htalked.speaking (htalked.drained hprompt hempty)
        hdeliveries (htalked.tally ▸ hanswered.2) (fun hys => hnot ⟨hkept, htalked.tally ▸ hys⟩)
      refine ⟨hclosed.1, hclosed.2.trans ?_⟩
      rw [htalked.tally, htalked.stream, List.length_append]
      change (TcpConnection.established.stream).length + _ + _ ≤ _
      rw [stream_established, List.length_nil, Nat.zero_add]
    · have hclosed := (run_closing hprompt before hstart hempty hbefore hanswered.1 hkept).run
        S kernel [c ++ st.last :: extra]
      refine ⟨hclosed.1, hclosed.2.trans ?_⟩
      change (TcpConnection.established.stream).length + _ ≤ _
      rw [stream_established, List.length_nil, Nat.zero_add]
      exact Nat.le_add_right _ _
  rintro ⟨-, -, hstream⟩
  have hlen := hclosed.2
  unfold Site.greeting at hstream
  rw [hstream, List.length_append, List.length_append, List.length_append] at hlen
  have hpos := List.length_pos_iff.mpr (S.buildUpgradeResponse_ne st.key)
  omega

end Closings

/-! ## Where the stream may be cut -/

/-- Turns that bring some reads and then another. -/
theorem reads_split {turns : List Turn} {before after : List Bytes} {c : Bytes}
    (h : reads turns = before ++ c :: after) : ∃ front back,
      turns = front ++ .read c :: back ∧ reads front = before ∧ reads back = after := by
  obtain ⟨front, rest, rfl, hfront, hrest⟩ := List.filterMap_eq_append_iff.mp h
  obtain ⟨idle, t, back, rfl, hidle, hread, hback⟩ := List.filterMap_eq_cons_iff.mp hrest
  cases t with
  | writable => cases hread
  | read c' =>
      cases hread
      refine ⟨front ++ idle, back, by rw [List.append_assoc], ?_, hback⟩
      have hnone : reads idle = [] := List.filterMap_eq_nil_iff.mpr hidle
      unfold reads at hnone ⊢
      rw [List.filterMap_append, hfront, hnone, List.append_nil]

theorem aligned_split {S : Site σ} {world : σ} {st : UpgradeStream S world} {cuts : List Bytes}
    (hcuts : cuts.flatten = st.text) (hread : [] ∉ cuts) (h : st.Aligned cuts) :
    ∃ before c after, cuts = before ++ (c ++ [st.last]) :: after ∧
      before.flatten ++ c = st.front ∧ after.flatten = wires st.frames ∧
      Paced 0 st.frames after := by
  obtain ⟨k, hk, hlen, hpaced⟩ := h
  have hwhole : (cuts.take k).flatten ++ (cuts.drop k).flatten =
      (st.front ++ [st.last]) ++ wires st.frames := by
    rw [← List.flatten_append, List.take_append_drop, hcuts, UpgradeStream.text,
      List.append_assoc]
    rfl
  obtain ⟨hfront, hback⟩ := List.append_inj hwhole (by simp [hlen])
  rcases List.eq_nil_or_concat (cuts.take k) with hnil | ⟨before, d, hlast⟩
  · rw [hnil] at hfront
    simp at hfront
  · rw [List.concat_eq_append] at hlast
    have hd : d ≠ [] := by
      rintro rfl
      exact hread (List.mem_of_mem_take (i := k) (by rw [hlast]; simp))
    obtain ⟨c, b, rfl⟩ : ∃ c b, d = c ++ [b] := by
      rcases List.eq_nil_or_concat d with hnil | ⟨c, b, hconcat⟩
      · exact absurd hnil hd
      · exact ⟨c, b, by rw [hconcat, List.concat_eq_append]⟩
    rw [hlast, List.flatten_append, List.flatten_singleton, ← List.append_assoc] at hfront
    obtain ⟨hsame, hb⟩ := List.append_inj' hfront rfl
    cases hb
    refine ⟨before, c, cuts.drop k, ?_, hsame, hback, hpaced⟩
    have hsplit := List.take_append_drop k cuts
    rw [hlast, List.append_assoc] at hsplit
    exact hsplit.symm

/-- However the socket takes what is sent, a stream is understood exactly when no request
ends the connection before the upgrade, a read ends with the upgrade, and the reads
after it leave one for every frame. -/
theorem understood_iff {S : Site σ} {world : σ} (st : UpgradeStream S world) {cuts : List Bytes}
    (hcuts : cuts.flatten = st.text) (hread : [] ∉ cuts) :
    (∀ kernel, Unfailing kernel → ∀ turns, reads turns = cuts →
      st.Understood (run S kernel { world := world } turns)) ↔
    S.Kept st.requests (0, world) ∧ st.Aligned cuts := by
  constructor
  · intro h
    have hprompt : Prompt takesAll := fun _ _ => rfl
    have hunderstood := h takesAll hprompt.unfailing (cuts.map .read) (reads_map_read cuts)
    have hkept : S.Kept st.requests (0, world) := by
      by_contra hnot
      exact not_understood_closing hprompt st hnot hcuts hunderstood
    obtain ⟨before, c, extra, after, rfl, hfront, hback⟩ := cut_at hcuts
    rw [List.map_append, List.map_cons] at hunderstood
    have hextra : extra = [] := by
      by_contra hne
      exact not_understood_behind hprompt.unfailing st hkept _ _ (by rw [reads_map_read]; exact hfront)
        (by rw [reads_map_read]; exact hback) hne hunderstood
    subst hextra
    rw [understood_aligned hprompt.unfailing st hkept _ _ (by rw [reads_map_read]; exact hfront)
      (by rw [reads_map_read]; exact hback), reads_map_read] at hunderstood
    refine ⟨hkept, before.length + 1, by simp, ?_, ?_⟩
    · rw [List.take_length_add_append, ← hfront]
      simp [Nat.add_assoc]
    · rw [List.drop_length_add_append]
      exact hunderstood
  · rintro ⟨hkept, haligned⟩ kernel hkernel turns hturns
    obtain ⟨before, c, after, rfl, hfront, hback, hpaced⟩ := aligned_split hcuts hread haligned
    obtain ⟨front, back, rfl, rfl, rfl⟩ := reads_split hturns
    exact (understood_aligned hkernel st hkept _ _ hfront hback).mpr hpaced

/-- A check of the server's health, a subscription, and two pings. -/
def sampleStream : UpgradeStream sampleSite () where
  requests := [{
    method := .GET
    path := ascii "/api/v1/health"
    version := ascii "HTTP/1.1"
    headers := [(ascii "Connection", ascii "keep-alive")] }]
  upgrade := {
    method := .GET
    path := ascii "/ws/metrics"
    version := ascii "HTTP/1.1"
    headers := [(ascii "Upgrade", ascii "websocket"), (ascii "Connection", ascii "Upgrade"),
      (ascii "Sec-WebSocket-Key", ascii "dGhlIHNhbXBsZSBub25jZQ==")] }
  front := healthRequest "keep-alive" ++ upgradeText.dropLast
  last := LF
  frames := WsConn.twoPings
  parser :=
    match HttpParser.fresh.feed (healthRequest "keep-alive" ++ upgradeText.dropLast) with
    | .ok (parser, _) => parser
    | .error _ => .fresh
  feed_front := by decide +kernel
  feed_last := by decide +kernel
  answered := ⟨⟨HttpResponse.setJson {} (ascii "\x7b\x7d"), true, by decide +kernel⟩, trivial⟩
  key := ascii "dGhlIHNhbXBsZSBub25jZQ=="
  session := none
  accepted := by decide +kernel

/-- The upgrade ends a read, and each ping has one of its own. -/
theorem sample_understood : sampleStream.Understood (run sampleSite takesAll { world := () }
    ([healthRequest "keep-alive" ++ upgradeText, (wires WsConn.twoPings).take 9,
      (wires WsConn.twoPings).drop 9].map .read)) :=
  (understood_iff sampleStream (by decide +kernel) (by decide +kernel)).mpr
    ⟨⟨by decide +kernel, trivial⟩, 1, by decide, by decide +kernel, by decide +kernel⟩
    takesAll (Prompt.unfailing fun _ _ => rfl) _ (reads_map_read _)

/-- The same bytes in one read: the frames are fed to the HTTP parser. -/
theorem cut_matters : ¬ ∀ (st : UpgradeStream sampleSite ()) (cuts cuts' : List Bytes),
    [] ∉ cuts → [] ∉ cuts' → cuts.flatten = st.text → cuts'.flatten = st.text →
    let s := run sampleSite takesAll { world := () } (cuts.map .read)
    let s' := run sampleSite takesAll { world := () } (cuts'.map .read)
    s.handled = s'.handled ∧ s.frames = s'.frames ∧ s.conn.stream = s'.conn.stream := by
  intro h
  have hunfailing : Unfailing takesAll := Prompt.unfailing fun _ _ => rfl
  have hkept : sampleSite.Kept sampleStream.requests (0, ()) := ⟨by decide +kernel, trivial⟩
  obtain ⟨hhandled, hframes, hstream⟩ := h sampleStream
    [sampleStream.front ++ [sampleStream.last], (wires WsConn.twoPings).take 9,
      (wires WsConn.twoPings).drop 9]
    [sampleStream.front ++ sampleStream.last :: wires WsConn.twoPings]
    (by decide +kernel) (by decide +kernel) (by decide +kernel) (by decide +kernel)
  have happart := (understood_aligned hunfailing sampleStream hkept []
    [.read ((wires WsConn.twoPings).take 9), .read ((wires WsConn.twoPings).drop 9)] rfl
    (by decide +kernel)).mpr (by decide +kernel)
  have hone := not_understood_behind hunfailing sampleStream hkept [] [] (c := sampleStream.front)
    rfl (List.append_nil (wires WsConn.twoPings)) (by decide +kernel)
  exact hone ⟨hhandled.symm.trans happart.handled, hframes.symm.trans happart.frames,
    hstream.symm.trans happart.stream⟩

end Session

end SolarDrive.Server
