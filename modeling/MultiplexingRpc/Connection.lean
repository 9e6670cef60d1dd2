import MultiplexingRpc.ClientStreamProcessor
import MultiplexingRpc.Ends
/-!
# Connection — a client and a server on one connection

The two stream processors with a reliable FIFO transport in each direction.  A step is a turn of a fiber on one of the
two sides; a reader takes packets from the head of its transport, a writer that has written a packet puts it at the end
of the other.  The run begins when both sides serve the connection, and ends with it.

The calls under a request id are numbered in the order in which their streams enter the slot of the client, the handlers
likewise on the server; what each of them did is kept in a log.
-/
namespace Mrpc

namespace StreamProcessor

/-- The slot of `r` is filled. -/
def enters (s s' : StreamProcessor) (r : RequestId) : Bool := (s.active r).isNone && (s'.active r).isSome

/-- What is noted of a turn under `r`. -/
def deedOn (s : StreamProcessor) (e : Event) (r : RequestId) : Deed :=
  match e.owner with
  | some o => if s.requestIds o = r then s.deed e else .nothing
  | none => .nothing

theorem deedOn_of_owner {s : StreamProcessor} {e : Event} {o : StreamNo} (h : e.owner = some o) :
    s.deedOn e (s.requestIds o) = s.deed e := by
  simp [deedOn, h]

theorem deedOn_of_ne {s : StreamProcessor} {e : Event} {o : StreamNo} {r : RequestId} (h : e.owner = some o)
    (hr : s.requestIds o ≠ r) : s.deedOn e r = .nothing := by
  simp [deedOn, h, hr]

theorem deedOn_of_none {s : StreamProcessor} {e : Event} (h : e.owner = none) (r : RequestId) :
    s.deedOn e r = .nothing := by
  simp [deedOn, h]

theorem deed_read (outcome : ReadOutcome) (bytes : List UInt8) :
    outcome.deed ≠ .wrote bytes ∧ outcome.deed ≠ .flushed := by
  cases outcome <;> exact ⟨nofun, nofun⟩

/-- **Writes and flushes alone are noted as such.** -/
theorem deedOn_cases {s : StreamProcessor} {e : Event} {r : RequestId} :
    (∀ bytes, s.deedOn e r = .wrote bytes → ∃ o, e = .write o bytes ∧ s.requestIds o = r) ∧
    (s.deedOn e r = .flushed → ∃ o, e = .flush o ∧ s.requestIds o = r) := by
  cases hown : e.owner with
  | none =>
    rw [deedOn_of_none hown]
    simp
  | some o =>
    by_cases hr : s.requestIds o = r
    · subst hr
      rw [deedOn_of_owner hown]
      cases e with
      | read o' len => exact ⟨fun bytes h => absurd h (deed_read _ bytes).1, fun h => absurd h (deed_read _ []).2⟩
      | get o' =>
        have hget : (∀ bytes, s.deed (.get o') ≠ .wrote bytes) ∧ s.deed (.get o') ≠ .flushed := by
          simp only [deed]
          split
          · rename_i len buf _
            cases (s.streams o').readNext len buf with
            | none => simp
            | some next => exact ⟨fun bytes => (deed_read _ bytes).1, (deed_read _ []).2⟩
          · simp
        exact ⟨fun bytes h => absurd h (hget.1 bytes), fun h => absurd h hget.2⟩
      | write o' buf =>
        cases hown
        constructor
        · intro bytes h
          cases h
          exact ⟨o, rfl, rfl⟩
        · intro h
          cases h
      | flush o' =>
        cases hown
        constructor
        · intro bytes h
          cases h
        · intro _
          exact ⟨o, rfl, rfl⟩
      | timeout | acquire => exact ⟨(fun _ h => by cases h), fun h => by cases h⟩
      | reader | readerFail | writer | writerResult => cases hown
    · rw [deedOn_of_ne hown hr]
      simp

theorem sends_of_owner {s : StreamProcessor} {e : Event} {o : StreamNo} (h : e.owner = some o) : s.sends e = none := by
  cases e <;> first | rfl | cases h

/-- **A turn does not take a processor back to work.** -/
theorem Turn.working {s s' : StreamProcessor} {e : Event} (hs : s.Sound) (ht : Turn s e s') (h : s'.state = .working) :
    s.state = .working := by
  have hstop : s.stopAsync.state = .working → s.state = .working := fun h => by
    unfold stopAsync at h
    dsimp only at h
    split at h
    · cases h
    · exact h
  cases hown : e.owner with
  | some o =>
    obtain ⟨-, ps, f, pool, queue, -, -, rfl⟩ := ht.ownerFrame hs.fiberOk hown
    exact h
  | none =>
    cases ht.system hown with
    | readerWriterStopped => cases h
    | readerFail | writeFail | flushFail => exact hstop h
    | _ => exact h

end StreamProcessor

namespace ClientStreamProcessor

variable {c c' : ClientStreamProcessor}

theorem length_le_of_receive {f : Frame} (h : c.step (.receive f) = some c') : f.body.length ≤ maxPacketSize := by
  simp only [step, receive] at h
  split at h
  · split at h
    · assumption
    · cases h
  · cases h

theorem neat_step {a : Action} (h : c.core.Neat) (hs : c.step a = some c') : c'.core.Neat := by
  cases outcome_of_step hs with
  | event ht => exact h.turn ht
  | processNothing hr hst => exact h.setState _
  | process hr hst => exact ⟨h.free, h.queued, nofun, nofun, h.streams, h.fibers⟩
  | refused hst => exact h
  | created hst ho => exact h.enter _ _
  | waits hst hall => exact h
  | woken hw ho => exact h.enter _ _
  | @delivered f p o hr hslot =>
    have hp : p.Blank := h.reader p (by rw [hr]; exact List.mem_singleton_self p)
    exact h.deliver (hp.ofFrame (length_le_of_receive hs))
  | unexpected hr hslot => exact h.turn (.readerFail hr)
  | deleted ho hf => exact h.releaseStream _
  | stopAsync => exact h.setState _

/-- **While the client works its reader listens.** -/
theorem Orderly.listens (h : c.Orderly) (hst : c.core.state = .working) : c.core.reader.listens = true := by
  rcases h.looping hst with hr | ⟨p, hr⟩ <;> rw [hr] <;> rfl

/-- **Streams stay in line** while the connection lasts. -/
theorem lined_step {a : Action} (h : c.Orderly) (hn : c.core.Neat) (hl : c.core.Lined) (ha : a ≠ .processStream)
    (hs : c.step a = some c') : c'.core.Lined := by
  have henter : ∀ {o}, c.core.state = .working → ¬ c.core.owned o → (c.enterStream o).Lined := fun {o} hst ho => by
    refine hl.enter ?_ ho ?_
    · rw [h.sound.requestIds]
      exact h.sound.slot_of_not_owned ho
    · exact h.listens hst
  cases outcome_of_step hs with
  | event ht => exact hl.turn h.sound.core hn ht
  | processNothing | process => exact absurd rfl ha
  | refused hst => exact hl
  | created hst ho => exact henter hst ho
  | waits hst hall => exact hl
  | woken hw ho => exact henter (h.waiters hw) ho
  | delivered hr hslot => exact hl.deliver (by rw [hr]; rfl) (h.sound.core.owned_of_active hslot) _
  | unexpected hr hslot => exact hl.turn h.sound.core hn (.readerFail hr)
  | deleted ho hf => exact hl.releaseStream ho
  | stopAsync => exact hl.of_eq rfl rfl rfl rfl id

end ClientStreamProcessor

namespace ServerStreamProcessor

variable {s s' : StreamProcessor}

theorem lined_step {a : Action} (h : Sound s) (hn : s.Neat) (hl : s.Lined) (ha : a ≠ .readerStart)
    (hs : step s a = some s') : s'.Lined := by
  cases outcome_of_step hs with
  | event ht => exact hl.turn h.core hn ht
  | start hr hst => exact hl.of_eq rfl rfl rfl rfl nofun
  | readerStart => exact absurd rfl ha
  | @begun f p o hr hf hslot ho =>
    have hlisten : s.reader.listens = true := by rw [hr]; rfl
    exact (hl.enter hslot ho hlisten).deliver hlisten (StreamProcessor.owned_enter_self s f.requestId o) _
  | continued hr hf hslot => exact hl.deliver (by rw [hr]; rfl) (h.core.owned_of_active hslot) _
  | unexpected hr hf => exact hl.turn h.core hn (.readerFail hr)
  | returned ho hf => exact hl.releaseStream ho
  | @failed o ho hf =>
    have hstop : s.stopAsync.Lined := hl.of_eq rfl rfl rfl rfl id
    exact hstop.releaseStream ho
  | stopAsync hst => exact hl.of_eq rfl rfl rfl rfl id

end ServerStreamProcessor

structure Connection where
  client : ClientStreamProcessor
  server : StreamProcessor
  toServer : List Frame
  toClient : List Frame
  calls : RequestId → Nat → Log
  callCnt : RequestId → Nat
  handlers : RequestId → Nat → Log
  handlerCnt : RequestId → Nat

namespace ClientStreamProcessor

/-- What a step takes from the transport leaves; the next connection is no part of this one. -/
def remains : Action → List Frame → Option (List Frame)
  | .receive f, g :: rest => if f = g then some rest else none
  | .receive _, [] => none
  | .processStream, _ => none
  | _, fs => some fs

def sent (c : ClientStreamProcessor) : Action → List Frame
  | .event e => (c.core.sends e).toList
  | _ => []

def deedOn (c : ClientStreamProcessor) : Action → RequestId → Deed
  | .event e, r => c.core.deedOn e r
  | .receive f, r => if f.requestId = r ∧ (c.core.active r).isSome then .arrived f.body else .nothing
  | _, _ => .nothing

variable {a : Action} {f : Frame} {fs rest : List Frame}

theorem remains_receive (h : remains (.receive f) fs = some rest) : fs = f :: rest := by
  cases fs with
  | nil => cases h
  | cons g fs =>
    obtain ⟨rfl, hrest⟩ := Option.ite_none_right_eq_some.1 h
    rw [Option.some.inj hrest]

theorem remains_of_ne (h : remains a fs = some rest) (ha : ∀ f, a ≠ .receive f) : fs = rest := by
  cases a with
  | receive f => exact absurd rfl (ha f)
  | processStream => cases h
  | _ => exact Option.some.inj h

theorem ne_processStream_of_remains (h : remains a fs = some rest) : a ≠ .processStream := by
  rintro rfl
  cases h

end ClientStreamProcessor

namespace ServerStreamProcessor

def remains : Action → List Frame → Option (List Frame)
  | .receive f _, g :: rest => if f = g then some rest else none
  | .receive _ _, [] => none
  | .start, _ => none
  | .readerStart, _ => none
  | _, fs => some fs

def sent (s : StreamProcessor) : Action → List Frame
  | .event e => (s.sends e).toList
  | _ => []

def deedOn (s : StreamProcessor) : Action → RequestId → Deed
  | .event e, r => s.deedOn e r
  | .receive f _, r => if f.requestId = r ∧ f.type.isFirst ≠ (s.active r).isSome then .arrived f.body else .nothing
  | _, _ => .nothing

variable {a : Action} {f : Frame} {o : StreamNo} {fs rest : List Frame}

theorem remains_receive (h : remains (.receive f o) fs = some rest) : fs = f :: rest := by
  cases fs with
  | nil => cases h
  | cons g fs =>
    obtain ⟨rfl, hrest⟩ := Option.ite_none_right_eq_some.1 h
    rw [Option.some.inj hrest]

theorem remains_of_ne (h : remains a fs = some rest) (ha : ∀ f o, a ≠ .receive f o) : fs = rest := by
  cases a with
  | receive f o => exact absurd rfl (ha f o)
  | start | readerStart => cases h
  | _ => exact Option.some.inj h

theorem ne_readerStart_of_remains (h : remains a fs = some rest) : a ≠ .readerStart := by
  rintro rfl
  cases h

end ServerStreamProcessor

namespace Connection

inductive Action where
  | client (a : ClientStreamProcessor.Action)
  | server (a : ServerStreamProcessor.Action)
  deriving DecidableEq, Repr

/-- Both sides serve the connection, and nothing has happened yet. -/
def established : Connection where
  client := { ClientStreamProcessor.create with core := { StreamProcessor.create with
    state := .working, writer := .getting, streamsStopEvent := true, reader := .acquiring } }
  server := { ServerStreamProcessor.create with
    state := .working, writer := .getting, streamsStopEvent := true, reader := .acquiring }
  toServer := []
  toClient := []
  calls := fun _ _ => Log.empty
  callCnt := fun _ => 0
  handlers := fun _ _ => Log.empty
  handlerCnt := fun _ => 0

def count (cnt : RequestId → Nat) (s s' : StreamProcessor) (r : RequestId) : Nat :=
  cnt r + if s.enters s' r then 1 else 0

def noteAll (logs : RequestId → Nat → Log) (cnt : RequestId → Nat) (deeds : RequestId → Deed) (r : RequestId) :
    Nat → Log := note (logs r) (cnt r - 1) (deeds r)

def clientStep (x : Connection) (a : ClientStreamProcessor.Action) : Option Connection :=
  (ClientStreamProcessor.remains a x.toClient).bind fun toClient => (x.client.step a).map fun c =>
    { x with
      client := c
      toServer := x.toServer ++ x.client.sent a
      toClient := toClient
      calls := noteAll x.calls (count x.callCnt x.client.core c.core) (x.client.deedOn a)
      callCnt := count x.callCnt x.client.core c.core }

def serverStep (x : Connection) (a : ServerStreamProcessor.Action) : Option Connection :=
  (ServerStreamProcessor.remains a x.toServer).bind fun toServer => (ServerStreamProcessor.step x.server a).map fun s =>
    { x with
      server := s
      toServer := toServer
      toClient := x.toClient ++ ServerStreamProcessor.sent x.server a
      handlers := noteAll x.handlers (count x.handlerCnt x.server s) (ServerStreamProcessor.deedOn x.server a)
      handlerCnt := count x.handlerCnt x.server s }

def step (x : Connection) : Action → Option Connection
  | .client a => x.clientStep a
  | .server a => x.serverStep a

/-- **Both sides got there** by `mrpc_client_stream_processor_process_stream` and `mrpc_server_stream_processor_start`. -/
theorem established_eq : (ClientStreamProcessor.create.step .processStream = some established.client) ∧
    Run.exec ServerStreamProcessor.step ServerStreamProcessor.create [.start, .readerStart] = some established.server :=
  ⟨rfl, rfl⟩

/-! ## One request id of a connection -/

def lane (x : Connection) (r : RequestId) : Lane where
  client := x.client.core.endOf r
  server := x.server.endOf r
  toServer := x.toServer.filter fun f => f.requestId = r
  toClient := x.toClient.filter fun f => f.requestId = r
  calls := x.calls r
  callCnt := x.callCnt r
  handlers := x.handlers r
  handlerCnt := x.handlerCnt r
  working := x.client.core.state = .working

variable {x x' : Connection} {r : RequestId}

theorem count_of_active {cnt : RequestId → Nat} {s s' : StreamProcessor} (h : s'.active r = s.active r) :
    count cnt s s' r = cnt r := by
  unfold count StreamProcessor.enters
  rw [h]
  cases s.active r <;> rfl

theorem count_of_enter {cnt : RequestId → Nat} {s s' : StreamProcessor} (h : s.active r = none)
    (h' : (s'.active r).isSome = true) : count cnt s s' r = cnt r + 1 := by
  simp [count, StreamProcessor.enters, h, h']

theorem count_of_leave {cnt : RequestId → Nat} {s s' : StreamProcessor} (h' : s'.active r = none) :
    count cnt s s' r = cnt r := by
  simp [count, StreamProcessor.enters, h']

theorem clientStep_cases {a : ClientStreamProcessor.Action} (h : x.step (.client a) = some x') :
    ∃ toClient c, ClientStreamProcessor.remains a x.toClient = some toClient ∧ x.client.step a = some c ∧
      x' = { x with
        client := c
        toServer := x.toServer ++ x.client.sent a
        toClient := toClient
        calls := noteAll x.calls (count x.callCnt x.client.core c.core) (x.client.deedOn a)
        callCnt := count x.callCnt x.client.core c.core } := by
  obtain ⟨toClient, hremains, h⟩ := Option.bind_eq_some_iff.1 h
  obtain ⟨c, hc, rfl⟩ := Option.map_eq_some_iff.1 h
  exact ⟨toClient, c, hremains, hc, rfl⟩

theorem serverStep_cases {a : ServerStreamProcessor.Action} (h : x.step (.server a) = some x') :
    ∃ toServer s, ServerStreamProcessor.remains a x.toServer = some toServer ∧ ServerStreamProcessor.step x.server a = some s ∧
      x' = { x with
        server := s
        toServer := toServer
        toClient := x.toClient ++ ServerStreamProcessor.sent x.server a
        handlers := noteAll x.handlers (count x.handlerCnt x.server s) (ServerStreamProcessor.deedOn x.server a)
        handlerCnt := count x.handlerCnt x.server s } := by
  obtain ⟨toServer, hremains, h⟩ := Option.bind_eq_some_iff.1 h
  obtain ⟨s, hs, rfl⟩ := Option.map_eq_some_iff.1 h
  exact ⟨toServer, s, hremains, hs, rfl⟩

/-- What holds of both sides, and of every request id. -/
structure Sound (x : Connection) : Prop where
  client : x.client.Orderly
  clientNeat : x.client.core.Neat
  clientLined : x.client.core.Lined
  server : ServerStreamProcessor.Sound x.server
  serverNeat : x.server.Neat
  serverLined : x.server.Lined
  lanes : ∀ r, (x.lane r).Inv

/-- The client does not count on callers that wait when it is told to stop, and ends a call that was answered, or when
the connection is given up; a handler writes when it has read the whole request, and flushes a response that is not
empty. -/
def Permitted (x : Connection) : Action → Prop
  | .client a => ClientStreamProcessor.Unwaited x.client a ∧ ∀ o, a = .deleteRequestStream o →
      x.client.core.state ≠ .working ∨ (x.lane (x.client.core.requestIds o)).Answered
  | .server (.event (.write o _)) => (x.lane (x.server.requestIds o)).Asked
  | .server (.event (.flush o)) =>
    (x.handlers (x.server.requestIds o) (x.handlerCnt (x.server.requestIds o) - 1)).wrote ≠ []
  | .server _ => True

/-! ## The client -/

section Client

variable {c : ClientStreamProcessor} {sent toClient : List Frame} {deeds : RequestId → Deed} {f : Frame}

/-- The connection after a step of the client. -/
def clientNext (x : Connection) (c : ClientStreamProcessor) (sent toClient : List Frame) (deeds : RequestId → Deed) :
    Connection :=
  { x with
    client := c
    toServer := x.toServer ++ sent
    toClient := toClient
    calls := noteAll x.calls (count x.callCnt x.client.core c.core) deeds
    callCnt := count x.callCnt x.client.core c.core }

theorem lane_clientNext (hactive : count x.callCnt x.client.core c.core r = x.callCnt r) :
    (x.clientNext c sent toClient deeds).lane r = { x.lane r with
      client := c.core.endOf r
      toServer := (x.lane r).toServer ++ sent.filter fun f => f.requestId = r
      toClient := toClient.filter fun f => f.requestId = r
      calls := note (x.calls r) (x.callCnt r - 1) (deeds r)
      working := c.core.state = .working } := by
  simp [lane, clientNext, noteAll, hactive]
  rfl

theorem client_move (hm : (x.client.core.endOf r).Move (deeds r) (c.core.endOf r))
    (hactive : c.core.active r = x.client.core.active r) (hsent : ∀ f ∈ sent, f.requestId ≠ r)
    (htransport : (toClient.filter fun f => f.requestId = r) = (x.lane r).toClient)
    (hw : c.core.state = .working → x.client.core.state = .working ∧ c.core.reader.listens = true) :
    (x.lane r).Step .client ((x.clientNext c sent toClient deeds).lane r) := by
  have hnil : (sent.filter fun f => f.requestId = r) = [] :=
    List.filter_eq_nil_iff.2 fun f hf => by simpa using hsent f hf
  rw [lane_clientNext (count_of_active hactive), hnil, List.append_nil, htransport]
  refine .client hm (fun h => ?_) (fun h => ?_)
  · exact decide_eq_true (hw (of_decide_eq_true h)).1
  · exact (hw (of_decide_eq_true h)).2

theorem client_stay (hend : c.core.endOf r = x.client.core.endOf r) (hd : deeds r = .nothing)
    (hactive : c.core.active r = x.client.core.active r)
    (htransport : (toClient.filter fun f => f.requestId = r) = (x.lane r).toClient)
    (hw : c.core.state = .working → x.client.core.state = .working ∧ c.core.reader.listens = true) :
    (x.lane r).Step .client ((x.clientNext c [] toClient deeds).lane r) := by
  refine client_move ?_ hactive nofun htransport hw
  rw [hend, hd]
  exact .stay

/-- **A turn of the client** is a step of every request id. -/
theorem client_turn (hx : x.Sound) (hc : c.Orderly) {e : StreamProcessor.Event}
    (ht : StreamProcessor.Turn x.client.core e c.core) :
    (x.lane r).Step .client ((x.clientNext c (x.client.core.sends e).toList x.toClient (x.client.core.deedOn e)).lane r) := by
  have hs := hx.client.sound.core
  have hactive : c.core.active r = x.client.core.active r := by rw [(ht.table hs.fiberOk).1]
  have hw : c.core.state = .working → x.client.core.state = .working ∧ c.core.reader.listens = true :=
    fun h => ⟨ht.working hs h, hc.listens h⟩
  cases hown : e.owner with
  | some o =>
    obtain ⟨ho, f, ps, pool, queue, heq, -, -, hq, hm⟩ := StreamProcessor.ownerMove_of_turn hs hx.clientNeat hx.clientLined ht hown
    rw [StreamProcessor.sends_of_owner hown]
    by_cases hr : x.client.core.requestIds o = r
    · subst hr
      refine client_move ?_ hactive nofun rfl hw
      rw [StreamProcessor.deedOn_of_owner hown, heq]
      exact hm
    · refine client_stay ?_ (StreamProcessor.deedOn_of_ne hown hr) hactive rfl hw
      rw [heq]
      exact StreamProcessor.endOf_ownerStep_of_ne hs hr hq
  | none =>
    have hd := StreamProcessor.deedOn_of_none (s := x.client.core) hown r
    by_cases hsend : ∀ f ∈ x.client.core.sends e, f.requestId ≠ r
    · refine client_move ?_ hactive (fun f hf => hsend f (Option.mem_toList.1 hf)) rfl hw
      rw [hd]
      exact StreamProcessor.move_of_turn hx.clientNeat ht hown hsend
    · simp only [not_forall, not_not] at hsend
      obtain ⟨f, hf, rfl⟩ := hsend
      obtain ⟨hout, hend, hstate⟩ := StreamProcessor.endOf_of_send ht hf
      have hsent : ((x.client.core.sends e).toList.filter fun g => g.requestId = f.requestId) = [f] := by
        rw [Option.mem_def.1 hf]
        simp
      rw [lane_clientNext (count_of_active hactive), hd, note_nothing, hsent, hend, hstate]
      exact .clientSend hout

theorem filter_cons_of_ne {fs : List Frame} (hr : f.requestId ≠ r) (hfs : x.toClient = f :: fs) :
    (fs.filter fun f => f.requestId = r) = (x.lane r).toClient := by
  simp [lane, hfs, hr]

/-- **A stream that enters its slot** begins a call. -/
theorem client_enter (hx : x.Sound) (hw : x.client.core.state = .working) {o : StreamNo} (ho : ¬ x.client.core.owned o)
    (hcore : c.core = x.client.enterStream o) (hc : c.Orderly) :
    (x.lane r).Step .client ((x.clientNext c [] x.toClient fun _ => .nothing).lane r) := by
  have hidle := hx.clientLined.idle (hx.client.listens hw) o ho
  have hslot : x.client.core.active (x.client.core.requestIds o) = none := by
    rw [hx.client.sound.requestIds]
    exact hx.client.sound.slot_of_not_owned ho
  by_cases hr : r = x.client.core.requestIds o
  · subst hr
    have hcount : count x.callCnt x.client.core c.core (x.client.core.requestIds o) =
        x.callCnt (x.client.core.requestIds o) + 1 := by
      refine count_of_enter hslot ?_
      simp [hcore, ClientStreamProcessor.enterStream, StreamProcessor.enter]
    have hlane : (x.clientNext c [] x.toClient fun _ => .nothing).lane (x.client.core.requestIds o) =
        { x.lane (x.client.core.requestIds o) with
          client := (x.lane (x.client.core.requestIds o)).client.begin_ []
          callCnt := (x.lane (x.client.core.requestIds o)).callCnt + 1 } := by
      have hend : c.core.endOf (x.client.core.requestIds o) = (x.client.core.endOf (x.client.core.requestIds o)).begin_ [] := by
        rw [hcore]
        exact StreamProcessor.endOf_enter hidle _
      have hstate : c.core.state = x.client.core.state := by rw [hcore]; rfl
      simp [lane, clientNext, noteAll, hcount, note_nothing, hend, hstate]
    rw [hlane]
    refine .callBegin (decide_eq_true hw) ?_
    simp [lane, StreamProcessor.endOf, hslot]
  · refine client_stay ?_ rfl ?_ rfl fun h => ⟨hw, hc.listens h⟩
    · rw [hcore]
      exact StreamProcessor.endOf_enter_of_ne (hx.client.sound.core.not_active_of_not_owned ho) hr
    · rw [hcore]
      exact Function.update_of_ne hr _ _

theorem client_receive (hx : x.Sound) {p : Packet} {fs : List Frame} (hr : x.client.core.reader = .reading p)
    (hfs : x.toClient = f :: fs) {o : StreamNo} (hslot : x.client.core.active f.requestId = some o)
    (hcore : c.core = x.client.core.deliver o (p.ofFrame f)) :
    (x.lane r).Step .client ((x.clientNext c [] fs (x.client.deedOn (.receive f))).lane r) := by
  have hactive : ∀ r, c.core.active r = x.client.core.active r := fun r => by rw [hcore]; rfl
  have hl : x.client.core.reader.listens = true := by rw [hr]; rfl
  have hrest : (p.ofFrame f).rest = f.body :=
    StreamProcessor.rest_ofFrame (hx.clientNeat.reader p (by rw [hr]; exact List.mem_singleton_self p)) f
  by_cases hid : f.requestId = r
  · subst hid
    have hend := StreamProcessor.endOf_deliver hl hslot (p.ofFrame f)
    have hlane : (x.clientNext c [] fs (x.client.deedOn (.receive f))).lane f.requestId =
        { x.lane f.requestId with
          client := { (x.lane f.requestId).client with inbound := (x.lane f.requestId).client.inbound ++ f.body }
          toClient := fs.filter fun g => g.requestId = f.requestId
          calls := note (x.calls f.requestId) (x.callCnt f.requestId - 1) (.arrived f.body) } := by
      rw [lane_clientNext (count_of_active (hactive _)), hcore, hend, hrest]
      simp [ClientStreamProcessor.deedOn, hslot, lane]
      rfl
    rw [hlane]
    exact .clientReceive (by simp [lane, hfs]) hl (by simp [lane, StreamProcessor.endOf, hslot])
  · refine client_stay ?_ ?_ (hactive r) (filter_cons_of_ne hid hfs) fun h => ?_
    · rw [hcore]
      refine StreamProcessor.endOf_deliver_of_ne hl (fun ha => hid ?_) _
      rw [← hx.client.sound.core.requestIds r o ha, hx.client.sound.core.requestIds _ o hslot]
    · simp [ClientStreamProcessor.deedOn, hid]
    · rw [hcore] at h ⊢
      exact ⟨h, rfl⟩

theorem client_reject {p : Packet} {fs : List Frame} (hfs : x.toClient = f :: fs) (hslot : x.client.core.active f.requestId = none)
    (hcore : c.core = x.client.core.abandon p) :
    (x.lane r).Step .client ((x.clientNext c [] fs (x.client.deedOn (.receive f))).lane r) := by
  have hactive : ∀ r, c.core.active r = x.client.core.active r := fun r => by rw [hcore]; rfl
  have hd : x.client.deedOn (.receive f) r = .nothing := by
    simp only [ClientStreamProcessor.deedOn]
    refine if_neg fun h => ?_
    rw [← h.1, hslot] at h
    cases h.2
  have hstop : c.core.state ≠ .working := by
    rw [hcore]
    show (if x.client.core.state = .working then ProcessorState.stopInitiated else x.client.core.state) ≠ .working
    split
    · nofun
    · assumption
  by_cases hid : f.requestId = r
  · subst hid
    have hlane : (x.clientNext c [] fs (x.client.deedOn (.receive f))).lane f.requestId =
        { x.lane f.requestId with
          client := { (x.lane f.requestId).client with listening := false }
          toClient := fs.filter fun g => g.requestId = f.requestId
          working := false } := by
      rw [lane_clientNext (count_of_active (hactive _)), hd, note_nothing, decide_eq_false hstop, hcore,
        StreamProcessor.endOf_abandon]
      simp [lane]
    rw [hlane]
    exact .clientReject (by simp [lane, hfs]; rfl)
  · refine client_move ?_ (hactive r) nofun (filter_cons_of_ne hid hfs) fun h => absurd h hstop
    rw [hd, hcore]
    exact .deaf

theorem client_delete (hx : x.Sound) (hc : c.Orderly) {o : StreamNo} (hcore : c.core = x.client.core.releaseStream o)
    (ho : x.client.core.owned o)
    (hp : x.client.core.state ≠ .working ∨ (x.lane (x.client.core.requestIds o)).Answered) :
    (x.lane r).Step .client ((x.clientNext c [] x.toClient fun _ => .nothing).lane r) := by
  have hstate : c.core.state = x.client.core.state := by rw [hcore, StreamProcessor.releaseStream_eq]
  by_cases hr : r = x.client.core.requestIds o
  · subst hr
    have hcount : count x.callCnt x.client.core c.core (x.client.core.requestIds o) =
        x.callCnt (x.client.core.requestIds o) := by
      refine count_of_leave ?_
      rw [hcore, StreamProcessor.releaseStream_eq]
      exact Function.update_self ..
    have hlane : (x.clientNext c [] x.toClient fun _ => .nothing).lane (x.client.core.requestIds o) =
        { x.lane (x.client.core.requestIds o) with client := (x.lane (x.client.core.requestIds o)).client.finish } := by
      have hend : c.core.endOf (x.client.core.requestIds o) = (x.client.core.endOf (x.client.core.requestIds o)).finish := by
        rw [hcore]
        exact StreamProcessor.endOf_releaseStream _ _
      simp [lane, clientNext, noteAll, hcount, note_nothing, hend, hstate]
    rw [hlane]
    refine .callFinish ?_ (hp.imp_left fun h => decide_eq_false h)
    have ha : x.client.core.active (x.client.core.requestIds o) = some o := ho
    simp [lane, StreamProcessor.endOf, ha]
  · refine client_stay ?_ rfl ?_ rfl fun h => ⟨hstate ▸ h, hc.listens h⟩
    · rw [hcore]
      exact StreamProcessor.endOf_releaseStream_of_ne hx.client.sound.core hr
    · rw [hcore, StreamProcessor.releaseStream_eq]
      exact Function.update_of_ne hr _ _

/-- **Every step of the client is a step of every request id.** -/
theorem client_step (hx : x.Sound) {a : ClientStreamProcessor.Action} (hp : x.Permitted (.client a))
    (h : x.step (.client a) = some x') (r : RequestId) : (x.lane r).Step .client (x'.lane r) := by
  obtain ⟨toClient, c, hremains, hc, rfl⟩ := clientStep_cases h
  have hc' : c.Orderly := hx.client.step hp.1 hc
  show (x.lane r).Step .client ((x.clientNext c (x.client.sent a) toClient (x.client.deedOn a)).lane r)
  have hkeep : (∀ f, a ≠ .receive f) → x.toClient = toClient := ClientStreamProcessor.remains_of_ne hremains
  cases ClientStreamProcessor.outcome_of_step hc with
  | event ht =>
    rw [← hkeep nofun]
    exact client_turn hx hc' ht
  | processNothing | process => cases hremains
  | refused hs =>
    rw [← hkeep nofun]
    exact client_stay rfl rfl rfl rfl fun h => absurd h hs
  | created hs ho =>
    rw [← hkeep nofun]
    exact client_enter hx hs ho rfl hc'
  | waits hs hall =>
    rw [← hkeep nofun]
    exact client_stay rfl rfl rfl rfl fun h => ⟨h, hc'.listens h⟩
  | woken hw ho =>
    rw [← hkeep nofun]
    exact client_enter hx (hx.client.waiters hw) ho rfl hc'
  | delivered hr hslot => exact client_receive hx hr (ClientStreamProcessor.remains_receive hremains) hslot rfl
  | unexpected hr hslot => exact client_reject (ClientStreamProcessor.remains_receive hremains) hslot rfl
  | deleted ho hf =>
    rw [← hkeep nofun]
    exact client_delete hx hc' rfl ho (hp.2 _ rfl)
  | stopAsync =>
    rw [← hkeep nofun]
    refine client_stay rfl rfl rfl rfl fun h => ?_
    cases h

end Client

/-! ## The server -/

section Server

variable {s : StreamProcessor} {sent toServer : List Frame} {deeds : RequestId → Deed} {f : Frame} {o : StreamNo}

/-- The connection after a step of the server. -/
def serverNext (x : Connection) (s : StreamProcessor) (sent toServer : List Frame) (deeds : RequestId → Deed) :
    Connection :=
  { x with
    server := s
    toServer := toServer
    toClient := x.toClient ++ sent
    handlers := noteAll x.handlers (count x.handlerCnt x.server s) deeds
    handlerCnt := count x.handlerCnt x.server s }

theorem lane_serverNext (hactive : count x.handlerCnt x.server s r = x.handlerCnt r) :
    (x.serverNext s sent toServer deeds).lane r = { x.lane r with
      server := s.endOf r
      toServer := toServer.filter fun f => f.requestId = r
      toClient := (x.lane r).toClient ++ sent.filter fun f => f.requestId = r
      handlers := note (x.handlers r) (x.handlerCnt r - 1) (deeds r) } := by
  simp [lane, serverNext, noteAll, hactive]
  rfl

theorem server_move (hm : (x.server.endOf r).Move (deeds r) (s.endOf r)) (hactive : s.active r = x.server.active r)
    (hsent : ∀ f ∈ sent, f.requestId ≠ r)
    (htransport : (toServer.filter fun f => f.requestId = r) = (x.lane r).toServer)
    (hw : ∀ bytes, deeds r = .wrote bytes → (x.lane r).Asked)
    (hf : deeds r = .flushed → (x.handlers r (x.handlerCnt r - 1)).wrote ≠ []) :
    (x.lane r).Step .server ((x.serverNext s sent toServer deeds).lane r) := by
  have hnil : (sent.filter fun f => f.requestId = r) = [] :=
    List.filter_eq_nil_iff.2 fun f hf => by simpa using hsent f hf
  rw [lane_serverNext (count_of_active hactive), hnil, List.append_nil, htransport]
  exact .server hm hw hf

theorem server_stay (hend : s.endOf r = x.server.endOf r) (hd : deeds r = .nothing)
    (hactive : s.active r = x.server.active r)
    (htransport : (toServer.filter fun f => f.requestId = r) = (x.lane r).toServer) :
    (x.lane r).Step .server ((x.serverNext s [] toServer deeds).lane r) := by
  refine server_move ?_ hactive nofun htransport ?_ ?_
  · rw [hend, hd]
    exact .stay
  · rw [hd]
    exact nofun
  · rw [hd]
    exact nofun

/-- **A turn of the server** is a step of every request id. -/
theorem server_turn (hx : x.Sound) {e : StreamProcessor.Event} (hp : x.Permitted (.server (.event e)))
    (ht : StreamProcessor.Turn x.server e s) :
    (x.lane r).Step .server ((x.serverNext s (x.server.sends e).toList x.toServer (x.server.deedOn e)).lane r) := by
  have hs := hx.server.core
  have hactive : s.active r = x.server.active r := by rw [(ht.table hs.fiberOk).1]
  cases hown : e.owner with
  | some o =>
    obtain ⟨ho, f, ps, pool, queue, heq, -, -, hq, hm⟩ := StreamProcessor.ownerMove_of_turn hs hx.serverNeat hx.serverLined ht hown
    rw [StreamProcessor.sends_of_owner hown]
    by_cases hr : x.server.requestIds o = r
    · subst hr
      refine server_move ?_ hactive nofun rfl (fun bytes hd => ?_) (fun hd => ?_)
      · rw [StreamProcessor.deedOn_of_owner hown, heq]
        exact hm
      · obtain ⟨o', rfl, hid⟩ := StreamProcessor.deedOn_cases.1 bytes hd
        rw [← hid]
        exact hp
      · obtain ⟨o', rfl, hid⟩ := StreamProcessor.deedOn_cases.2 hd
        rw [← hid]
        exact hp
    · refine server_stay ?_ (StreamProcessor.deedOn_of_ne hown hr) hactive rfl
      rw [heq]
      exact StreamProcessor.endOf_ownerStep_of_ne hs hr hq
  | none =>
    have hd := StreamProcessor.deedOn_of_none (s := x.server) hown r
    by_cases hsend : ∀ f ∈ x.server.sends e, f.requestId ≠ r
    · refine server_move ?_ hactive (fun f hf => hsend f (Option.mem_toList.1 hf)) rfl ?_ ?_
      · rw [hd]
        exact StreamProcessor.move_of_turn hx.serverNeat ht hown hsend
      · rw [hd]
        exact nofun
      · rw [hd]
        exact nofun
    · simp only [not_forall, not_not] at hsend
      obtain ⟨f, hf, rfl⟩ := hsend
      obtain ⟨hout, hend, -⟩ := StreamProcessor.endOf_of_send ht hf
      have hsent : ((x.server.sends e).toList.filter fun g => g.requestId = f.requestId) = [f] := by
        rw [Option.mem_def.1 hf]
        simp
      rw [lane_serverNext (count_of_active hactive), hd, note_nothing, hsent, hend]
      exact .serverSend hout

theorem filter_toServer_of_ne {fs : List Frame} (hr : f.requestId ≠ r) (hfs : x.toServer = f :: fs) :
    (fs.filter fun f => f.requestId = r) = (x.lane r).toServer := by
  simp [lane, hfs, hr]

/-- **The first packet of a request** starts a handler. -/
theorem server_begin (hx : x.Sound) {p : Packet} {fs : List Frame} (hr : x.server.reader = .reading p)
    (hfs : x.toServer = f :: fs) (hfirst : f.type.isFirst = true) (hslot : x.server.active f.requestId = none)
    (ho : ¬ x.server.owned o) :
    (x.lane r).Step .server ((x.serverNext ((x.server.enter f.requestId o).deliver o (p.ofFrame f)) [] fs
      (ServerStreamProcessor.deedOn x.server (.receive f o))).lane r) := by
  have hl : x.server.reader.listens = true := by rw [hr]; rfl
  have hidle := hx.serverLined.idle hl o ho
  have hfree := hx.server.core.not_active_of_not_owned ho
  have hrest : (p.ofFrame f).rest = f.body :=
    StreamProcessor.rest_ofFrame (hx.serverNeat.reader p (by rw [hr]; exact List.mem_singleton_self p)) f
  have henter : (x.server.enter f.requestId o).active f.requestId = some o := Function.update_self ..
  have hl' : (x.server.enter f.requestId o).reader.listens = true := hl
  by_cases hid : f.requestId = r
  · subst hid
    have hcount : count x.handlerCnt x.server ((x.server.enter f.requestId o).deliver o (p.ofFrame f)) f.requestId =
        x.handlerCnt f.requestId + 1 := by
      refine count_of_enter hslot ?_
      show ((x.server.enter f.requestId o).active f.requestId).isSome = true
      rw [henter]
      rfl
    have hend : ((x.server.enter f.requestId o).deliver o (p.ofFrame f)).endOf f.requestId =
        (x.server.endOf f.requestId).begin_ f.body := by
      rw [StreamProcessor.endOf_deliver hl' henter, hrest, StreamProcessor.endOf_enter hidle]
      rfl
    have hlane : (x.serverNext ((x.server.enter f.requestId o).deliver o (p.ofFrame f)) [] fs
        (ServerStreamProcessor.deedOn x.server (.receive f o))).lane f.requestId =
        { x.lane f.requestId with
          server := (x.lane f.requestId).server.begin_ f.body
          toServer := fs.filter fun g => g.requestId = f.requestId
          handlers := note (x.handlers f.requestId) (x.handlerCnt f.requestId) (.arrived f.body)
          handlerCnt := x.handlerCnt f.requestId + 1 } := by
      simp [lane, serverNext, noteAll, hcount, hend, ServerStreamProcessor.deedOn, hslot, hfirst]
    rw [hlane]
    exact .handlerBegin (by simp [lane, hfs]) hl hfirst (by simp [lane, StreamProcessor.endOf, hslot])
  · have hne : r ≠ f.requestId := fun h => hid h.symm
    refine server_stay ?_ (by simp [ServerStreamProcessor.deedOn, hid]) ?_ (filter_toServer_of_ne hid hfs)
    · rw [StreamProcessor.endOf_deliver_of_ne hl', StreamProcessor.endOf_enter_of_ne hfree hne]
      intro ha
      rw [show (x.server.enter f.requestId o).active r = x.server.active r from Function.update_of_ne hne _ _] at ha
      exact hfree r ha
    · exact Function.update_of_ne hne _ _

theorem server_receive (hx : x.Sound) {p : Packet} {fs : List Frame} (hr : x.server.reader = .reading p)
    (hfs : x.toServer = f :: fs) (hfirst : f.type.isFirst = false) {o' : StreamNo}
    (hslot : x.server.active f.requestId = some o') :
    (x.lane r).Step .server ((x.serverNext (x.server.deliver o' (p.ofFrame f)) [] fs
      (ServerStreamProcessor.deedOn x.server (.receive f o))).lane r) := by
  have hl : x.server.reader.listens = true := by rw [hr]; rfl
  have hrest : (p.ofFrame f).rest = f.body :=
    StreamProcessor.rest_ofFrame (hx.serverNeat.reader p (by rw [hr]; exact List.mem_singleton_self p)) f
  by_cases hid : f.requestId = r
  · subst hid
    have hlane : (x.serverNext (x.server.deliver o' (p.ofFrame f)) [] fs
        (ServerStreamProcessor.deedOn x.server (.receive f o))).lane f.requestId =
        { x.lane f.requestId with
          server := { (x.lane f.requestId).server with inbound := (x.lane f.requestId).server.inbound ++ f.body }
          toServer := fs.filter fun g => g.requestId = f.requestId
          handlers := note (x.handlers f.requestId) (x.handlerCnt f.requestId - 1) (.arrived f.body) } := by
      have hcount : count x.handlerCnt x.server (x.server.deliver o' (p.ofFrame f)) f.requestId =
          x.handlerCnt f.requestId := count_of_active (by rfl)
      rw [lane_serverNext hcount, StreamProcessor.endOf_deliver hl hslot, hrest]
      simp [ServerStreamProcessor.deedOn, hslot, hfirst, lane]
    rw [hlane]
    exact .serverReceive (by simp [lane, hfs]) hl hfirst (by simp [lane, StreamProcessor.endOf, hslot])
  · refine server_stay ?_ (by simp [ServerStreamProcessor.deedOn, hid]) rfl (filter_toServer_of_ne hid hfs)
    refine StreamProcessor.endOf_deliver_of_ne hl (fun ha => hid ?_) _
    rw [← hx.server.core.requestIds r o' ha, hx.server.core.requestIds _ o' hslot]

theorem server_reject {p : Packet} {fs : List Frame} (hfs : x.toServer = f :: fs)
    (hf : f.type.isFirst = (x.server.active f.requestId).isSome) :
    (x.lane r).Step .server ((x.serverNext (x.server.abandon p) [] fs
      (ServerStreamProcessor.deedOn x.server (.receive f o))).lane r) := by
  have hd : ServerStreamProcessor.deedOn x.server (.receive f o) r = .nothing := by
    simp only [ServerStreamProcessor.deedOn]
    exact if_neg fun h => h.2 (h.1 ▸ hf)
  by_cases hid : f.requestId = r
  · subst hid
    have hlane : (x.serverNext (x.server.abandon p) [] fs
        (ServerStreamProcessor.deedOn x.server (.receive f o))).lane f.requestId =
        { x.lane f.requestId with
          server := { (x.lane f.requestId).server with listening := false }
          toServer := fs.filter fun g => g.requestId = f.requestId } := by
      have hcount : count x.handlerCnt x.server (x.server.abandon p) f.requestId = x.handlerCnt f.requestId :=
        count_of_active (by rfl)
      rw [lane_serverNext hcount, hd, note_nothing, StreamProcessor.endOf_abandon]
      simp [lane]
    rw [hlane]
    exact .serverReject (by simp [lane, hfs]; rfl)
  · refine server_move ?_ rfl nofun (filter_toServer_of_ne hid hfs) (by rw [hd]; exact nofun) (by rw [hd]; exact nofun)
    rw [hd]
    exact .deaf

/-- **A handler that returns** gives up its stream. -/
theorem server_return (hx : x.Sound) (ho : x.server.owned o) {state : ProcessorState} :
    (x.lane r).Step (if x.server.requestIds o = r then .serverFinish else .server)
      ((x.serverNext (StreamProcessor.releaseStream { x.server with state := state } o) [] x.toServer
        fun _ => .nothing).lane r) := by
  have hs : StreamProcessor.Sound { x.server with state := state } := hx.server.core.setState state
  by_cases hid : x.server.requestIds o = r
  · subst hid
    rw [if_pos rfl]
    have hcount : count x.handlerCnt x.server (StreamProcessor.releaseStream { x.server with state := state } o)
        (x.server.requestIds o) = x.handlerCnt (x.server.requestIds o) := by
      refine count_of_leave ?_
      rw [StreamProcessor.releaseStream_eq]
      exact Function.update_self ..
    have hlane : (x.serverNext (StreamProcessor.releaseStream { x.server with state := state } o) [] x.toServer
        fun _ => .nothing).lane (x.server.requestIds o) =
        { x.lane (x.server.requestIds o) with server := (x.lane (x.server.requestIds o)).server.finish } := by
      rw [lane_serverNext hcount, note_nothing]
      have hend := StreamProcessor.endOf_releaseStream { x.server with state := state } o
      rw [show (StreamProcessor.releaseStream { x.server with state := state } o).endOf (x.server.requestIds o) =
        (x.server.endOf (x.server.requestIds o)).finish from hend]
      simp [lane]
    rw [hlane]
    refine .handlerFinish ?_
    have ha : x.server.active (x.server.requestIds o) = some o := ho
    simp [lane, StreamProcessor.endOf, ha]
  · rw [if_neg hid]
    refine server_stay ?_ rfl ?_ rfl
    · exact StreamProcessor.endOf_releaseStream_of_ne hs fun h => hid h.symm
    · rw [StreamProcessor.releaseStream_eq]
      exact Function.update_of_ne (fun h => hid h.symm) _ _

/-- What a step is for the request id `r`. -/
def laneAct (x : Connection) (r : RequestId) : Action → Lane.Act
  | .client _ => .client
  | .server (.handlerReturn o _) => if x.server.requestIds o = r then .serverFinish else .server
  | .server _ => .server

/-- **Every step of the server is a step of every request id.** -/
theorem server_step (hx : x.Sound) {a : ServerStreamProcessor.Action} (hp : x.Permitted (.server a))
    (h : x.step (.server a) = some x') (r : RequestId) : (x.lane r).Step (x.laneAct r (.server a)) (x'.lane r) := by
  obtain ⟨toServer, s, hremains, hs, rfl⟩ := serverStep_cases h
  show (x.lane r).Step _ ((x.serverNext s (ServerStreamProcessor.sent x.server a) toServer
    (ServerStreamProcessor.deedOn x.server a)).lane r)
  have hkeep : (∀ f o, a ≠ .receive f o) → x.toServer = toServer := ServerStreamProcessor.remains_of_ne hremains
  cases ServerStreamProcessor.outcome_of_step hs with
  | event ht =>
    rw [← hkeep nofun]
    exact server_turn hx hp ht
  | start | readerStart => cases hremains
  | begun hr hf hslot ho => exact server_begin hx hr (ServerStreamProcessor.remains_receive hremains) hf hslot ho
  | continued hr hf hslot => exact server_receive hx hr (ServerStreamProcessor.remains_receive hremains) hf hslot
  | unexpected hr hf => exact server_reject (ServerStreamProcessor.remains_receive hremains) hf
  | returned ho hf =>
    rw [← hkeep nofun]
    exact server_return hx ho
  | failed ho hf =>
    rw [← hkeep nofun]
    exact server_return hx ho
  | stopAsync hst =>
    rw [← hkeep nofun]
    exact server_stay rfl rfl rfl rfl

end Server

/-! ## Runs -/

theorem lane_step (hx : x.Sound) {a : Action} (hp : x.Permitted a) (h : x.step a = some x') (r : RequestId) :
    (x.lane r).Step (x.laneAct r a) (x'.lane r) := by
  cases a with
  | client a => exact client_step hx hp h r
  | server a => exact server_step hx hp h r

theorem Sound.step (hx : x.Sound) {a : Action} (hp : x.Permitted a) (h : x.step a = some x') : x'.Sound := by
  have hlanes : ∀ r, (x'.lane r).Inv := fun r => (hx.lanes r).step (lane_step hx hp h r)
  cases a with
  | client a =>
    obtain ⟨toClient, c, hremains, hc, rfl⟩ := clientStep_cases h
    have ha := ClientStreamProcessor.ne_processStream_of_remains hremains
    exact ⟨hx.client.step hp.1 hc, ClientStreamProcessor.neat_step hx.clientNeat hc,
      ClientStreamProcessor.lined_step hx.client hx.clientNeat hx.clientLined ha hc, hx.server, hx.serverNeat,
      hx.serverLined, hlanes⟩
  | server a =>
    obtain ⟨toServer, s, hremains, hs, rfl⟩ := serverStep_cases h
    have ha := ServerStreamProcessor.ne_readerStart_of_remains hremains
    exact ⟨hx.client, hx.clientNeat, hx.clientLined, hx.server.step hs, ServerStreamProcessor.neat_step hx.serverNeat hs,
      ServerStreamProcessor.lined_step hx.server hx.serverNeat hx.serverLined ha hs, hlanes⟩

theorem kept_established (e : End) (ha : e.active = false) (hw : e.outbound = []) :
    Lane.Kept e (fun _ => Log.empty) 0 :=
  ⟨fun h => absurd (ha.symm.trans h) (by simp), fun _ _ => rfl, fun _ => ⟨[], .nil, List.prefix_refl _⟩,
    fun h => absurd (ha.symm.trans h) (by simp), fun h => absurd (ha.symm.trans h) (by simp),
    fun h => absurd (ha.symm.trans h) (by simp), fun _ => hw⟩

theorem sound_established : established.Sound := by
  have hclient : established.client.Orderly :=
    ClientStreamProcessor.orderly_create.step (a := .processStream) (fun h => absurd h.1 (by decide)) established_eq.1
  have hserver : ServerStreamProcessor.Sound established.server :=
    Run.invariant (fun _ _ _ hs _ hstep => hs.step hstep) _ ServerStreamProcessor.sound_create (Run.meets_true _ _)
      established_eq.2
  refine ⟨hclient, ?_, ⟨nofun, nofun, fun _ _ _ => rfl⟩, hserver, ?_, ⟨nofun, nofun, fun _ _ _ => rfl⟩, fun r => ?_⟩
  · exact ⟨nofun, nofun, nofun, nofun, fun _ => PacketStream.neat_create, nofun⟩
  · exact ⟨nofun, nofun, nofun, nofun, fun _ => PacketStream.neat_create, nofun⟩
  · refine ⟨⟨Nat.le_refl _, Nat.zero_le _⟩, kept_established _ rfl rfl, kept_established _ rfl rfl, fun _ => rfl,
      fun _ => List.prefix_refl _, fun _ => List.prefix_refl _, fun _ => ⟨[], [], ?_⟩, fun _ => ?_⟩
    · exact ⟨rfl, nofun, nofun, fun _ => rfl, nofun, ⟨List.prefix_refl _, fun h => absurd h.1 (by simp [lane, established])⟩,
        fun _ => rfl, nofun⟩
    · exact ⟨nofun, nofun, fun _ => ⟨rfl, nofun⟩, fun _ _ => rfl⟩

end Connection
end Mrpc
