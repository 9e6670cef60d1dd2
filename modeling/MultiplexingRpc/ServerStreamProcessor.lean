import MultiplexingRpc.Phases
/-!
# ServerStreamProcessor — the server's end of one connection (`mrpc_server_stream_processor.c`)

The first packet of a request makes the reader take an idle request stream from the pool, enter it under the request's
id and start a fiber that runs the stream handler on it; when the handler returns, the stream is released.  The handler
is any program that keeps to the packet stream's interface; the peer may send anything.
-/
namespace Mrpc
namespace ServerStreamProcessor

open StreamProcessor (Event Turn)

/-- What may happen next.  `receive f o`: the reader gets a packet from the connection, and if it begins a request the
pool hands out `o`; `handlerReturn o result`: the stream handler of `o` returns. -/
inductive Action where
  | event (e : Event)
  | start
  | readerStart
  | receive (f : Frame) (o : StreamNo)
  | handlerReturn (o : StreamNo) (result : FfResult)
  | stopAsync
  deriving DecidableEq, Repr

/-- `mrpc_server_stream_processor_create`. -/
def create : StreamProcessor := { StreamProcessor.create with requestIds := fun _ => 0 }

/-- `mrpc_server_stream_processor_start`. -/
def start (s : StreamProcessor) : Option StreamProcessor :=
  if s.reader = .stopped ∧ s.state = .stopped then some { s with state := .working, reader := .starting } else none

/-- `stream_reader_func` up to its loop. -/
def readerStart (s : StreamProcessor) : Option StreamProcessor :=
  if s.reader = .starting then
    some { s with writer := .getting, streamsStopEvent := true, reader := .acquiring }
  else none

/-- The loop of `stream_reader_func` with a packet of the connection. -/
def receive (s : StreamProcessor) (f : Frame) (o : StreamNo) : Option StreamProcessor :=
  match s.reader with
  | .reading p =>
    if f.body.length ≤ maxPacketSize then
      match f.type.isFirst, s.active f.requestId with
      | true, some _ => some (s.abandon p)
      | true, none =>
        if s.owned o then none else some ((s.enter f.requestId o).deliver o (p.ofFrame f))
      | false, some o => some (s.deliver o (p.ofFrame f))
      | false, none => some (s.abandon p)
    else none
  | _ => none

/-- The end of `process_request_func`. -/
def handlerReturn (s : StreamProcessor) (o : StreamNo) (result : FfResult) : Option StreamProcessor :=
  if s.owned o ∧ s.fibers o = .running then
    match result with
    | .success => some (s.releaseStream o)
    | .failure => some (s.stopAsync.releaseStream o)
  else none

def step (s : StreamProcessor) : Action → Option StreamProcessor
  | .event e => s.event e
  | .start => start s
  | .readerStart => readerStart s
  | .receive f o => receive s f o
  | .handlerReturn o result => handlerReturn s o result
  | .stopAsync => if s.state = .stopped then none else some s.stopAsync

/-! ## What a step does -/

variable {s s' : StreamProcessor}

/-- The outcome of every step, with what has to hold before it. -/
inductive Outcome (s : StreamProcessor) : Action → StreamProcessor → Prop where
  | event {e t} (ht : Turn s e t) : Outcome s (.event e) t
  | start (hr : s.reader = .stopped) (hs : s.state = .stopped) :
    Outcome s .start { s with state := .working, reader := .starting }
  | readerStart (hr : s.reader = .starting) :
    Outcome s .readerStart { s with writer := .getting, streamsStopEvent := true, reader := .acquiring }
  | begun {f p o} (hr : s.reader = .reading p) (hf : f.type.isFirst = true) (hslot : s.active f.requestId = none)
    (ho : ¬ s.owned o) : Outcome s (.receive f o) ((s.enter f.requestId o).deliver o (p.ofFrame f))
  | continued {f p o o'} (hr : s.reader = .reading p) (hf : f.type.isFirst = false)
    (hslot : s.active f.requestId = some o') : Outcome s (.receive f o) (s.deliver o' (p.ofFrame f))
  | unexpected {f p o} (hr : s.reader = .reading p) (hf : f.type.isFirst = (s.active f.requestId).isSome) :
    Outcome s (.receive f o) (s.abandon p)
  | returned {o} (ho : s.owned o) (hf : s.fibers o = .running) :
    Outcome s (.handlerReturn o .success) (s.releaseStream o)
  | failed {o} (ho : s.owned o) (hf : s.fibers o = .running) :
    Outcome s (.handlerReturn o .failure) (s.stopAsync.releaseStream o)
  | stopAsync (hs : s.state ≠ .stopped) : Outcome s .stopAsync s.stopAsync

theorem outcome_of_step {a : Action} (h : step s a = some s') : Outcome s a s' := by
  cases a with
  | event e => exact .event (StreamProcessor.turn_of_event h)
  | start =>
    simp only [step, start] at h
    split at h
    · rename_i hg
      cases h
      exact .start hg.1 hg.2
    · cases h
  | readerStart =>
    simp only [step, readerStart] at h
    split at h
    · rename_i hr
      cases h
      exact .readerStart hr
    · cases h
  | receive f o =>
    simp only [step, receive] at h
    split at h
    · rename_i p hr
      split at h
      · split at h
        · rename_i o' hf hslot
          cases h
          exact .unexpected hr (by rw [hf, hslot]; rfl)
        · rename_i hf hslot
          split at h
          · cases h
          · rename_i ho
            cases h
            exact .begun hr hf hslot ho
        · rename_i o' hf hslot
          cases h
          exact .continued hr hf hslot
        · rename_i hf hslot
          cases h
          exact .unexpected hr (by rw [hf, hslot]; rfl)
      · cases h
    · cases h
  | handlerReturn o result =>
    simp only [step, handlerReturn] at h
    split at h
    · rename_i hg
      cases result with
      | success =>
        cases h
        exact .returned hg.1 hg.2
      | failure =>
        cases h
        exact .failed hg.1 hg.2
    · cases h
  | stopAsync =>
    simp only [step] at h
    split at h
    · cases h
    · rename_i hs
      cases h
      exact .stopAsync hs

/-! ## Soundness -/

/-- What holds after every run. -/
structure Sound (s : StreamProcessor) : Prop where
  core : s.Sound
  phased : s.Phased

theorem sound_create : Sound create := by
  have h := StreamProcessor.sound_create
  exact ⟨⟨h.conserved, h.writerOk, h.fiberOk, (fun r o ha => nomatch ha), h.activeCnt⟩,
    ⟨StreamProcessor.phased_create.phaseOk, StreamProcessor.phased_create.streamsStopEvent⟩⟩

theorem Sound.step {a : Action} (h : Sound s) (hs : step s a = some s') : Sound s' := by
  cases outcome_of_step hs with
  | event ht => exact ⟨h.core.turn ht, h.phased.turn h.core ht⟩
  | start hr hst =>
    obtain ⟨-, hquiet⟩ := h.phased.quiet hst
    have hw := h.core.writerOk
    simp only [StreamProcessor.WriterOk, hr] at hw
    refine ⟨⟨?_, hw, h.core.fiberOk, h.core.requestIds, h.core.activeCnt⟩, ⟨by simp, hquiet⟩, h.phased.streamsStopEvent⟩
    refine h.core.conserved.of_held rfl ?_
    simp [StreamProcessor.held, hr, Reader.packets]
  | readerStart hr =>
    have hp := h.phased.phaseOk
    simp only [StreamProcessor.PhaseOk, hr] at hp
    obtain ⟨hst, -, hq, hev, hcnt⟩ := hp
    exact ⟨h.core.connect (Or.inr hr) _, ⟨hst, by simp, by simp [hq], hev⟩, fun _ => hcnt⟩
  | begun hr hf hslot ho =>
    have henter := h.core.enter (h.core.not_active_of_not_owned ho) hslot
    exact ⟨henter.deliver hr _, (h.phased.enter (Or.inr ⟨_, hr⟩)).deliver hr _⟩
  | continued hr hf hslot => exact ⟨h.core.deliver hr _, h.phased.deliver hr _⟩
  | unexpected hr hf => exact ⟨h.core.turn (.readerFail hr), h.phased.turn h.core (.readerFail hr)⟩
  | returned ho hf => exact ⟨h.core.releaseStream ho hf, h.phased.releaseStream h.core ho⟩
  | failed ho hf =>
    rw [StreamProcessor.stopAsync_eq (h.phased.state_ne_stopped (h.core.activeCnt_pos ho))]
    have hcore := h.core.setState .stopInitiated
    exact ⟨hcore.releaseStream ho hf, h.phased.stop.releaseStream hcore ho⟩
  | stopAsync hst =>
    rw [StreamProcessor.stopAsync_eq hst]
    exact ⟨h.core.setState _, h.phased.stop⟩

/-! ## Running out of packets -/

/-- Handlers of the generated form read their request before they write the response. -/
def Generated (s : StreamProcessor) : Action → Prop
  | .event (.read o _) => (s.streams o).currentWritePacket = none
  | _ => True

/-- The owner of `o` waits for a packet, to write or to read. -/
def Blocked (s : StreamProcessor) (o : StreamNo) : Prop :=
  match s.fibers o with
  | .running => False
  | .reading _ _ => (s.streams o).readerQueue = []
  | .acquiring _ _ => s.packetsPool.exhausted

/-- All packets are in use, and everybody waits: the reader for a free packet, the writer for a packet to send, every
handler for a free packet or for one of its own request. -/
def Deadlocked (s : StreamProcessor) : Prop :=
  s.packetsPool.exhausted ∧ (s.reader = .acquiring ∨ ∃ i o, s.reader = .disconnectAcquiring i o) ∧
    s.writer = .getting ∧ s.writerQueue = [] ∧ ∀ o, s.owned o → Blocked s o

/-- The packets that lie in the reader queue of a stream nobody reads from: its handler waits for a packet to write, or
it has no handler. -/
def unread (s : StreamProcessor) (o : StreamNo) : Nat :=
  match s.fibers o with
  | .acquiring _ _ => (s.streams o).readerQueue.length
  | _ => if s.owned o then 0 else (s.streams o).readerQueue.length

/-- The active handlers, each with its current read packet, and the packets nobody reads. -/
def load (s : StreamProcessor) : Nat := s.activeCnt + ∑ o, unread s o

/-- What holds after every run of handlers of the generated form. -/
structure ReadsFirst (s : StreamProcessor) : Prop where
  sound : Sound s
  reading : ∀ o len buf, s.fibers o = .reading len buf → (s.streams o).currentWritePacket = none
  idle : ∀ o, ¬ s.owned o → (s.streams o).currentReadPacket = none ∧ (s.streams o).currentWritePacket = none

theorem readsFirst_create : ReadsFirst create :=
  ⟨sound_create, (fun _ _ _ h => nomatch h), fun _ _ => ⟨rfl, rfl⟩⟩

theorem ReadsFirst.reading_turn {e : Event} (h : ReadsFirst s) (hgen : Generated s (.event e)) (ht : Turn s e s') :
    ∀ o len buf, s'.fibers o = .reading len buf → (s'.streams o).currentWritePacket = none := by
  intro o len buf hf
  cases hr : e.readsOn with
  | some o' =>
    obtain ⟨-, current, queue, f, pool, -, heq⟩ := ht.readFrame hr
    by_cases ho : o = o'
    · subst ho
      have hw : (s.streams o).currentWritePacket = none := by
        cases ht with
        | read ho hf => cases hr; exact hgen
        | get ho hf' hnext => cases hr; exact h.reading _ _ _ hf'
        | timeout ho hf' hq => cases hr; exact h.reading _ _ _ hf'
        | _ => cases hr
      rw [heq]
      simpa using hw
    · rw [heq] at hf ⊢
      simp only [Function.update_of_ne ho] at hf ⊢
      exact h.reading o len buf hf
  | none =>
    cases hw : e.writesOn with
    | some o' =>
      obtain ⟨-, current, f, pool, queue, -, hnr, heq⟩ := ht.writeFrame h.sound.core.fiberOk hw
      rw [heq] at hf ⊢
      by_cases ho : o = o'
      · subst ho
        dsimp only at hf
        rw [Function.update_self] at hf
        exact absurd hf (hnr len buf)
      · simp only [Function.update_of_ne ho] at hf ⊢
        exact h.reading o len buf hf
    | none =>
      cases ht with
      | read | get | timeout => cases hr
      | writeFirst | writeMore | flush | acquire => cases hw
      | readerAcquire hr hp =>
        obtain ⟨pool, -, rfl⟩ := StreamProcessor.acquirePacket_eq hp
        exact h.reading o len buf hf
      | readerDisconnect hr hi hslot hp =>
        obtain ⟨pool, -, rfl⟩ := StreamProcessor.acquirePacket_eq hp
        exact (StreamProcessor.pushPacket_currentWritePacket _ _ _ _).trans (h.reading o len buf hf)
      | readerDisconnectLate hr hp =>
        obtain ⟨pool, -, rfl⟩ := StreamProcessor.acquirePacket_eq hp
        exact (StreamProcessor.pushPacket_currentWritePacket _ _ _ _).trans (h.reading o len buf hf)
      | _ => exact h.reading o len buf hf

theorem ReadsFirst.idle_turn {e : Event} (h : ReadsFirst s) (ht : Turn s e s') (o : StreamNo) (ho : ¬ s'.owned o) :
    (s'.streams o).currentReadPacket = none ∧ (s'.streams o).currentWritePacket = none := by
  rw [ht.owned_iff h.sound.core] at ho
  rcases ht.idle_stream h.sound.core ho with heq | ⟨p, i, -, -, heq⟩
  · rw [heq]
    exact h.idle o ho
  · rw [heq]
    exact h.idle o ho

theorem ReadsFirst.deliver (h : ReadsFirst s) {p : Packet} (hr : s.reader = .reading p) (o : StreamNo) (f : Frame) :
    ReadsFirst (s.deliver o (p.ofFrame f)) := by
  refine ⟨⟨h.sound.core.deliver hr f, h.sound.phased.deliver hr _⟩, fun i len buf hf => ?_, fun i hi => ?_⟩
  · exact (StreamProcessor.pushPacket_currentWritePacket _ _ _ _).trans (h.reading i len buf hf)
  · have hidle := h.idle i hi
    exact ⟨(StreamProcessor.pushPacket_currentReadPacket _ _ _ _).trans hidle.1,
      (StreamProcessor.pushPacket_currentWritePacket _ _ _ _).trans hidle.2⟩

theorem ReadsFirst.enter (h : ReadsFirst s) {p : Packet} {r : RequestId} {o : StreamNo} (hr : s.reader = .reading p)
    (hslot : s.active r = none) (ho : ¬ s.owned o) : ReadsFirst (s.enter r o) := by
  have hcore := h.sound.core.enter (h.sound.core.not_active_of_not_owned ho) hslot
  refine ⟨⟨hcore, h.sound.phased.enter (Or.inr ⟨p, hr⟩)⟩, fun i len buf hf => ?_, fun i hi => ?_⟩
  · by_cases hio : i = o
    · subst hio
      simp [StreamProcessor.enter] at hf
    · simp only [StreamProcessor.enter, Function.update_of_ne hio] at hf ⊢
      exact h.reading i len buf hf
  · by_cases hio : i = o
    · subst hio
      exact absurd (by simp [StreamProcessor.owned, StreamProcessor.enter]) hi
    · rw [StreamProcessor.owned_enter hslot hio] at hi
      simp only [StreamProcessor.enter, Function.update_of_ne hio]
      exact h.idle i hi

theorem ReadsFirst.releaseStream (h : ReadsFirst s) {o : StreamNo} (ho : s.owned o) (hf : s.fibers o = .running) :
    ReadsFirst (s.releaseStream o) := by
  refine ⟨⟨h.sound.core.releaseStream ho hf, h.sound.phased.releaseStream h.sound.core ho⟩, fun i len buf hfi => ?_,
    fun i hi => ?_⟩
  · rw [StreamProcessor.releaseStream_eq] at hfi ⊢
    have hio : i ≠ o := fun hio => by
      subst hio
      rw [hf] at hfi
      cases hfi
    dsimp only
    rw [Function.update_of_ne hio]
    exact h.reading i len buf hfi
  · rw [StreamProcessor.streams_releaseStream]
    by_cases hio : i = o
    · subst hio
      rw [Function.update_self]
      exact ⟨rfl, rfl⟩
    · rw [StreamProcessor.owned_releaseStream ho hio] at hi
      rw [Function.update_of_ne hio]
      exact h.idle i hi

theorem ReadsFirst.stop (h : ReadsFirst s) : ReadsFirst { s with state := .stopInitiated } :=
  ⟨⟨h.sound.core.setState _, h.sound.phased.stop⟩, h.reading, h.idle⟩

theorem ReadsFirst.step {a : Action} (h : ReadsFirst s) (hgen : Generated s a) (hs : step s a = some s') :
    ReadsFirst s' := by
  have hsound := h.sound.step hs
  cases outcome_of_step hs with
  | event ht => exact ⟨hsound, h.reading_turn hgen ht, h.idle_turn ht⟩
  | start hr hst => exact ⟨hsound, h.reading, h.idle⟩
  | readerStart hr => exact ⟨hsound, h.reading, h.idle⟩
  | begun hr hf hslot ho => exact (h.enter hr hslot ho).deliver hr _ _
  | continued hr hf hslot => exact h.deliver hr _ _
  | unexpected hr hf => exact ⟨hsound, h.reading, h.idle⟩
  | returned ho hf => exact h.releaseStream ho hf
  | failed ho hf =>
    rw [StreamProcessor.stopAsync_eq (h.sound.phased.state_ne_stopped (h.sound.core.activeCnt_pos ho))]
    exact h.stop.releaseStream ho hf
  | stopAsync hst =>
    rw [StreamProcessor.stopAsync_eq hst]
    exact h.stop

/-- **What a stream holds in a deadlock**: its current read packet if it has a handler, and what nobody reads. -/
theorem ReadsFirst.length_packets_le (h : ReadsFirst s) (hblocked : ∀ o, s.owned o → Blocked s o) (o : StreamNo) :
    (s.streams o).packets.length ≤ (if s.owned o then 1 else 0) + unread s o := by
  have hfiber := h.sound.core.fiberOk o
  by_cases ho : s.owned o
  · have hb := hblocked o ho
    unfold Blocked at hb
    unfold unread
    cases hf : s.fibers o with
    | running => simp [hf] at hb
    | reading len buf =>
      rw [hf] at hb
      have hw := h.reading o len buf hf
      simp [PacketStream.packets, hw, ho, show (s.streams o).readerQueue = [] from hb]
    | acquiring type rest =>
      rw [hf] at hfiber
      simp [PacketStream.packets, ho, show (s.streams o).currentWritePacket = none from hfiber]
  · obtain ⟨hr, hw⟩ := h.idle o ho
    unfold unread
    cases hf : s.fibers o <;> simp [PacketStream.packets, hr, hw, ho]

/-- **A deadlock takes `maxPacketsCnt` handlers and unread packets.** -/
theorem ReadsFirst.le_load_of_deadlocked (h : ReadsFirst s) (hd : Deadlocked s) : maxPacketsCnt ≤ load s := by
  obtain ⟨hex, hreader, hwriter, hqueue, hblocked⟩ := hd
  have hreaderPackets : s.reader.packets = [] := by
    rcases hreader with hr | ⟨i, o, hr⟩
    · rw [hr]; rfl
    · rw [hr]; rfl
  calc maxPacketsCnt = s.held.card := (h.sound.core.exhausted_iff.1 hex).symm
    _ = ∑ o, (s.streams o).packets.length := by
      rw [StreamProcessor.card_held, hqueue, hreaderPackets, hwriter]
      simp [Writer.packets]
    _ ≤ ∑ o, ((if s.owned o then 1 else 0) + unread s o) :=
      Finset.sum_le_sum fun o _ => h.length_packets_le hblocked o
    _ = (Finset.univ.filter s.owned).card + ∑ o, unread s o := by
      rw [Finset.sum_add_distrib, Finset.sum_boole]
      rfl
    _ ≤ load s := Nat.add_le_add_right h.sound.core.card_owned_le _

/-- **The server does not deadlock** as long as its handlers and the packets they leave unread are fewer than the
packets it has. -/
theorem not_deadlocked_of_load (as : List Action) (s : StreamProcessor) (hgen : Run.Meets step Generated create as)
    (hrun : Run.exec step create as = some s) (hload : load s < maxPacketsCnt) : ¬ Deadlocked s := by
  have h : ReadsFirst s := Run.invariant (fun s a s' hs hC hstep => hs.step hC hstep) as readsFirst_create hgen hrun
  intro hd
  exact absurd (h.le_load_of_deadlocked hd) (Nat.not_le.2 hload)

/-- The peer sends `n` more packets of the request `r`. -/
def feed (r : RequestId) (n : Nat) : List Action :=
  (List.replicate n [.event .reader, .receive ⟨.middle, r, []⟩ 0]).flatten

/-- **A packet of a request goes to the end of its reader queue.** -/
theorem exec_feed_one {r : RequestId} {o : StreamNo} (hs : Sound s) (hr : s.reader = .acquiring)
    (hslot : s.active r = some o) (hcard : s.held.card < maxPacketsCnt) :
    ∃ (pool : Pool Packet) (p : Packet), Run.exec step s [.event .reader, .receive ⟨.middle, r, []⟩ 0] =
      some { s.pushPacket o p with packetsPool := pool } := by
  obtain ⟨p, pool, hp⟩ := StreamProcessor.exists_acquirePacket (s := s) (by rw [hs.core.exhausted_iff]; omega)
  have hreader : step s (.event .reader) = some { s with packetsPool := pool, reader := .reading p } := by
    simp [step, StreamProcessor.event, StreamProcessor.readerStep, hr, hp]
  refine ⟨pool, p.ofFrame ⟨.middle, r, []⟩, ?_⟩
  rw [Run.exec_cons_of _ hreader]
  simp [Run.exec, step, receive, PacketType.isFirst, hslot, StreamProcessor.deliver, StreamProcessor.pushPacket,
    StreamProcessor.setStream, hr]

/-- The processor with more packets in one reader queue. -/
def fed (s : StreamProcessor) (o : StreamNo) (pool : Pool Packet) (queue : List Packet) : StreamProcessor :=
  { s with
    packetsPool := pool
    streams := Function.update s.streams o { s.streams o with readerQueue := (s.streams o).readerQueue ++ queue } }

/-- **The packets of a request pile up** while its handler does not read them. -/
theorem exec_feed {r : RequestId} {o : StreamNo} (n : Nat) (hs : Sound s) (hr : s.reader = .acquiring)
    (hslot : s.active r = some o) (hcard : s.held.card + n ≤ maxPacketsCnt) :
    ∃ pool queue, (fed s o pool queue).held.card = s.held.card + n ∧
      Run.exec step s (feed r n) = some (fed s o pool queue) := by
  induction n generalizing s with
  | zero =>
    refine ⟨s.packetsPool, [], ?_, ?_⟩
    · simp [fed]
    · simp [feed, fed, Run.exec]
  | succ n ih =>
    obtain ⟨pool, p, hone⟩ := exec_feed_one hs hr hslot (by omega)
    have hs' : Sound { s.pushPacket o p with packetsPool := pool } :=
      Run.invariant (fun s a s' hs _ hstep => hs.step hstep) _ hs (Run.meets_true _ _) hone
    have hcard' := StreamProcessor.card_held_pushPacket s o p pool
    obtain ⟨pool', queue, hheld, hrun⟩ := ih hs' hr hslot (by omega)
    have hfed : fed { s.pushPacket o p with packetsPool := pool } o pool' queue = fed s o pool' (p :: queue) := by
      simp [fed, StreamProcessor.pushPacket, StreamProcessor.setStream, PacketStream.pushPacket]
    rw [hfed] at hheld hrun
    refine ⟨pool', p :: queue, by omega, ?_⟩
    rw [feed, List.replicate_succ, List.flatten_cons, Run.exec_append_of _ _ hone, ← feed, hrun]

/-- A connection on which a request begins. -/
def request : List Action := [.start, .readerStart, .event .reader, .receive ⟨.start, 0, [0]⟩ 0]

/-- The processor after it. -/
def requested : StreamProcessor :=
  ({ create with
    state := .working
    packetsPool := ⟨maxPacketsCnt, 1, []⟩
    streamsStopEvent := true
    writer := .getting
    reader := .reading (Packet.create 0) }.enter 0 0).deliver 0 ⟨0, .start, 0, [0], 0⟩

theorem exec_request : Run.exec step create request = some requested := rfl

theorem streams_requested {o : StreamNo} (ho : o ≠ 0) : requested.streams o = PacketStream.create := by
  simp [requested, StreamProcessor.deliver, StreamProcessor.pushPacket, StreamProcessor.setStream, StreamProcessor.enter,
    ho, create, StreamProcessor.create]

theorem sound_requested : Sound requested :=
  Run.invariant (fun _ _ _ hs _ hstep => hs.step hstep) request sound_create (Run.meets_true _ _) exec_request

theorem card_held_requested : requested.held.card = 1 := by
  have hfree : requested.packetsPool.free.length = 0 := rfl
  have hcreated : requested.packetsPool.created = 1 := rfl
  have h := sound_requested.core.free_add_card_held
  omega

theorem requestIds_requested (o : StreamNo) : requested.requestIds o = 0 := by
  simp [requested, StreamProcessor.deliver, StreamProcessor.pushPacket, StreamProcessor.setStream, StreamProcessor.enter,
    create]

theorem meets_generated_request : Run.Meets step Generated create request :=
  ⟨trivial, fun _ _ => ⟨trivial, fun _ _ => ⟨trivial, fun _ _ => ⟨trivial, fun _ _ => trivial⟩⟩⟩⟩

/-- One handler, all of whose packets are being read. -/
theorem not_deadlocked_requested : Run.Meets step Generated create request ∧
    Run.exec step create request = some requested ∧ load requested < maxPacketsCnt ∧ ¬ Deadlocked requested := by
  have hload : load requested < maxPacketsCnt := by
    have hunread : ∀ o, unread requested o = 0 := fun o => by
      by_cases ho : o = 0
      · subst ho
        rfl
      · have hfiber : requested.fibers o = .running := by
          simp [requested, StreamProcessor.deliver, StreamProcessor.pushPacket, StreamProcessor.setStream,
            StreamProcessor.enter, create, StreamProcessor.create]
        simp [unread, hfiber, streams_requested ho, PacketStream.create]
    simp only [load, hunread, Finset.sum_const_zero, Nat.add_zero]
    decide
  exact ⟨meets_generated_request, exec_request, hload,
    not_deadlocked_of_load request requested meets_generated_request exec_request hload⟩

/-- The handler reads one byte and starts its response. -/
def respond : List Action := [.event (.read 0 1), .event (.get 0), .event (.write 0 [1])]

theorem meets_generated_feed (r : RequestId) (n : Nat) (s : StreamProcessor) : Run.Meets step Generated s (feed r n) := by
  induction n generalizing s with
  | zero => trivial
  | succ n ih =>
    rw [feed, List.replicate_succ, List.flatten_cons, ← feed]
    exact ⟨trivial, fun _ _ => ⟨trivial, fun t _ => ih t⟩⟩

/-- The peer sends 511 more packets of the same request, and the handler reads one byte and starts its response. -/
theorem not_forall_not_deadlocked : ¬ ∀ (as : List Action) (s : StreamProcessor),
    Run.Meets step Generated create as → Run.exec step create as = some s → ¬ Deadlocked s := by
  intro h
  obtain ⟨pool, queue, hheld, hfeed⟩ := exec_feed (r := 0) (o := 0) 511 sound_requested rfl rfl
    (by rw [card_held_requested]; decide)
  let s₃ : StreamProcessor := fed requested 0 pool queue
  have hsound : Sound s₃ :=
    Run.invariant (fun _ _ _ hs _ hstep => hs.step hstep) _ sound_requested (Run.meets_true _ _) hfeed
  have hexhausted : pool.exhausted := by
    refine hsound.core.exhausted_iff.2 ?_
    rw [hheld, card_held_requested]
    rfl
  let s₄ : StreamProcessor := (s₃.setStream 0 (s₃.streams 0)).setFiber 0 (.reading 1 [])
  let s₅ : StreamProcessor := (s₄.setStream 0 ⟨queue, some ⟨0, .start, 0, [0], 1⟩, none, 0⟩).setFiber 0 .running
  let s₆ : StreamProcessor := s₅.setFiber 0 (.acquiring .start [1])
  have hwrite : step s₅ (.event (.write 0 [1])) = some s₆ := by
    have hnone : s₅.acquirePacket = none := StreamProcessor.acquirePacket_eq_none.2 hexhausted
    show some (s₅.acquireWritePacket 0 .start [1]) = some s₆
    rw [StreamProcessor.acquireWritePacket, hnone]
  have hrespond : Run.exec step s₃ respond = some s₆ := by
    rw [respond, Run.exec_cons_of _ (show step s₃ _ = some s₄ from rfl),
      Run.exec_cons_of _ (show step s₄ _ = some s₅ from rfl), Run.exec_cons_of _ hwrite]
    rfl
  have hgen : Run.Meets step Generated s₃ respond := by
    refine ⟨rfl, fun _ _ => ⟨trivial, fun _ _ => ⟨trivial, fun _ _ => trivial⟩⟩⟩
  refine h (request ++ (feed 0 511 ++ respond)) s₆ ?_ ?_ ⟨hexhausted, Or.inl rfl, rfl, rfl, fun o ho => ?_⟩
  · exact Run.meets_append_of _ exec_request (meets_generated_request)
      (Run.meets_append_of _ hfeed (meets_generated_feed 0 511 requested) hgen)
  · rw [Run.exec_append_of _ _ exec_request, Run.exec_append_of _ _ hfeed]
    exact hrespond
  · have ho0 : (0 : StreamNo) = o := by
      have hslot : s₆.active (s₆.requestIds o) = some o := ho
      rw [show s₆.requestIds o = 0 from requestIds_requested o] at hslot
      exact Option.some.inj hslot
    subst ho0
    exact hexhausted

end ServerStreamProcessor
end Mrpc
