import MultiplexingRpc.PacketStream
import MultiplexingRpc.Lib.Pool
import MultiplexingRpc.Lib.Run
/-!
# StreamProcessor — what the two stream processors share

`mrpc_client_stream_processor.c` and `mrpc_server_stream_processor.c` multiplex request streams over one connection
with the same machinery: a pool of packets, a writer fiber that empties `writer_queue` into the connection, a reader
fiber that distributes incoming packets by request id and, when the connection ends, disconnects the request streams
and waits for them.  They differ in who makes request streams, and that is left to their own modules.

Fibers are cooperative: one runs until a call of the fiber framework makes it wait.  A step of the model is a turn of
one fiber, from a point where it may have waited to the next such point, so every interleaving of the fibers is a list
of steps.  The model also lets another fiber run between two packets of one read or write, where the code goes on if
the next packet is there.  An auto event is a flag that the waiting fiber's turn consumes.  `ff_assert` does nothing:
what the assertions check is proved, not assumed.
-/
namespace Mrpc

/-- A request stream of `request_streams_pool`. -/
abbrev StreamNo := Fin 256

/-- `MAX_REQUEST_STREAMS_CNT`. -/
def maxRequestStreamsCnt : Nat := 0x100

/-- `MAX_PACKETS_CNT`. -/
def maxPacketsCnt : Nat := 2 * maxRequestStreamsCnt

/-- `enum client_stream_processor_state`, `enum server_stream_processor_state`. -/
inductive ProcessorState where
  | working
  | stopInitiated
  | stopped
  deriving DecidableEq, Repr

/-- Where the fiber that owns a request stream stands: outside the packet stream, waiting in a read for a packet, or
waiting in a write or flush for a free packet, which gets the type `type` and takes `rest`. -/
inductive Fiber where
  | running
  | reading (len : Nat) (buf : List UInt8)
  | acquiring (type : PacketType) (rest : List UInt8)
  deriving DecidableEq, Repr

/-- Where the reader fiber stands.  `starting`: not yet scheduled; `disconnecting i`: at the head of the loop of
`stop_all_request_streams`; `disconnectAcquiring i o`: inside `mrpc_packet_stream_disconnect` of the stream `o` it found
in slot `i`, waiting for a free packet. -/
inductive Reader where
  | stopped
  | starting
  | acquiring
  | reading (packet : Packet)
  | disconnecting (i : Nat)
  | disconnectAcquiring (i : Nat) (o : StreamNo)
  | waitingStreams
  | waitingWriter
  deriving DecidableEq, Repr

/-- Where the writer fiber stands; `skipping` is `skip_writer_queue_packets`. -/
inductive Writer where
  | stopped
  | getting
  | writing (packet : Packet)
  | flushing
  | skipping
  deriving DecidableEq, Repr

/-- The state of a stream processor; `none` in `writerQueue` is the terminating `NULL`.  The fields of the request
streams are kept by stream number. -/
structure StreamProcessor where
  state : ProcessorState
  packetsPool : Pool Packet
  writerQueue : List (Option Packet)
  streams : StreamNo → PacketStream
  requestIds : StreamNo → RequestId
  fibers : StreamNo → Fiber
  active : RequestId → Option StreamNo
  activeCnt : Nat
  streamsStopEvent : Bool
  writerStopEvent : Bool
  reader : Reader
  writer : Writer

/-- What a packet says on the wire. -/
structure Frame where
  type : PacketType
  requestId : RequestId
  body : List UInt8
  deriving DecidableEq, Repr

def Packet.frame (p : Packet) : Frame := ⟨p.type, p.requestId, p.body⟩

/-- `mrpc_packet_read_from_stream` into a fresh packet, when it succeeds. -/
def Packet.ofFrame (p : Packet) (f : Frame) : Packet :=
  { p with type := f.type, requestId := f.requestId, body := f.body }

/-- Where a read leaves its fiber. -/
def ReadOutcome.fiber : ReadOutcome → Fiber
  | success _ => .running
  | failure => .running
  | waits len buf => .reading len buf

namespace StreamProcessor

/-- `mrpc_*_stream_processor_create`. -/
def create : StreamProcessor where
  state := .stopped
  packetsPool := Pool.empty maxPacketsCnt
  writerQueue := []
  streams := fun _ => PacketStream.create
  requestIds := id
  fibers := fun _ => .running
  active := fun _ => none
  activeCnt := 0
  streamsStopEvent := false
  writerStopEvent := false
  reader := .stopped
  writer := .stopped

/-! ## Packets and streams -/

def setStream (s : StreamProcessor) (o : StreamNo) (ps : PacketStream) : StreamProcessor :=
  { s with streams := Function.update s.streams o ps }

def setFiber (s : StreamProcessor) (o : StreamNo) (f : Fiber) : StreamProcessor :=
  { s with fibers := Function.update s.fibers o f }

/-- `acquire_client_packet`, `acquire_server_packet`; nothing when it has to wait. -/
def acquirePacket (s : StreamProcessor) : Option (Packet × StreamProcessor) :=
  (s.packetsPool.acquire Packet.create).map fun (p, pool) => (p, { s with packetsPool := pool })

/-- `release_client_packet`, `release_server_packet`. -/
def releasePacket (s : StreamProcessor) (p : Packet) : StreamProcessor :=
  { s with packetsPool := s.packetsPool.release p.reset }

def releasePackets (s : StreamProcessor) (ps : List Packet) : StreamProcessor := ps.foldl releasePacket s

/-- `ff_blocking_queue_put(writer_queue, packet)`. -/
def putPacket (s : StreamProcessor) (p : Packet) : StreamProcessor :=
  { s with writerQueue := s.writerQueue ++ [some p] }

/-- `mrpc_packet_stream_push_packet`. -/
def pushPacket (s : StreamProcessor) (o : StreamNo) (p : Packet) : StreamProcessor :=
  s.setStream o ((s.streams o).pushPacket p)

/-- The stream is in its slot of `active_request_streams`: it has an owner. -/
def owned (s : StreamProcessor) (o : StreamNo) : Prop := s.active (s.requestIds o) = some o

instance (s : StreamProcessor) (o : StreamNo) : Decidable (s.owned o) := inferInstanceAs (Decidable (_ = _))

/-- `acquire_request_stream`, once the pool handed out `o`. -/
def enter (s : StreamProcessor) (r : RequestId) (o : StreamNo) : StreamProcessor :=
  { s with
    streams := Function.update s.streams o ((s.streams o).initialise r)
    requestIds := Function.update s.requestIds o r
    fibers := Function.update s.fibers o .running
    active := Function.update s.active r (some o)
    activeCnt := s.activeCnt + 1
    streamsStopEvent := if s.activeCnt + 1 = 1 then false else s.streamsStopEvent }

/-- `release_request_stream`. -/
def releaseStream (s : StreamProcessor) (o : StreamNo) : StreamProcessor :=
  let s := (s.releasePackets (s.streams o).packets).setStream o (s.streams o).shutdown
  { s with
    active := Function.update s.active (s.requestIds o) none
    activeCnt := s.activeCnt - 1
    streamsStopEvent := if s.activeCnt - 1 = 0 then true else s.streamsStopEvent }

/-! ## The owner of a stream -/

/-- The loop of `mrpc_packet_stream_write`, with the current packet in hand, up to its next wait. -/
def fillWritePacket (s : StreamProcessor) (o : StreamNo) (p : Packet) (buf : List UInt8) : StreamProcessor :=
  let (p, rest) := p.writeData buf
  if rest = [] then
    (s.setStream o { s.streams o with currentWritePacket := some p }).setFiber o .running
  else
    ((s.setStream o { s.streams o with currentWritePacket := none }).putPacket p).setFiber o (.acquiring .middle rest)

/-- `acquire_packet` of the packet stream, and the loop after it. -/
def acquireWritePacket (s : StreamProcessor) (o : StreamNo) (type : PacketType) (rest : List UInt8) : StreamProcessor :=
  match s.acquirePacket with
  | some (p, s) => s.fillWritePacket o { p with type := type, requestId := (s.streams o).requestId } rest
  | none => s.setFiber o (.acquiring type rest)

/-- `mrpc_packet_stream_read`. -/
def read (s : StreamProcessor) (o : StreamNo) (len : Nat) : Option StreamProcessor :=
  if s.owned o ∧ s.fibers o = .running then
    let (ps, outcome) := (s.streams o).read len
    some ((s.setStream o ps).setFiber o outcome.fiber)
  else none

/-- A read's wait ends with a packet. -/
def get (s : StreamProcessor) (o : StreamNo) : Option StreamProcessor :=
  match s.fibers o with
  | .reading len buf =>
    if s.owned o then
      match (s.streams o).readNext len buf with
      | some (released, ps, outcome) =>
        some (((s.setStream o ps).setFiber o outcome.fiber).releasePackets released.toList)
      | none => none
    else none
  | _ => none

/-- A read's wait ends with `READ_TIMEOUT`. -/
def timeout (s : StreamProcessor) (o : StreamNo) : Option StreamProcessor :=
  match s.fibers o with
  | .reading _ _ =>
    if s.owned o ∧ (s.streams o).readerQueue = [] then some (s.setFiber o .running) else none
  | _ => none

/-- `mrpc_packet_stream_write`, which must not follow a flush. -/
def write (s : StreamProcessor) (o : StreamNo) (buf : List UInt8) : Option StreamProcessor :=
  if s.owned o ∧ s.fibers o = .running then
    match (s.streams o).currentWritePacket with
    | none => some (s.acquireWritePacket o .start buf)
    | some p => if p.type.isLast then none else some (s.fillWritePacket o p buf)
  else none

/-- The current packet as the last one of its message. -/
def lastPacket (p : Packet) : Packet := { p with type := if p.type = .start then .single else .end_ }

/-- `mrpc_packet_stream_flush`, once, after a write. -/
def flush (s : StreamProcessor) (o : StreamNo) : Option StreamProcessor :=
  if s.owned o ∧ s.fibers o = .running then
    match (s.streams o).currentWritePacket with
    | none => none
    | some p =>
      if p.type.isLast then none
      else
        some (((s.setStream o { s.streams o with currentWritePacket := none }).putPacket
          (lastPacket p)).acquireWritePacket o .end_ [])
  else none

/-- The wait for a free packet, in a write or a flush, ends. -/
def acquire (s : StreamProcessor) (o : StreamNo) : Option StreamProcessor :=
  match s.fibers o with
  | .acquiring type rest =>
    if s.owned o ∧ ¬ s.packetsPool.exhausted then some (s.acquireWritePacket o type rest) else none
  | _ => none

/-! ## The reader and the writer -/

/-- `mrpc_*_stream_processor_stop_async` while the processor works. -/
def stopAsync (s : StreamProcessor) : StreamProcessor :=
  { s with state := if s.state = .working then .stopInitiated else s.state }

/-- The reader gives up the connection: it releases the packet in hand and starts to stop. -/
def abandon (s : StreamProcessor) (p : Packet) : StreamProcessor :=
  { (s.releasePacket p).stopAsync with reader := .disconnecting 0 }

/-- The reader pushes the packet it read and goes on. -/
def deliver (s : StreamProcessor) (o : StreamNo) (p : Packet) : StreamProcessor :=
  { s.pushPacket o p with reader := .acquiring }

/-- `mrpc_packet_read_from_stream` fails. -/
def readerFail (s : StreamProcessor) : Option StreamProcessor :=
  match s.reader with
  | .reading p => some (s.abandon p)
  | _ => none

/-- `mrpc_packet_stream_disconnect` with a free packet at hand. -/
def pushDisconnect (s : StreamProcessor) (o : StreamNo) (p : Packet) : StreamProcessor :=
  s.pushPacket o { p with type := .end_, requestId := (s.streams o).requestId }

/-- The reader's turns that do not hang on the connection. -/
def readerStep (s : StreamProcessor) : Option StreamProcessor :=
  match s.reader with
  | .acquiring => s.acquirePacket.map fun (p, s) => { s with reader := .reading p }
  | .disconnecting i =>
    if h : i < maxRequestStreamsCnt then
      match s.active ⟨i, h⟩ with
      | none => some { s with reader := .disconnecting (i + 1) }
      | some o =>
        match s.acquirePacket with
        | some (p, s) => some { s.pushDisconnect o p with reader := .disconnecting (i + 1) }
        | none => some { s with reader := .disconnectAcquiring i o }
    else some { s with reader := .waitingStreams }
  | .disconnectAcquiring i o =>
    s.acquirePacket.map fun (p, s) => { s.pushDisconnect o p with reader := .disconnecting (i + 1) }
  | .waitingStreams =>
    if s.streamsStopEvent then
      some { s with streamsStopEvent := false, writerQueue := s.writerQueue ++ [none], reader := .waitingWriter }
    else none
  | .waitingWriter =>
    if s.writerStopEvent then some { s with writerStopEvent := false, state := .stopped, reader := .stopped } else none
  | _ => none

/-- The writer's turns that do not hang on the connection: it takes the next packet of the queue. -/
def writerStep (s : StreamProcessor) : Option StreamProcessor :=
  match s.writer, s.writerQueue with
  | .getting, some p :: queue => some { s with writerQueue := queue, writer := .writing p }
  | .skipping, some p :: queue => some ({ s with writerQueue := queue }.releasePacket p)
  | .getting, none :: queue => some { s with writerQueue := queue, writer := .stopped, writerStopEvent := true }
  | .skipping, none :: queue => some { s with writerQueue := queue, writer := .stopped, writerStopEvent := true }
  | _, _ => none

/-- `mrpc_packet_write_to_stream` or `ff_stream_flush` returns `result`. -/
def writerResult (s : StreamProcessor) (result : FfResult) : Option StreamProcessor :=
  match s.writer, result with
  | .writing p, .success =>
    some { s.releasePacket p with writer := if s.writerQueue = [] then .flushing else .getting }
  | .writing p, .failure => some { (s.releasePacket p).stopAsync with writer := .skipping }
  | .flushing, .success => some { s with writer := .getting }
  | .flushing, .failure => some { s.stopAsync with writer := .skipping }
  | _, _ => none

/-! ## Steps -/

/-- The steps that the two processors share. -/
inductive Event where
  | read (o : StreamNo) (len : Nat)
  | get (o : StreamNo)
  | timeout (o : StreamNo)
  | write (o : StreamNo) (buf : List UInt8)
  | flush (o : StreamNo)
  | acquire (o : StreamNo)
  | reader
  | readerFail
  | writer
  | writerResult (result : FfResult)
  deriving DecidableEq, Repr

def event (s : StreamProcessor) : Event → Option StreamProcessor
  | .read o len => s.read o len
  | .get o => s.get o
  | .timeout o => s.timeout o
  | .write o buf => s.write o buf
  | .flush o => s.flush o
  | .acquire o => s.acquire o
  | .reader => s.readerStep
  | .readerFail => s.readerFail
  | .writer => s.writerStep
  | .writerResult result => s.writerResult result

/-! ## What a turn does -/

/-- The outcome of every shared step, with what has to hold before it. -/
inductive Turn (s : StreamProcessor) : Event → StreamProcessor → Prop where
  | read {o len} (ho : s.owned o) (hf : s.fibers o = .running) :
    Turn s (.read o len) ((s.setStream o ((s.streams o).read len).1).setFiber o ((s.streams o).read len).2.fiber)
  | get {o len buf released ps outcome} (ho : s.owned o) (hf : s.fibers o = .reading len buf)
    (hnext : (s.streams o).readNext len buf = some (released, ps, outcome)) :
    Turn s (.get o) (((s.setStream o ps).setFiber o outcome.fiber).releasePackets released.toList)
  | timeout {o len buf} (ho : s.owned o) (hf : s.fibers o = .reading len buf) (hq : (s.streams o).readerQueue = []) :
    Turn s (.timeout o) (s.setFiber o .running)
  | writeFirst {o buf} (ho : s.owned o) (hf : s.fibers o = .running) (hw : (s.streams o).currentWritePacket = none) :
    Turn s (.write o buf) (s.acquireWritePacket o .start buf)
  | writeMore {o buf p} (ho : s.owned o) (hf : s.fibers o = .running)
    (hw : (s.streams o).currentWritePacket = some p) (hlast : p.type.isLast = false) :
    Turn s (.write o buf) (s.fillWritePacket o p buf)
  | flush {o p} (ho : s.owned o) (hf : s.fibers o = .running) (hw : (s.streams o).currentWritePacket = some p)
    (hlast : p.type.isLast = false) :
    Turn s (.flush o) (((s.setStream o { s.streams o with currentWritePacket := none }).putPacket
      (lastPacket p)).acquireWritePacket o .end_ [])
  | acquire {o type rest} (ho : s.owned o) (hf : s.fibers o = .acquiring type rest)
    (hpool : ¬ s.packetsPool.exhausted) : Turn s (.acquire o) (s.acquireWritePacket o type rest)
  | readerAcquire {p t} (hr : s.reader = .acquiring) (hp : s.acquirePacket = some (p, t)) :
    Turn s .reader { t with reader := .reading p }
  | readerPass {i : Nat} (hr : s.reader = .disconnecting i) (hi : i < maxRequestStreamsCnt)
    (hslot : s.active ⟨i, hi⟩ = none) : Turn s .reader { s with reader := .disconnecting (i + 1) }
  | readerDisconnect {i : Nat} {o p t} (hr : s.reader = .disconnecting i) (hi : i < maxRequestStreamsCnt)
    (hslot : s.active ⟨i, hi⟩ = some o) (hp : s.acquirePacket = some (p, t)) :
    Turn s .reader { t.pushDisconnect o p with reader := .disconnecting (i + 1) }
  | readerBlock {i : Nat} {o} (hr : s.reader = .disconnecting i) (hi : i < maxRequestStreamsCnt)
    (hslot : s.active ⟨i, hi⟩ = some o) (hp : s.packetsPool.exhausted) :
    Turn s .reader { s with reader := .disconnectAcquiring i o }
  | readerDisconnectLate {i : Nat} {o p t} (hr : s.reader = .disconnectAcquiring i o)
    (hp : s.acquirePacket = some (p, t)) :
    Turn s .reader { t.pushDisconnect o p with reader := .disconnecting (i + 1) }
  | readerLoopEnd {i : Nat} (hr : s.reader = .disconnecting i) (hi : maxRequestStreamsCnt ≤ i) :
    Turn s .reader { s with reader := .waitingStreams }
  | readerStreamsStopped (hr : s.reader = .waitingStreams) (he : s.streamsStopEvent = true) :
    Turn s .reader
      { s with streamsStopEvent := false, writerQueue := s.writerQueue ++ [none], reader := .waitingWriter }
  | readerWriterStopped (hr : s.reader = .waitingWriter) (he : s.writerStopEvent = true) :
    Turn s .reader { s with writerStopEvent := false, state := .stopped, reader := .stopped }
  | readerFail {p} (hr : s.reader = .reading p) : Turn s .readerFail (s.abandon p)
  | writerGet {p queue} (hw : s.writer = .getting) (hq : s.writerQueue = some p :: queue) :
    Turn s .writer { s with writerQueue := queue, writer := .writing p }
  | writerSkip {p queue} (hw : s.writer = .skipping) (hq : s.writerQueue = some p :: queue) :
    Turn s .writer ({ s with writerQueue := queue }.releasePacket p)
  | writerEnd {queue} (hw : s.writer = .getting ∨ s.writer = .skipping) (hq : s.writerQueue = none :: queue) :
    Turn s .writer { s with writerQueue := queue, writer := .stopped, writerStopEvent := true }
  | writeOk {p} (hw : s.writer = .writing p) :
    Turn s (.writerResult .success)
      { s.releasePacket p with writer := if s.writerQueue = [] then .flushing else .getting }
  | writeFail {p} (hw : s.writer = .writing p) :
    Turn s (.writerResult .failure) { (s.releasePacket p).stopAsync with writer := .skipping }
  | flushOk (hw : s.writer = .flushing) : Turn s (.writerResult .success) { s with writer := .getting }
  | flushFail (hw : s.writer = .flushing) :
    Turn s (.writerResult .failure) { s.stopAsync with writer := .skipping }

theorem acquirePacket_eq_none {s : StreamProcessor} : s.acquirePacket = none ↔ s.packetsPool.exhausted := by
  unfold acquirePacket
  rw [Option.map_eq_none_iff, Pool.acquire_eq_none]

theorem turn_of_readerStep {s s' : StreamProcessor} (h : s.readerStep = some s') : Turn s .reader s' := by
  unfold readerStep at h
  cases hr : s.reader with
  | acquiring =>
    rw [hr] at h
    obtain ⟨⟨p, t⟩, hp, rfl⟩ := Option.map_eq_some_iff.1 h
    exact .readerAcquire hr hp
  | disconnecting i =>
    simp only [hr] at h
    split at h
    · rename_i hi
      split at h
      · rename_i hslot
        cases h
        exact .readerPass hr hi hslot
      · rename_i o hslot
        split at h
        · rename_i p t hp
          cases h
          exact .readerDisconnect hr hi hslot hp
        · rename_i hp
          cases h
          exact .readerBlock hr hi hslot (acquirePacket_eq_none.1 hp)
    · rename_i hi
      cases h
      exact .readerLoopEnd hr (Nat.le_of_not_lt hi)
  | disconnectAcquiring i o =>
    rw [hr] at h
    obtain ⟨⟨p, t⟩, hp, rfl⟩ := Option.map_eq_some_iff.1 h
    exact .readerDisconnectLate hr hp
  | waitingStreams =>
    simp only [hr] at h
    split at h
    · rename_i he
      cases h
      exact .readerStreamsStopped hr he
    · cases h
  | waitingWriter =>
    simp only [hr] at h
    split at h
    · rename_i he
      cases h
      exact .readerWriterStopped hr he
    · cases h
  | stopped => simp [hr] at h
  | starting => simp [hr] at h
  | reading p => simp [hr] at h

theorem turn_of_writerStep {s s' : StreamProcessor} (h : s.writerStep = some s') : Turn s .writer s' := by
  unfold writerStep at h
  split at h
  · rename_i p queue hw hq
    cases h
    exact .writerGet hw hq
  · rename_i p queue hw hq
    cases h
    exact .writerSkip hw hq
  · rename_i queue hw hq
    cases h
    exact .writerEnd (Or.inl hw) hq
  · rename_i queue hw hq
    cases h
    exact .writerEnd (Or.inr hw) hq
  · cases h

theorem turn_of_writerResult {s s' : StreamProcessor} {result : FfResult} (h : s.writerResult result = some s') :
    Turn s (.writerResult result) s' := by
  unfold writerResult at h
  split at h
  · rename_i p hw
    cases h
    exact .writeOk hw
  · rename_i p hw
    cases h
    exact .writeFail hw
  · rename_i hw
    cases h
    exact .flushOk hw
  · rename_i hw
    cases h
    exact .flushFail hw
  · cases h

/-- **Every shared step is one of the turns.** -/
theorem turn_of_event {s s' : StreamProcessor} {e : Event} (h : s.event e = some s') : Turn s e s' := by
  cases e with
  | read o len =>
    simp only [event, StreamProcessor.read] at h
    split at h
    · rename_i hg
      cases h
      exact .read hg.1 hg.2
    · cases h
  | get o =>
    simp only [event, StreamProcessor.get] at h
    split at h
    · rename_i len buf hf
      split at h
      · rename_i ho
        split at h
        · rename_i released ps outcome hnext
          cases h
          exact .get ho hf hnext
        · cases h
      · cases h
    · cases h
  | timeout o =>
    simp only [event, StreamProcessor.timeout] at h
    split at h
    · rename_i len buf hf
      split at h
      · rename_i hg
        cases h
        exact .timeout hg.1 hf hg.2
      · cases h
    · cases h
  | write o buf =>
    simp only [event, StreamProcessor.write] at h
    split at h
    · rename_i hg
      split at h
      · rename_i hw
        cases h
        exact .writeFirst hg.1 hg.2 hw
      · rename_i p hw
        split at h
        · cases h
        · rename_i hlast
          cases h
          exact .writeMore hg.1 hg.2 hw (Bool.not_eq_true _ ▸ hlast)
    · cases h
  | flush o =>
    simp only [event, StreamProcessor.flush] at h
    split at h
    · rename_i hg
      split at h
      · cases h
      · rename_i p hw
        split at h
        · cases h
        · rename_i hlast
          cases h
          exact .flush hg.1 hg.2 hw (Bool.not_eq_true _ ▸ hlast)
    · cases h
  | acquire o =>
    simp only [event, StreamProcessor.acquire] at h
    split at h
    · rename_i type rest hf
      split at h
      · rename_i hg
        cases h
        exact .acquire hg.1 hf hg.2
      · cases h
    · cases h
  | reader => exact turn_of_readerStep h
  | readerFail =>
    simp only [event, StreamProcessor.readerFail] at h
    split at h
    · rename_i p hr
      cases h
      exact .readerFail hr
    · cases h
  | writer => exact turn_of_writerStep h
  | writerResult result => exact turn_of_writerResult h

end StreamProcessor
end Mrpc
