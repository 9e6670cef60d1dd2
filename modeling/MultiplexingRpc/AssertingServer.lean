import MultiplexingRpc.PacketPlaces
/-!
# AssertingServer — the server's stream processor with its assertions

The functions of `mrpc_packet.c`, `mrpc_packet_stream.c` and `mrpc_server_stream_processor.c` once more, each `ff_assert`
where the source has it: a run stops at the first one that fails.  Assertions that a C type leaves open and the model's
types settle are not repeated (`len >= 0`, a packet that is not `NULL`, the fields a request stream is made with).

An assertion in front of a wait is checked when the fiber gets there and once more when the wait is over; the fibers that
`ff_core_fiberpool_execute_async` starts may check theirs at any time.
-/
namespace Mrpc
namespace Asserting

open StreamProcessor (Event lastPacket)

/-! ## `mrpc_packet.c` -/

/-- `mrpc_packet_read_data`. -/
def readData (p : Packet) (len : Nat) : Except Fault (List UInt8 × Packet) := do
  ffAssert (p.currPos ≤ p.body.length)
  ffAssert (p.body.length ≤ maxPacketSize)
  .ok (p.readData len)

/-- `mrpc_packet_write_data`. -/
def writeData (p : Packet) (buf : List UInt8) : Except Fault (Packet × List UInt8) := do
  ffAssert (p.currPos = 0)
  ffAssert (p.body.length ≤ maxPacketSize)
  .ok (p.writeData buf)

/-- `mrpc_packet_read_from_stream`, before it reads. -/
def readFromStream (p : Packet) : Except Fault Unit := do
  ffAssert (p.currPos = 0)
  ffAssert (p.body.length = 0)

/-- `mrpc_packet_write_to_stream`, before it writes. -/
def writeToStream (p : Packet) : Except Fault Unit := do
  ffAssert (p.currPos = 0)
  ffAssert (p.body.length ≤ maxPacketSize)

/-- `mrpc_packet_delete`. -/
def deletePacket (p : Packet) : Except Fault Unit := do
  ffAssert (p.currPos = 0)
  ffAssert (p.body.length = 0)

/-! ## `mrpc_packet_stream.c` -/

/-- `mrpc_packet_stream_initialize`; `mrpc_packet_stream_delete` checks the same. -/
def initialise (ps : PacketStream) (requestId : RequestId) : Except Fault PacketStream := do
  ffAssert (ps.currentReadPacket = none)
  ffAssert (ps.currentWritePacket = none)
  ffAssert (ps.requestId = 0)
  .ok (ps.initialise requestId)

/-- The loop of `mrpc_packet_stream_read`. -/
def copy (current : Packet) (len : Nat) (buf : List UInt8) : Except Fault (Packet × ReadOutcome) := do
  let (bytes, current) ← readData current len
  ffAssert (bytes.length ≤ len)
  if len - bytes.length = 0 then .ok (current, .success (buf ++ bytes))
  else if current.type.isLast then .ok (current, .failure)
  else .ok (current, .waits (len - bytes.length) (buf ++ bytes))

/-- `mrpc_packet_stream_read` up to its first wait. -/
def readStream (ps : PacketStream) (len : Nat) : Except Fault (PacketStream × ReadOutcome) :=
  match ps.currentReadPacket with
  | none => do
    ffAssert (ps.currentReadPacket = none)
    .ok (ps, .waits len [])
  | some current => do
    let (current, outcome) ← copy current len []
    .ok ({ ps with currentReadPacket := some current }, outcome)

/-- A read that waits takes the next packet. -/
def readNext (ps : PacketStream) (len : Nat) (buf : List UInt8) :
    Except Fault (Option (Option Packet × PacketStream × ReadOutcome)) :=
  match ps.readerQueue, ps.currentReadPacket with
  | [], _ => .ok none
  | p :: queue, none =>
    if p.type.isFirst then do
      let (current, outcome) ← copy p len buf
      .ok (some (none, { ps with readerQueue := queue, currentReadPacket := some current }, outcome))
    else .ok (some (some p, { ps with readerQueue := queue }, .failure))
  | p :: queue, some current =>
    if p.type.isFirst then .ok (some (some p, { ps with readerQueue := queue }, .failure))
    else do
      let (next, outcome) ← copy p len buf
      .ok (some (some current, { ps with readerQueue := queue, currentReadPacket := some next }, outcome))

/-! ## Packets and request streams -/

/-- `acquire_server_packet` and `create_packet`. -/
def acquirePacket (s : StreamProcessor) : Except Fault (Option (Packet × StreamProcessor)) := do
  ffAssert (s.state ≠ .stopped)
  .ok s.acquirePacket

/-- `release_server_packet`. -/
def releasePacket (s : StreamProcessor) (p : Packet) : Except Fault StreamProcessor := do
  ffAssert (s.state ≠ .stopped)
  .ok (s.releasePacket p)

def releasePackets (s : StreamProcessor) (ps : List Packet) : Except Fault StreamProcessor := ps.foldlM releasePacket s

/-- `acquire_request_stream` with what its pool hands out.  A pool with nothing to hand out would make it wait. -/
def acquireRequestStream (s : StreamProcessor) (r : RequestId) (o : StreamNo) :
    Except Fault (Option StreamProcessor) := do
  ffAssert (s.activeCnt ≤ maxRequestStreamsCnt)
  ffAssert (s.state ≠ .stopped)
  if ∀ i, s.owned i then .error .blocked
  else if s.owned o then .ok none
  else do
    -- `create_request_stream`, `mrpc_packet_stream_create`
    ffAssert (s.state ≠ .stopped)
    ffAssert (0 < maxPacketsCnt)
    ffAssert (s.active r = none)
    let _ ← initialise (s.streams o) r
    ffAssert (s.activeCnt + 1 ≤ maxRequestStreamsCnt)
    .ok (some (s.enter r o))

/-- `release_current_write_packet`. -/
def checkWritePacket : Option Packet → Except Fault Unit
  | some p => ffAssert (p.type ≠ .single)
  | none => .ok ()

/-- `mrpc_packet_stream_shutdown`. -/
def shutdown (s : StreamProcessor) (o : StreamNo) : Except Fault StreamProcessor := do
  checkWritePacket (s.streams o).currentWritePacket
  let s' ← releasePackets s (s.streams o).packets
  .ok (s'.setStream o (s.streams o).shutdown)

/-- `release_request_stream`. -/
def releaseStream (s : StreamProcessor) (o : StreamNo) : Except Fault StreamProcessor := do
  ffAssert (s.state ≠ .stopped)
  ffAssert (0 < s.activeCnt)
  ffAssert (s.activeCnt ≤ maxRequestStreamsCnt)
  ffAssert (s.active (s.requestIds o) = some o)
  let s ← shutdown s o
  .ok { s with
    active := Function.update s.active (s.requestIds o) none
    activeCnt := s.activeCnt - 1
    streamsStopEvent := if s.activeCnt - 1 = 0 then true else s.streamsStopEvent }

/-! ## The owner of a stream -/

/-- The loop of `mrpc_packet_stream_write`, with the current packet in hand, up to its next wait. -/
def fillWritePacket (s : StreamProcessor) (o : StreamNo) (p : Packet) (buf : List UInt8) :
    Except Fault StreamProcessor := do
  let (p, rest) ← writeData p buf
  ffAssert (rest.length ≤ buf.length)
  if rest = [] then
    .ok ((s.setStream o { s.streams o with currentWritePacket := some p }).setFiber o .running)
  else do
    -- `acquire_packet`, `acquire_server_packet`
    ffAssert (PacketType.middle ≠ .single)
    ffAssert (s.state ≠ .stopped)
    .ok (((s.setStream o { s.streams o with currentWritePacket := none }).putPacket p).setFiber o
      (.acquiring .middle rest))

/-- `acquire_packet` of the packet stream, and the loop after it. -/
def acquireWritePacket (s : StreamProcessor) (o : StreamNo) (type : PacketType) (rest : List UInt8) :
    Except Fault StreamProcessor := do
  ffAssert (type ≠ .single)
  let acquired ← acquirePacket s
  match acquired with
  | some (p, s) => fillWritePacket s o { p with type := type, requestId := (s.streams o).requestId } rest
  | none => .ok (s.setFiber o (.acquiring type rest))

/-- `mrpc_packet_stream_read`. -/
def read (s : StreamProcessor) (o : StreamNo) (len : Nat) : Except Fault (Option StreamProcessor) :=
  if s.owned o ∧ s.fibers o = .running then do
    let (ps, outcome) ← readStream (s.streams o) len
    .ok (some ((s.setStream o ps).setFiber o outcome.fiber))
  else .ok none

/-- What a read does with the packet it took. -/
def readTaken (s : StreamProcessor) (o : StreamNo) :
    Option (Option Packet × PacketStream × ReadOutcome) → Except Fault (Option StreamProcessor)
  | none => .ok none
  | some (released, ps, outcome) => do
    let s ← releasePackets ((s.setStream o ps).setFiber o outcome.fiber) released.toList
    .ok (some s)

/-- A read's wait ends with a packet. -/
def get (s : StreamProcessor) (o : StreamNo) : Except Fault (Option StreamProcessor) :=
  match s.fibers o with
  | .reading len buf =>
    if s.owned o then do
      let taken ← readNext (s.streams o) len buf
      readTaken s o taken
    else .ok none
  | _ => .ok none

/-- `mrpc_packet_stream_write`. -/
def write (s : StreamProcessor) (o : StreamNo) (buf : List UInt8) : Except Fault (Option StreamProcessor) :=
  if s.owned o ∧ s.fibers o = .running then
    match (s.streams o).currentWritePacket with
    | none => do
      let s ← acquireWritePacket s o .start buf
      .ok (some s)
    | some p => do
      ffAssert (p.type = .start ∨ p.type = .middle)
      let s ← fillWritePacket s o p buf
      .ok (some s)
  else .ok none

/-- `mrpc_packet_stream_flush`. -/
def flush (s : StreamProcessor) (o : StreamNo) : Except Fault (Option StreamProcessor) :=
  if s.owned o ∧ s.fibers o = .running then
    match (s.streams o).currentWritePacket with
    | none => .error .assertion
    | some p => do
      ffAssert (p.type = .start ∨ p.type = .middle)
      let s ← acquireWritePacket ((s.setStream o { s.streams o with currentWritePacket := none }).putPacket
        (lastPacket p)) o .end_ []
      .ok (some s)
  else .ok none

/-- The wait for a free packet, in a write or a flush, ends. -/
def acquire (s : StreamProcessor) (o : StreamNo) : Except Fault (Option StreamProcessor) :=
  match s.fibers o with
  | .acquiring type rest =>
    if s.owned o ∧ ¬ s.packetsPool.exhausted then do
      let s ← acquireWritePacket s o type rest
      .ok (some s)
    else .ok none
  | _ => .ok none

end Asserting

/-! ## `mrpc_server_stream_processor.c` -/

/-- `struct mrpc_server_stream_processor` with what its assertions read besides: the pointers that are `NULL` between
two connections. -/
structure ServerProcessor where
  core : StreamProcessor
  streamHandler : Option Nat
  serviceCtx : Option Nat
  stream : Option Nat

/-- What happens to a processor.  `writerStart` and `processRequest o`: the writer's fiber and the one of a handler start;
`delete`: the server gives the processor up. -/
inductive Call where
  | event (e : StreamProcessor.Event)
  | start (streamHandler serviceCtx stream : Option Nat)
  | readerStart
  | writerStart
  | receive (f : Frame) (o : StreamNo)
  | processRequest (o : StreamNo)
  | handlerReturn (o : StreamNo) (result : FfResult)
  | stopAsync
  | delete
  deriving DecidableEq, Repr

namespace ServerProcessor

/-- `mrpc_server_stream_processor_create`. -/
def create : ServerProcessor := ⟨ServerStreamProcessor.create, none, none, none⟩

/-- A turn that leaves the pointers alone. -/
def onCore (s : ServerProcessor) (r : Option StreamProcessor) : Option ServerProcessor :=
  r.map fun core => { s with core := core }

/-- `mrpc_server_stream_processor_stop_async`. -/
def stopAsync (s : ServerProcessor) : Except Fault ServerProcessor := do
  ffAssert (s.core.state ≠ .stopped)
  if s.core.state = .working then do
    ffAssert (s.stream ≠ none)
    .ok { s with core := { s.core with state := .stopInitiated } }
  else do
    ffAssert (s.core.state = .stopInitiated)
    .ok s

/-- The reader gives up the connection, up to the loop of `stop_all_request_streams`. -/
def abandon (s : ServerProcessor) (p : Packet) : Except Fault ServerProcessor := do
  let core ← Asserting.releasePacket s.core p
  let s ← { s with core := core }.stopAsync
  ffAssert (s.core.state = .stopInitiated)
  .ok { s with core := { s.core with reader := .disconnecting 0 } }

/-- The reader pushes the packet it read and goes on, up to `acquire_server_packet`. -/
def deliver (s : StreamProcessor) (o : StreamNo) (p : Packet) : Except Fault StreamProcessor := do
  ffAssert (s.state ≠ .stopped)
  .ok (s.deliver o p)

/-- The loop of `stream_reader_func` with a packet of the connection. -/
def receive (s : ServerProcessor) (f : Frame) (o : StreamNo) : Except Fault (Option ServerProcessor) :=
  match s.core.reader with
  | .reading p =>
    if f.body.length ≤ maxPacketSize then
      match f.type.isFirst, s.core.active f.requestId with
      | true, some _ => do
        let s ← s.abandon p
        .ok (some s)
      | true, none => do
        let acquired ← Asserting.acquireRequestStream s.core f.requestId o
        match acquired with
        | none => .ok none
        | some core => do
          let core ← deliver core o (p.ofFrame f)
          .ok (some { s with core := core })
      | false, some o => do
        let core ← deliver s.core o (p.ofFrame f)
        .ok (some { s with core := core })
      | false, none => do
        let s ← s.abandon p
        .ok (some s)
    else .ok none
  | _ => .ok none

/-- `mrpc_packet_read_from_stream` fails. -/
def readerFail (s : ServerProcessor) : Except Fault (Option ServerProcessor) :=
  match s.core.reader with
  | .reading p => do
    let s ← s.abandon p
    .ok (some s)
  | _ => .ok none

/-- The reader got a packet: `mrpc_packet_read_from_stream` starts. -/
def readerAcquired : Option (Packet × StreamProcessor) → Except Fault (Option StreamProcessor)
  | none => .ok none
  | some (p, s) => do
    Asserting.readFromStream p
    .ok (some { s with reader := .reading p })

/-- `mrpc_packet_stream_disconnect`. -/
def disconnect (s : StreamProcessor) (i : Nat) (o : StreamNo) : Except Fault StreamProcessor := do
  ffAssert (PacketType.end_ ≠ .single)
  let acquired ← Asserting.acquirePacket s
  match acquired with
  | some (p, s) => .ok { s.pushDisconnect o p with reader := .disconnecting (i + 1) }
  | none => .ok { s with reader := .disconnectAcquiring i o }

/-- The reader's turns that do not hang on the connection. -/
def readerStep (s : ServerProcessor) : Except Fault (Option ServerProcessor) :=
  match s.core.reader with
  | .acquiring => do
    let acquired ← Asserting.acquirePacket s.core
    let core ← readerAcquired acquired
    .ok (s.onCore core)
  | .disconnecting i =>
    if h : i < maxRequestStreamsCnt then
      match s.core.active ⟨i, h⟩ with
      | none => .ok (some { s with core := { s.core with reader := .disconnecting (i + 1) } })
      | some o => do
        let core ← disconnect s.core i o
        .ok (some { s with core := core })
    else .ok (some { s with core := { s.core with reader := .waitingStreams } })
  | .disconnectAcquiring i o => do
    let acquired ← Asserting.acquirePacket s.core
    .ok (s.onCore (acquired.map fun (p, core) => { core.pushDisconnect o p with reader := .disconnecting (i + 1) }))
  | .waitingStreams =>
    if s.core.streamsStopEvent then do
      ffAssert (s.core.activeCnt = 0)
      -- `stop_stream_writer`
      ffAssert (s.core.state = .stopInitiated)
      .ok (some { s with core := { s.core with
        streamsStopEvent := false
        writerQueue := s.core.writerQueue ++ [none]
        reader := .waitingWriter } })
    else .ok none
  | .waitingWriter =>
    if s.core.writerStopEvent then
      .ok (some ⟨{ s.core with writerStopEvent := false, state := .stopped, reader := .stopped }, none, none, none⟩)
    else .ok none
  | _ => .ok none

/-- The writer's turns that do not hang on the connection. -/
def writerStep (s : StreamProcessor) : Except Fault (Option StreamProcessor) :=
  match s.writer, s.writerQueue with
  | .getting, some p :: queue => do
    Asserting.writeToStream p
    .ok (some { s with writerQueue := queue, writer := .writing p })
  | .skipping, some p :: queue => do
    let s ← Asserting.releasePacket { s with writerQueue := queue } p
    .ok (some s)
  | .getting, none :: queue => do
    ffAssert (s.state = .stopInitiated)
    ffAssert (queue = [])
    .ok (some { s with writerQueue := queue, writer := .stopped, writerStopEvent := true })
  | .skipping, none :: queue => do
    ffAssert (queue = [])
    .ok (some { s with writerQueue := queue, writer := .stopped, writerStopEvent := true })
  | _, _ => .ok none

/-- The writer gives up the connection, up to the loop of `skip_writer_queue_packets`. -/
def skip (s : ServerProcessor) : Except Fault ServerProcessor := do
  let s ← s.stopAsync
  ffAssert (s.core.state = .stopInitiated)
  .ok { s with core := { s.core with writer := .skipping } }

/-- `mrpc_packet_write_to_stream` or `ff_stream_flush` returns `result`. -/
def writerResult (s : ServerProcessor) (result : FfResult) : Except Fault (Option ServerProcessor) :=
  match s.core.writer, result with
  | .writing p, .success => do
    let core ← Asserting.releasePacket s.core p
    .ok (some { s with core := { core with writer := if s.core.writerQueue = [] then .flushing else .getting } })
  | .writing p, .failure => do
    let core ← Asserting.releasePacket s.core p
    let s ← { s with core := core }.skip
    .ok (some s)
  | .flushing, .success => .ok (some { s with core := { s.core with writer := .getting } })
  | .flushing, .failure => do
    let s ← s.skip
    .ok (some s)
  | _, _ => .ok none

/-- A turn of one of the fibers. -/
def event (s : ServerProcessor) : StreamProcessor.Event → Except Fault (Option ServerProcessor)
  | .read o len => do
    let core ← Asserting.read s.core o len
    .ok (s.onCore core)
  | .get o => do
    let core ← Asserting.get s.core o
    .ok (s.onCore core)
  | .timeout o => .ok (s.onCore (s.core.timeout o))
  | .write o buf => do
    let core ← Asserting.write s.core o buf
    .ok (s.onCore core)
  | .flush o => do
    let core ← Asserting.flush s.core o
    .ok (s.onCore core)
  | .acquire o => do
    let core ← Asserting.acquire s.core o
    .ok (s.onCore core)
  | .reader => s.readerStep
  | .readerFail => s.readerFail
  | .writer => do
    let core ← writerStep s.core
    .ok (s.onCore core)
  | .writerResult result => s.writerResult result

/-- `mrpc_server_stream_processor_start`, on a processor that has no connection. -/
def start (s : ServerProcessor) (streamHandler serviceCtx stream : Option Nat) :
    Except Fault (Option ServerProcessor) :=
  if s.core.reader = .stopped then do
    ffAssert (streamHandler ≠ none)
    ffAssert (stream ≠ none)
    ffAssert (s.streamHandler = none)
    ffAssert (s.serviceCtx = none)
    ffAssert (s.stream = none)
    ffAssert (s.core.state = .stopped)
    .ok (some ⟨{ s.core with state := .working, reader := .starting }, streamHandler, serviceCtx, stream⟩)
  else .ok none

/-- `stream_reader_func` up to its loop. -/
def readerStart (s : ServerProcessor) : Except Fault (Option ServerProcessor) :=
  if s.core.reader = .starting then do
    ffAssert (s.core.activeCnt = 0)
    ffAssert (s.streamHandler ≠ none)
    ffAssert (s.stream ≠ none)
    ffAssert (s.core.state ≠ .stopped)
    .ok (some { s with core := { s.core with writer := .getting, streamsStopEvent := true, reader := .acquiring } })
  else .ok none

/-- `stream_writer_func` up to its loop. -/
def writerStart (s : ServerProcessor) : Except Fault (Option ServerProcessor) :=
  if s.core.writer = .getting then do
    ffAssert (s.stream ≠ none)
    ffAssert (s.core.state ≠ .stopped)
    .ok (some s)
  else .ok none

/-- `process_request_func` up to the call of the handler. -/
def processRequest (s : ServerProcessor) (o : StreamNo) : Except Fault (Option ServerProcessor) :=
  if s.core.owned o ∧ s.core.fibers o = .running then do
    ffAssert (s.streamHandler ≠ none)
    .ok (some s)
  else .ok none

/-- The end of `process_request_func`. -/
def handlerReturn (s : ServerProcessor) (o : StreamNo) (result : FfResult) : Except Fault (Option ServerProcessor) :=
  if s.core.owned o ∧ s.core.fibers o = .running then
    match result with
    | .success => do
      let core ← Asserting.releaseStream s.core o
      .ok (some { s with core := core })
    | .failure => do
      let s ← s.stopAsync
      let core ← Asserting.releaseStream s.core o
      .ok (some { s with core := core })
  else .ok none

/-- `mrpc_server_stream_processor_delete`, with the packets and request streams of its pools. -/
def delete (s : ServerProcessor) : Except Fault (Option ServerProcessor) :=
  if s.core.reader = .stopped then do
    ffAssert (s.streamHandler = none)
    ffAssert (s.serviceCtx = none)
    ffAssert (s.stream = none)
    ffAssert (s.core.activeCnt = 0)
    ffAssert (s.core.state = .stopped)
    s.core.packetsPool.free.forM Asserting.deletePacket
    (List.finRange 256).forM fun o => (Asserting.initialise (s.core.streams o) 0).map fun _ => ()
    .ok none
  else .ok none

/-- The processor with its assertions. -/
def call (s : ServerProcessor) : Call → Except Fault (Option ServerProcessor)
  | .event e => s.event e
  | .start streamHandler serviceCtx stream => s.start streamHandler serviceCtx stream
  | .readerStart => s.readerStart
  | .writerStart => s.writerStart
  | .receive f o => s.receive f o
  | .processRequest o => s.processRequest o
  | .handlerReturn o result => s.handlerReturn o result
  | .stopAsync => do
    let s ← s.stopAsync
    .ok (some s)
  | .delete => s.delete

end ServerProcessor
end Mrpc
