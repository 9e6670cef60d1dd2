import MultiplexingRpc.AssertingServer
import MultiplexingRpc.RequestIds
/-!
# AssertingClient — the client's stream processor with its assertions

The functions of `mrpc_client_stream_processor.c` once more, each `ff_assert` where the source has it, with the bitmap
of the request ids, whose assertions count as well.  What the two stream processors have word for word in common (the
packets, the packet streams, most of the reader's loop, the writer's turns) is taken from the server's.
-/
namespace Mrpc

/-- `struct mrpc_client_stream_processor` with the pool of its request streams, and the connection, `NULL` when there is
none. -/
structure ClientProcessor where
  client : PooledClient
  stream : Option Nat

namespace ClientProcessor

/-- What happens to a processor.  `writerStart`: the writer's fiber starts; `wake o`: a caller that waits for a request
stream gets `o`; `delete`: the client gives the processor up. -/
inductive Call where
  | event (e : StreamProcessor.Event)
  | processStream (stream : Option Nat)
  | writerStart
  | createRequestStream (o : StreamNo)
  | wake (o : StreamNo)
  | receive (f : Frame)
  | deleteRequestStream (o : StreamNo)
  | stopAsync
  | delete
  deriving DecidableEq, Repr

def core (s : ClientProcessor) : StreamProcessor := s.client.client.core

def withCore (s : ClientProcessor) (core : StreamProcessor) : ClientProcessor :=
  { s with client := { s.client with client := { s.client.client with core := core } } }

/-- A turn that leaves the connection alone. -/
def onCore (s : ClientProcessor) (r : Option StreamProcessor) : Option ClientProcessor := r.map s.withCore

/-- The processor as far as it is like the server's; no turn that they share looks at a handler. -/
def shared (s : ClientProcessor) : ServerProcessor := ⟨s.core, s.stream, none, s.stream⟩

/-- A turn that the client's code shares with the server's. -/
def sharing (s : ClientProcessor) (r : Except Fault (Option ServerProcessor)) : Except Fault (Option ClientProcessor) := do
  let t ← r
  .ok (s.onCore (t.map ServerProcessor.core))

/-- `mrpc_client_stream_processor_create`. -/
def create : Except Fault ClientProcessor := do
  let client ← PooledClient.create
  .ok ⟨client, none⟩

/-- `mrpc_client_stream_processor_stop_async`. -/
def stopAsync (s : ClientProcessor) : Except Fault ClientProcessor :=
  if s.core.state = .working then do
    ffAssert (s.stream ≠ none)
    .ok (s.withCore { s.core with state := .stopInitiated })
  else if s.core.state = .stopped then do
    ffAssert (s.stream = none)
    ffAssert (s.core.activeCnt = 0)
    .ok (s.withCore { s.core with state := .stopInitiated })
  else do
    ffAssert (s.core.state = .stopInitiated)
    .ok s

/-- The reader gives up the connection, up to the loop of `stop_all_request_streams`. -/
def abandon (s : ClientProcessor) (p : Packet) : Except Fault ClientProcessor := do
  let core ← Asserting.releasePacket s.core p
  let s ← (s.withCore core).stopAsync
  ffAssert (s.core.state = .stopInitiated)
  .ok (s.withCore { s.core with reader := .disconnecting 0 })

/-- The loop of `mrpc_client_stream_processor_process_stream` with a packet of the connection. -/
def receive (s : ClientProcessor) (f : Frame) : Except Fault (Option ClientProcessor) :=
  match s.core.reader with
  | .reading p =>
    if f.body.length ≤ maxPacketSize then
      match s.core.active f.requestId with
      | some o => do
        let core ← ServerProcessor.deliver s.core o (p.ofFrame f)
        .ok (some (s.withCore core))
      | none => do
        let s ← s.abandon p
        .ok (some s)
    else .ok none
  | _ => .ok none

/-- `mrpc_packet_read_from_stream` fails. -/
def readerFail (s : ClientProcessor) : Except Fault (Option ClientProcessor) :=
  match s.core.reader with
  | .reading p => do
    let s ← s.abandon p
    .ok (some s)
  | _ => .ok none

/-- The reader's turns that do not hang on the connection: the last one ends `process_stream`. -/
def readerStep (s : ClientProcessor) : Except Fault (Option ClientProcessor) :=
  match s.core.reader with
  | .waitingWriter =>
    if s.core.writerStopEvent then
      .ok (some { s.withCore { s.core with writerStopEvent := false, state := .stopped, reader := .stopped } with
        stream := none })
    else .ok none
  | _ => s.sharing s.shared.readerStep

/-- The writer gives up the connection, up to the loop of `skip_writer_queue_packets`. -/
def skip (s : ClientProcessor) : Except Fault ClientProcessor := do
  let s ← s.stopAsync
  ffAssert (s.core.state = .stopInitiated)
  .ok (s.withCore { s.core with writer := .skipping })

/-- `mrpc_packet_write_to_stream` or `ff_stream_flush` returns `result`. -/
def writerResult (s : ClientProcessor) (result : FfResult) : Except Fault (Option ClientProcessor) :=
  match s.core.writer, result with
  | .writing p, .success => do
    let core ← Asserting.releasePacket s.core p
    .ok (some (s.withCore { core with writer := if s.core.writerQueue = [] then .flushing else .getting }))
  | .writing p, .failure => do
    let core ← Asserting.releasePacket s.core p
    let s ← (s.withCore core).skip
    .ok (some s)
  | .flushing, .success => .ok (some (s.withCore { s.core with writer := .getting }))
  | .flushing, .failure => do
    let s ← s.skip
    .ok (some s)
  | _, _ => .ok none

/-- A turn of one of the fibers. -/
def event (s : ClientProcessor) : StreamProcessor.Event → Except Fault (Option ClientProcessor)
  | .reader => s.readerStep
  | .readerFail => s.readerFail
  | .writerResult result => s.writerResult result
  | e => s.sharing (s.shared.event e)

/-- `mrpc_client_stream_processor_process_stream` up to its loop, or all of it if told to stop before it began. -/
def processStream (s : ClientProcessor) (stream : Option Nat) : Except Fault (Option ClientProcessor) :=
  if s.core.reader = .stopped then do
    ffAssert (s.stream = none)
    ffAssert (s.core.activeCnt = 0)
    ffAssert (s.core.state ≠ .working)
    if s.core.state = .stopInitiated then .ok (some (s.withCore { s.core with state := .stopped }))
    else do
      ffAssert (s.core.state = .stopped)
      .ok (some { s.withCore { s.core with
        state := .working, writer := .getting, streamsStopEvent := true, reader := .acquiring } with stream := stream })
  else .ok none

/-- `stream_writer_func` up to its loop. -/
def writerStart (s : ClientProcessor) : Except Fault (Option ClientProcessor) :=
  if s.core.writer = .getting then do
    ffAssert (s.stream ≠ none)
    ffAssert (s.core.state ≠ .stopped)
    .ok (some s)
  else .ok none

/-- `ff_pool_acquire_entry` hands out `o`, which was made before or is the next one for `create_request_stream` to make. -/
def acquireEntry (s : ClientProcessor) (o : StreamNo) : Except Fault (Option (RequestId × PooledClient)) :=
  if o.val < s.client.created then .ok (some (s.core.requestIds o, s.client))
  else if o.val = s.client.created then do
    ffAssert (s.core.state ≠ .stopped)
    ffAssert (0 < maxPacketsCnt)
    -- `acquire_request_id`
    ffAssert (s.core.state ≠ .stopped)
    let (requestId, bitmap) ← PooledClient.acquireRequestId s.client.requestStreamsBitmap
    .ok (some (requestId, { s.client with created := s.client.created + 1, requestStreamsBitmap := bitmap }))
  else .ok none

/-- `acquire_request_stream` with what its pool hands out. -/
def acquireRequestStream (s : ClientProcessor) (o : StreamNo) : Except Fault (Option PooledClient) := do
  let acquired ← s.acquireEntry o
  match acquired with
  | none => .ok none
  | some (requestId, x) => do
    ffAssert (x.client.core.active requestId = none)
    let _ ← Asserting.initialise (x.client.core.streams o) requestId
    ffAssert (x.client.core.activeCnt + 1 ≤ maxRequestStreamsCnt)
    .ok (some { x with client := { x.client with core := x.client.core.enter requestId o } })

/-- `mrpc_client_stream_processor_create_request_stream`. -/
def createRequestStream (s : ClientProcessor) (o : StreamNo) : Except Fault (Option ClientProcessor) :=
  if s.core.state = .working then do
    ffAssert (s.core.state = .working)
    ffAssert (s.core.activeCnt ≤ maxRequestStreamsCnt)
    ffAssert (s.core.state ≠ .stopped)
    if s.core.owned o then
      if ∀ o, s.core.owned o then
        .ok (some { s with client := { s.client with
          client := { s.client.client with waiters := s.client.client.waiters + 1 } } })
      else .ok none
    else do
      let client ← s.acquireRequestStream o
      .ok (client.map fun client => { s with client := client })
  else .ok (some s)

/-- A caller that waits inside `ff_pool_acquire_entry` goes on. -/
def wake (s : ClientProcessor) (o : StreamNo) : Except Fault (Option ClientProcessor) :=
  if 0 < s.client.client.waiters ∧ ¬ s.core.owned o then do
    let client ← s.acquireRequestStream o
    .ok (client.map fun x => { s with client := { x with client := { x.client with waiters := x.client.waiters - 1 } } })
  else .ok none

/-- `delete_request_stream_wrapper`. -/
def deleteRequestStream (s : ClientProcessor) (o : StreamNo) : Except Fault (Option ClientProcessor) :=
  if s.core.owned o ∧ s.core.fibers o = .running then do
    let core ← Asserting.releaseStream s.core o
    .ok (some (s.withCore core))
  else .ok none

/-- `delete_request_stream`: `release_request_id` and `mrpc_packet_stream_delete`. -/
def deletePooled (core : StreamProcessor) (bitmap : Bitmap) (n : Nat) : Except Fault Bitmap := do
  let bitmap ← bitmap.releaseBit (core.requestIds (Fin.ofNat 256 n)).val
  let _ ← Asserting.initialise (core.streams (Fin.ofNat 256 n)) 0
  .ok bitmap

/-- `mrpc_client_stream_processor_delete`, with the packets and request streams of its pools. -/
def delete (s : ClientProcessor) : Except Fault (Option ClientProcessor) :=
  if s.core.reader = .stopped then do
    ffAssert (s.stream = none)
    ffAssert (s.core.activeCnt = 0)
    ffAssert (s.core.state ≠ .working)
    s.core.packetsPool.free.forM Asserting.deletePacket
    let _ ← (List.range s.client.created).foldlM (deletePooled s.core) s.client.requestStreamsBitmap
    .ok none
  else .ok none

/-- The processor with its assertions. -/
def call (s : ClientProcessor) : Call → Except Fault (Option ClientProcessor)
  | .event e => s.event e
  | .processStream stream => s.processStream stream
  | .writerStart => s.writerStart
  | .createRequestStream o => s.createRequestStream o
  | .wake o => s.wake o
  | .receive f => s.receive f
  | .deleteRequestStream o => s.deleteRequestStream o
  | .stopAsync => do
    let s ← s.stopAsync
    .ok (some s)
  | .delete => s.delete

end ClientProcessor
end Mrpc
