import MultiplexingRpc.StreamProcessor
/-!
# PacketAccounting — where the packets are

Every packet the pool made is free in the pool, or in one place of the processor: the writer queue, the hand of the
reader or of the writer, or one request stream.  `Conserved s loose` says this of a processor in the middle of a turn,
with the packets `loose` in the hand of the fiber whose turn it is.
-/
namespace Mrpc

/-- The identities of a list of packets. -/
def addrs (ps : List Packet) : Multiset Nat := (ps.map Packet.addr : Multiset Nat)

@[simp] theorem addrs_nil : addrs [] = 0 := rfl

@[simp] theorem addrs_cons (p : Packet) (ps : List Packet) : addrs (p :: ps) = {p.addr} + addrs ps := rfl

@[simp] theorem addrs_append (ps qs : List Packet) : addrs (ps ++ qs) = addrs ps + addrs qs := by
  simp [addrs]

@[simp] theorem card_addrs (ps : List Packet) : (addrs ps).card = ps.length := by simp [addrs]

/-- The packet in the reader's hand. -/
def Reader.packets : Reader → List Packet
  | .reading p => [p]
  | _ => []

/-- The packet in the writer's hand. -/
def Writer.packets : Writer → List Packet
  | .writing p => [p]
  | _ => []

theorem sum_update_add {M : Type} [AddCommMonoid M] (g : PacketStream → M) (f : StreamNo → PacketStream) (o : StreamNo)
    (ps : PacketStream) : (∑ i, g (Function.update f o ps i)) + g (f o) = (∑ i, g (f i)) + g ps := by
  have h := Finset.sum_update_of_mem (Finset.mem_univ o) (fun i => g (f i)) (g ps)
  have hcongr : ∀ i, g (Function.update f o ps i) = Function.update (fun i => g (f i)) o (g ps) i := fun i => by
    by_cases hi : i = o
    · subst hi; simp
    · simp [hi]
  simp only [hcongr]
  rw [h, add_assoc, add_comm, Finset.sdiff_singleton_eq_erase, Finset.sum_erase_add _ _ (Finset.mem_univ o)]

namespace StreamProcessor

/-- The packets out of the pool. -/
def held (s : StreamProcessor) : Multiset Nat :=
  addrs (s.writerQueue.filterMap id) + addrs s.reader.packets + addrs s.writer.packets +
    ∑ o, addrs (s.streams o).packets

def Conserved (s : StreamProcessor) (loose : List Packet) : Prop :=
  s.packetsPool.Conserved Packet.addr (addrs loose + s.held) ∧ s.packetsPool.capacity = maxPacketsCnt

variable {s s' : StreamProcessor} {loose : List Packet} {p : Packet} {o : StreamNo}

theorem conserved_create : create.Conserved [] := by
  refine ⟨?_, rfl⟩
  have h : addrs [] + create.held = 0 := by
    simp [held, create, PacketStream.packets, PacketStream.create, Reader.packets, Writer.packets]
  rw [h]
  exact Pool.Conserved.empty _ _

theorem acquirePacket_eq (h : s.acquirePacket = some (p, s')) :
    ∃ pool, s.packetsPool.acquire Packet.create = some (p, pool) ∧ s' = { s with packetsPool := pool } := by
  unfold acquirePacket at h
  obtain ⟨⟨q, pool⟩, hq, heq⟩ := Option.map_eq_some_iff.1 h
  cases heq
  exact ⟨pool, hq, rfl⟩

theorem releasePackets_eq : ∀ (ps : List Packet) (s : StreamProcessor),
    s.releasePackets ps = { s with packetsPool := (ps.map Packet.reset).foldl Pool.release s.packetsPool }
  | [], _ => rfl
  | p :: ps, s => releasePackets_eq ps (s.releasePacket p)

namespace Conserved

/-- **A processor that moved its packets about**, and nothing else, is as conserved as before. -/
theorem of_held (h : s.Conserved loose) {loose' : List Packet} (hpool : s'.packetsPool = s.packetsPool)
    (hheld : addrs loose' + s'.held = addrs loose + s.held) : s'.Conserved loose' := by
  unfold Conserved
  rw [hpool, hheld]
  exact h

theorem acquirePacket (h : s.Conserved loose) (hacq : s.acquirePacket = some (p, s')) : s'.Conserved (p :: loose) := by
  obtain ⟨pool, hpool, rfl⟩ := acquirePacket_eq hacq
  refine ⟨?_, (Pool.capacity_acquire hpool).trans h.2⟩
  have := h.1.acquire Packet.addr_create hpool
  rw [addrs_cons, add_assoc, Multiset.singleton_add]
  exact this

theorem releasePacket (h : s.Conserved (p :: loose)) : (s.releasePacket p).Conserved loose := by
  refine ⟨?_, h.2⟩
  have h1 := h.1
  rw [addrs_cons, add_assoc, Multiset.singleton_add] at h1
  exact Pool.Conserved.release (a := p.reset) h1

theorem releasePackets : ∀ (ps : List Packet) {s : StreamProcessor}, s.Conserved (ps ++ loose) →
    (s.releasePackets ps).Conserved loose
  | [], _, h => h
  | p :: ps, _, h => releasePackets ps (releasePacket (p := p) h)

theorem putPacket (h : s.Conserved (p :: loose)) : (s.putPacket p).Conserved loose := by
  refine h.of_held rfl ?_
  simp only [StreamProcessor.putPacket, held, List.filterMap_append, addrs_append, addrs_cons,
    List.filterMap_cons_some (rfl : id (some p) = some p), List.filterMap_nil, addrs_nil]
  abel

theorem setStream (h : s.Conserved loose) {loose' : List Packet} {ps : PacketStream}
    (hps : addrs loose' + addrs ps.packets = addrs loose + addrs (s.streams o).packets) :
    (s.setStream o ps).Conserved loose' := by
  refine h.of_held rfl ?_
  have hsum := sum_update_add (fun ps => addrs ps.packets) s.streams o ps
  refine add_right_cancel (b := addrs (s.streams o).packets) ?_
  simp only [StreamProcessor.setStream, held]
  calc _ = addrs loose' + (addrs (s.writerQueue.filterMap id) + addrs s.reader.packets + addrs s.writer.packets) +
        ((∑ i, addrs (Function.update s.streams o ps i).packets) + addrs (s.streams o).packets) := by abel
    _ = (addrs loose' + addrs ps.packets) +
        (addrs (s.writerQueue.filterMap id) + addrs s.reader.packets + addrs s.writer.packets) +
        ∑ i, addrs (s.streams i).packets := by rw [hsum]; abel
    _ = _ := by rw [hps]; abel

theorem setFiber (h : s.Conserved loose) (f : Fiber) : (s.setFiber o f).Conserved loose := h

theorem setReader (h : s.Conserved loose) {loose' : List Packet} {reader : Reader}
    (hr : addrs loose' + addrs reader.packets = addrs loose + addrs s.reader.packets) :
    { s with reader := reader }.Conserved loose' := by
  refine h.of_held rfl ?_
  simp only [held]
  calc _ = (addrs loose' + addrs reader.packets) + (addrs (s.writerQueue.filterMap id) + addrs s.writer.packets +
        ∑ o, addrs (s.streams o).packets) := by abel
    _ = _ := by rw [hr]; abel

theorem setWriter (h : s.Conserved loose) {loose' : List Packet} {writer : Writer}
    (hw : addrs loose' + addrs writer.packets = addrs loose + addrs s.writer.packets) :
    { s with writer := writer }.Conserved loose' := by
  refine h.of_held rfl ?_
  simp only [held]
  calc _ = (addrs loose' + addrs writer.packets) + (addrs (s.writerQueue.filterMap id) + addrs s.reader.packets +
        ∑ o, addrs (s.streams o).packets) := by abel
    _ = _ := by rw [hw]; abel

theorem pushPacket (h : s.Conserved (p :: loose)) : (s.pushPacket o p).Conserved loose := by
  refine h.setStream ?_
  simp only [PacketStream.packets, PacketStream.pushPacket, addrs_append, addrs_cons, addrs_nil]
  abel

theorem pushDisconnect (h : s.Conserved (p :: loose)) (o : StreamNo) : (s.pushDisconnect o p).Conserved loose :=
  pushPacket (p := { p with type := .end_, requestId := (s.streams o).requestId }) h

/-- With the packet in hand, or current in the stream already. -/
theorem fillWritePacket {loose' : List Packet} (h : s.Conserved loose') (buf : List UInt8)
    (hp : addrs loose' + addrs (s.streams o).currentWritePacket.toList = {p.addr} + addrs loose) :
    (s.fillWritePacket o p buf).Conserved loose := by
  unfold StreamProcessor.fillWritePacket
  dsimp only
  split
  · refine (h.setStream ?_).setFiber _
    simp only [PacketStream.packets, addrs_append, Option.toList_some, addrs_cons, addrs_nil, Packet.addr_writeData]
    calc _ = ({p.addr} + addrs loose) + (addrs (s.streams o).currentReadPacket.toList +
          addrs (s.streams o).readerQueue) := by abel
      _ = _ := by rw [← hp]; abel
  · refine (putPacket (h.setStream ?_)).setFiber _
    simp only [PacketStream.packets, addrs_append, Option.toList_none, addrs_cons, addrs_nil, Packet.addr_writeData]
    calc _ = ({p.addr} + addrs loose) + (addrs (s.streams o).currentReadPacket.toList +
          addrs (s.streams o).readerQueue) := by abel
      _ = _ := by rw [← hp]; abel

theorem acquireWritePacket (h : s.Conserved loose) (hw : (s.streams o).currentWritePacket = none) (type : PacketType)
    (rest : List UInt8) : (s.acquireWritePacket o type rest).Conserved loose := by
  unfold StreamProcessor.acquireWritePacket
  split
  · rename_i p t hp
    have hcons := h.acquirePacket hp
    obtain ⟨pool, -, rfl⟩ := acquirePacket_eq hp
    refine fillWritePacket hcons rest ?_
    simp [hw]
  · exact h.setFiber _

theorem releaseStream (h : s.Conserved loose) : (s.releaseStream o).Conserved loose := by
  have hset : (s.setStream o (s.streams o).shutdown).Conserved ((s.streams o).packets ++ loose) := by
    refine h.setStream ?_
    simp only [PacketStream.shutdown, PacketStream.packets, PacketStream.create, addrs_append, Option.toList_none,
      addrs_nil]
    abel
  have hrel := releasePackets _ hset
  rw [releasePackets_eq] at hrel
  unfold StreamProcessor.releaseStream
  rw [releasePackets_eq]
  exact hrel

theorem enter (h : s.Conserved loose) (r : RequestId) : (s.enter r o).Conserved loose := by
  have hset : (s.setStream o ((s.streams o).initialise r)).Conserved loose := h.setStream rfl
  exact hset

end Conserved

theorem addrs_read (ps : PacketStream) (len : Nat) : addrs (ps.read len).1.packets = addrs ps.packets := by
  rcases ps.read_cases len with ⟨-, heq⟩ | ⟨current, hc, heq⟩
  · rw [heq]
  · rw [heq]
    simp [PacketStream.packets, hc]

theorem addrs_readNext {ps ps' : PacketStream} {len : Nat} {buf : List UInt8} {released : Option Packet}
    {outcome : ReadOutcome} (h : ps.readNext len buf = some (released, ps', outcome)) :
    addrs released.toList + addrs ps'.packets = addrs ps.packets := by
  obtain ⟨p, queue, hq, ⟨-, rfl, rfl, -⟩ | ⟨-, rfl, rfl, -⟩⟩ := PacketStream.readNext_cases h
  · simp only [PacketStream.packets, hq, addrs_append, addrs_cons, Option.toList_some, addrs_nil,
      PacketStream.addr_copy]
    abel
  · simp only [PacketStream.packets, hq, addrs_append, addrs_cons, Option.toList_some, addrs_nil]
    abel

/-! ## Soundness -/

/-- A fiber that waits for a packet to write has none; one that waits for a packet to read is inside a message. -/
def FiberOk : Fiber → PacketStream → Prop
  | .running, _ => True
  | .reading _ _, ps => ∀ p, ps.currentReadPacket = some p → p.type.isLast = false
  | .acquiring _ _, ps => ps.currentWritePacket = none

/-- The request ids whose slot is taken. -/
def activeIds (active : RequestId → Option StreamNo) : Finset RequestId := Finset.univ.filter fun r => (active r).isSome

theorem mem_activeIds {active : RequestId → Option StreamNo} {r : RequestId} :
    r ∈ activeIds active ↔ (active r).isSome = true := by simp [activeIds]

theorem activeIds_enter {active : RequestId → Option StreamNo} (r : RequestId) (o : StreamNo) :
    activeIds (Function.update active r (some o)) = insert r (activeIds active) := by
  ext i
  by_cases hi : i = r
  · subst hi; simp [mem_activeIds]
  · simp [mem_activeIds, hi]

theorem activeIds_leave {active : RequestId → Option StreamNo} (r : RequestId) :
    activeIds (Function.update active r none) = (activeIds active).erase r := by
  ext i
  by_cases hi : i = r
  · subst hi; simp [mem_activeIds]
  · simp [mem_activeIds, hi]

/-- The writer is stopped outside a connection, and the `NULL` that stops it is queued once, at the connection's end. -/
def WriterOk (s : StreamProcessor) : Prop :=
  match s.reader with
  | .stopped => s.writer = .stopped ∧ none ∉ s.writerQueue ∧ s.writerStopEvent = false
  | .starting => s.writer = .stopped ∧ none ∉ s.writerQueue ∧ s.writerStopEvent = false
  | .waitingWriter =>
    (s.writerStopEvent = true ∧ s.writer = .stopped ∧ none ∉ s.writerQueue) ∨
    (s.writerStopEvent = false ∧ s.writerQueue.count none = 1)
  | _ => none ∉ s.writerQueue ∧ s.writerStopEvent = false

/-- What holds of the shared state between any two turns. -/
structure Sound (s : StreamProcessor) : Prop where
  conserved : s.Conserved []
  writerOk : s.WriterOk
  fiberOk : ∀ o, FiberOk (s.fibers o) (s.streams o)
  requestIds : ∀ r o, s.active r = some o → s.requestIds o = r
  activeCnt : s.activeCnt = (activeIds s.active).card

theorem Conserved.turn {e : Event} (h : s.Conserved []) (hok : ∀ o, FiberOk (s.fibers o) (s.streams o))
    (ht : Turn s e s') : s'.Conserved [] := by
  cases ht with
  | read ho hf => exact (h.setStream (by rw [addrs_read])).setFiber _
  | @get o len buf released ps outcome ho hf hnext =>
    have hset : (s.setStream o ps).Conserved released.toList := by
      refine h.setStream ?_
      rw [addrs_readNext hnext, addrs_nil, zero_add]
    refine releasePackets _ ?_
    rw [List.append_nil]
    exact hset.setFiber _
  | timeout ho hf hq => exact h.setFiber _
  | writeFirst ho hf hw => exact h.acquireWritePacket hw _ _
  | writeMore ho hf hw hlast => exact h.fillWritePacket _ (by simp [hw])
  | @flush o p ho hf hw hlast =>
    have hset : (s.setStream o { s.streams o with currentWritePacket := none }).Conserved [lastPacket p] := by
      refine h.setStream ?_
      simp only [PacketStream.packets, hw, addrs_append, Option.toList_some, Option.toList_none, addrs_cons, addrs_nil]
      show ({p.addr} + 0 + _ : Multiset Nat) = _
      abel
    refine (putPacket hset).acquireWritePacket ?_ _ _
    simp [StreamProcessor.putPacket, StreamProcessor.setStream]
  | @acquire o type rest ho hf hpool =>
    have hw := hok o
    rw [hf] at hw
    exact h.acquireWritePacket hw _ _
  | readerAcquire hr hp =>
    have hcons := h.acquirePacket hp
    obtain ⟨pool, -, rfl⟩ := acquirePacket_eq hp
    refine hcons.setReader ?_
    simp [hr, Reader.packets]
  | readerPass hr hi hslot => exact h.setReader (by simp [hr, Reader.packets])
  | @readerDisconnect i o p t hr hi hslot hp =>
    have hcons := (h.acquirePacket hp).pushDisconnect o
    obtain ⟨pool, -, rfl⟩ := acquirePacket_eq hp
    exact hcons.setReader (by simp [StreamProcessor.pushDisconnect, StreamProcessor.pushPacket,
      StreamProcessor.setStream, hr, Reader.packets])
  | readerBlock hr hi hslot hp => exact h.setReader (by simp [hr, Reader.packets])
  | @readerDisconnectLate i o p t hr hp =>
    have hcons := (h.acquirePacket hp).pushDisconnect o
    obtain ⟨pool, -, rfl⟩ := acquirePacket_eq hp
    exact hcons.setReader (by simp [StreamProcessor.pushDisconnect, StreamProcessor.pushPacket,
      StreamProcessor.setStream, hr, Reader.packets])
  | readerLoopEnd hr hi => exact h.setReader (by simp [hr, Reader.packets])
  | readerStreamsStopped hr he =>
    refine h.of_held rfl ?_
    simp [held, hr, Reader.packets]
  | readerWriterStopped hr he =>
    refine h.of_held rfl ?_
    simp [held, hr, Reader.packets]
  | @readerFail p hr =>
    have hset : { s with reader := .disconnecting 0 }.Conserved [p] := h.setReader (by simp [hr, Reader.packets])
    have hrel := releasePacket hset
    exact hrel
  | @writerGet p queue hw hq =>
    refine h.of_held rfl ?_
    simp only [held, hq, hw, Writer.packets, addrs_nil, addrs_cons,
      List.filterMap_cons_some (rfl : id (some p) = some p)]
    abel
  | @writerSkip p queue hw hq =>
    refine releasePacket (h.of_held rfl ?_)
    simp only [held, hq, addrs_nil, addrs_cons, List.filterMap_cons_some (rfl : id (some p) = some p)]
    abel
  | writerEnd hw hq =>
    refine h.of_held rfl ?_
    rcases hw with hw | hw <;> simp [held, hq, hw, Writer.packets]
  | @writeOk p hw =>
    have hset : { s with writer := if s.writerQueue = [] then .flushing else .getting }.Conserved [p] := by
      refine h.setWriter ?_
      rw [hw]
      split <;> simp [Writer.packets]
    have hrel := releasePacket hset
    exact hrel
  | @writeFail p hw =>
    have hset : { s with writer := .skipping }.Conserved [p] := h.setWriter (by simp [hw, Writer.packets])
    have hrel := releasePacket hset
    exact hrel
  | flushOk hw => exact h.setWriter (by simp [hw, Writer.packets])
  | flushFail hw =>
    have hset : { s with writer := .skipping }.Conserved [] := h.setWriter (by simp [hw, Writer.packets])
    exact hset

/-- The owner of `o` changed its own stream and fiber, the pool, and put packets into the writer queue. -/
def OwnerFrame (s s' : StreamProcessor) (o : StreamNo) : Prop :=
  ∃ (ps : PacketStream) (f : Fiber) (pool : Pool Packet) (queue : List Packet),
    ps.requestId = (s.streams o).requestId ∧ FiberOk f ps ∧
    s' = { s with
      streams := Function.update s.streams o ps
      fibers := Function.update s.fibers o f
      packetsPool := pool
      writerQueue := s.writerQueue ++ queue.map some }

/-- Writing leaves the reading side of the stream alone. -/
def WriteFrame (s s' : StreamProcessor) (o : StreamNo) : Prop :=
  ∃ (current : Option Packet) (f : Fiber) (pool : Pool Packet) (queue : List Packet),
    FiberOk f { s.streams o with currentWritePacket := current } ∧ (∀ len buf, f ≠ .reading len buf) ∧
    s' = { s with
      streams := Function.update s.streams o { s.streams o with currentWritePacket := current }
      fibers := Function.update s.fibers o f
      packetsPool := pool
      writerQueue := s.writerQueue ++ queue.map some }

/-- Reading leaves the writing side of the stream alone, and the writer queue. -/
def ReadFrame (s s' : StreamProcessor) (o : StreamNo) : Prop :=
  ∃ (current : Option Packet) (queue : List Packet) (f : Fiber) (pool : Pool Packet),
    FiberOk f { s.streams o with readerQueue := queue, currentReadPacket := current } ∧
    s' = { s with
      streams := Function.update s.streams o { s.streams o with readerQueue := queue, currentReadPacket := current }
      fibers := Function.update s.fibers o f
      packetsPool := pool }

theorem WriteFrame.ownerFrame (h : WriteFrame s s' o) : OwnerFrame s s' o := by
  obtain ⟨current, f, pool, queue, hok, -, rfl⟩ := h
  exact ⟨{ s.streams o with currentWritePacket := current }, f, pool, queue, rfl, hok, rfl⟩

theorem ReadFrame.ownerFrame (h : ReadFrame s s' o) : OwnerFrame s s' o := by
  obtain ⟨current, queue, f, pool, hok, rfl⟩ := h
  exact ⟨{ s.streams o with readerQueue := queue, currentReadPacket := current }, f, pool, [], rfl, hok,
    by rw [List.map_nil, List.append_nil]⟩

theorem writeFrame_fillWritePacket (s : StreamProcessor) (o : StreamNo) (p : Packet) (buf : List UInt8) :
    WriteFrame s (s.fillWritePacket o p buf) o := by
  unfold fillWritePacket
  dsimp only
  split
  · refine ⟨some (p.writeData buf).1, .running, s.packetsPool, [], trivial, by simp, ?_⟩
    simp [setStream, setFiber]
  · exact ⟨none, .acquiring .middle (p.writeData buf).2, s.packetsPool, [(p.writeData buf).1], rfl, by simp, rfl⟩

theorem writeFrame_acquireWritePacket (s : StreamProcessor) (o : StreamNo) (type : PacketType) (rest : List UInt8)
    (hw : (s.streams o).currentWritePacket = none) : WriteFrame s (s.acquireWritePacket o type rest) o := by
  unfold acquireWritePacket
  split
  · rename_i p t hp
    obtain ⟨pool, -, rfl⟩ := acquirePacket_eq hp
    obtain ⟨current, f, pool', queue, hok, hnr, heq⟩ := writeFrame_fillWritePacket { s with packetsPool := pool } o
      { p with type := type, requestId := (s.streams o).requestId } rest
    exact ⟨current, f, pool', queue, hok, hnr, heq⟩
  · refine ⟨none, .acquiring type rest, s.packetsPool, [], rfl, by simp, ?_⟩
    simp [setFiber, ← hw]

theorem fiberOk_copy {ps : PacketStream} {p : Packet} {len : Nat} {buf : List UInt8}
    (hc : ps.currentReadPacket = some (PacketStream.copy p len buf).1) :
    FiberOk (PacketStream.copy p len buf).2.fiber ps := by
  cases ho : (PacketStream.copy p len buf).2 with
  | success b => trivial
  | failure => trivial
  | waits n b =>
    intro q hq
    rw [hc] at hq
    cases hq
    rw [PacketStream.type_copy]
    exact PacketStream.isLast_of_copy_waits ho

/-- The stream whose owner takes the turn, to read. -/
def Event.readsOn : Event → Option StreamNo
  | .read o _ | .get o | .timeout o => some o
  | _ => none

/-- The stream whose owner takes the turn, to write. -/
def Event.writesOn : Event → Option StreamNo
  | .write o _ | .flush o | .acquire o => some o
  | _ => none

/-- The stream whose owner takes the turn. -/
def Event.owner (e : Event) : Option StreamNo := e.readsOn <|> e.writesOn

theorem Turn.readFrame {e : Event} (ht : Turn s e s') (hown : e.readsOn = some o) :
    s.owned o ∧ ReadFrame s s' o := by
  cases ht with
  | @read o' len ho hf =>
    cases hown
    rcases (s.streams o).read_cases len with ⟨hc, heq⟩ | ⟨current, hc, heq⟩
    · refine ⟨ho, none, (s.streams o).readerQueue, .reading len [], s.packetsPool, ?_, ?_⟩
      · intro p hp
        cases hp
      · simp [setStream, setFiber, heq, ReadOutcome.fiber, ← hc]
    · refine ⟨ho, some (PacketStream.copy current len []).1, (s.streams o).readerQueue,
        (PacketStream.copy current len []).2.fiber, s.packetsPool, fiberOk_copy rfl, ?_⟩
      simp [setStream, setFiber, heq]
  | @get o' len buf released ps outcome ho hf hnext =>
    cases hown
    obtain ⟨p, queue, -, ⟨-, -, rfl, rfl⟩ | ⟨-, -, rfl, rfl⟩⟩ := PacketStream.readNext_cases hnext
    · refine ⟨ho, some (PacketStream.copy p len buf).1, queue, (PacketStream.copy p len buf).2.fiber,
        (released.toList.map Packet.reset).foldl Pool.release s.packetsPool, fiberOk_copy rfl, ?_⟩
      rw [releasePackets_eq]
      rfl
    · refine ⟨ho, (s.streams o).currentReadPacket, queue, .running,
        (released.toList.map Packet.reset).foldl Pool.release s.packetsPool, trivial, ?_⟩
      rw [releasePackets_eq]
      rfl
  | timeout ho hf hq =>
    cases hown
    refine ⟨ho, (s.streams o).currentReadPacket, (s.streams o).readerQueue, .running, s.packetsPool, trivial, ?_⟩
    simp [setFiber]
  | _ => cases hown

theorem Turn.writeFrame {e : Event} (hok : ∀ o, FiberOk (s.fibers o) (s.streams o)) (ht : Turn s e s')
    (hown : e.writesOn = some o) : s.owned o ∧ WriteFrame s s' o := by
  cases ht with
  | writeFirst ho hf hw =>
    cases hown
    exact ⟨ho, writeFrame_acquireWritePacket _ _ _ _ hw⟩
  | writeMore ho hf hw hlast =>
    cases hown
    exact ⟨ho, writeFrame_fillWritePacket _ _ _ _⟩
  | @flush o' p ho hf hw hlast =>
    cases hown
    obtain ⟨current, f, pool, queue, hok', hnr, heq⟩ := writeFrame_acquireWritePacket
      ((s.setStream o { s.streams o with currentWritePacket := none }).putPacket (lastPacket p)) o .end_ []
      (by simp [putPacket, setStream])
    refine ⟨ho, current, f, pool, lastPacket p :: queue, ?_, hnr, ?_⟩
    · simpa [putPacket, setStream] using hok'
    · rw [heq]
      simp [putPacket, setStream]
  | @acquire o' type rest ho hf hpool =>
    cases hown
    have hw := hok o
    rw [hf] at hw
    exact ⟨ho, writeFrame_acquireWritePacket _ _ _ _ hw⟩
  | _ => cases hown

/-- **An owner's turn stays within its frame.** -/
theorem Turn.ownerFrame {e : Event} (hok : ∀ o, FiberOk (s.fibers o) (s.streams o)) (ht : Turn s e s')
    (hown : e.owner = some o) : s.owned o ∧ OwnerFrame s s' o := by
  cases hr : e.readsOn with
  | some o' =>
    rw [Event.owner, hr] at hown
    cases hown
    exact ⟨(ht.readFrame hr).1, (ht.readFrame hr).2.ownerFrame⟩
  | none =>
    rw [Event.owner, hr] at hown
    exact ⟨(ht.writeFrame hok hown).1, (ht.writeFrame hok hown).2.ownerFrame⟩

/-- The turns of the reader and the writer, with what they change written out. -/
inductive SystemTurn (s : StreamProcessor) : Event → StreamProcessor → Prop where
  | readerAcquire {p : Packet} {pool : Pool Packet} (hr : s.reader = .acquiring)
    (hp : s.acquirePacket = some (p, { s with packetsPool := pool })) :
    SystemTurn s .reader { s with packetsPool := pool, reader := .reading p }
  | readerPass {i : Nat} (hr : s.reader = .disconnecting i) (hi : i < maxRequestStreamsCnt)
    (hslot : s.active ⟨i, hi⟩ = none) : SystemTurn s .reader { s with reader := .disconnecting (i + 1) }
  | readerDisconnect {i : Nat} {o : StreamNo} {p : Packet} {pool : Pool Packet} (hr : s.reader = .disconnecting i) (hi : i < maxRequestStreamsCnt)
    (hslot : s.active ⟨i, hi⟩ = some o) (hp : s.acquirePacket = some (p, { s with packetsPool := pool })) :
    SystemTurn s .reader { { s with packetsPool := pool }.pushDisconnect o p with reader := .disconnecting (i + 1) }
  | readerBlock {i : Nat} {o : StreamNo} (hr : s.reader = .disconnecting i) (hi : i < maxRequestStreamsCnt)
    (hslot : s.active ⟨i, hi⟩ = some o) (hp : s.packetsPool.exhausted) :
    SystemTurn s .reader { s with reader := .disconnectAcquiring i o }
  | readerDisconnectLate {i : Nat} {o : StreamNo} {p : Packet} {pool : Pool Packet}
    (hr : s.reader = .disconnectAcquiring i o) (hp : s.acquirePacket = some (p, { s with packetsPool := pool })) :
    SystemTurn s .reader { { s with packetsPool := pool }.pushDisconnect o p with reader := .disconnecting (i + 1) }
  | readerLoopEnd {i : Nat} (hr : s.reader = .disconnecting i) (hi : maxRequestStreamsCnt ≤ i) :
    SystemTurn s .reader { s with reader := .waitingStreams }
  | readerStreamsStopped (hr : s.reader = .waitingStreams) (he : s.streamsStopEvent = true) :
    SystemTurn s .reader
      { s with streamsStopEvent := false, writerQueue := s.writerQueue ++ [none], reader := .waitingWriter }
  | readerWriterStopped (hr : s.reader = .waitingWriter) (he : s.writerStopEvent = true) :
    SystemTurn s .reader { s with writerStopEvent := false, state := .stopped, reader := .stopped }
  | readerFail {p : Packet} (hr : s.reader = .reading p) : SystemTurn s .readerFail (s.abandon p)
  | writerGet {p : Packet} {queue : List (Option Packet)} (hw : s.writer = .getting)
    (hq : s.writerQueue = some p :: queue) :
    SystemTurn s .writer { s with writerQueue := queue, writer := .writing p }
  | writerSkip {p : Packet} {queue : List (Option Packet)} (hw : s.writer = .skipping)
    (hq : s.writerQueue = some p :: queue) :
    SystemTurn s .writer ({ s with writerQueue := queue }.releasePacket p)
  | writerEnd {queue : List (Option Packet)} (hw : s.writer = .getting ∨ s.writer = .skipping)
    (hq : s.writerQueue = none :: queue) :
    SystemTurn s .writer { s with writerQueue := queue, writer := .stopped, writerStopEvent := true }
  | writeOk {p : Packet} (hw : s.writer = .writing p) :
    SystemTurn s (.writerResult .success)
      { s.releasePacket p with writer := if s.writerQueue = [] then .flushing else .getting }
  | writeFail {p : Packet} (hw : s.writer = .writing p) :
    SystemTurn s (.writerResult .failure) { (s.releasePacket p).stopAsync with writer := .skipping }
  | flushOk (hw : s.writer = .flushing) : SystemTurn s (.writerResult .success) { s with writer := .getting }
  | flushFail (hw : s.writer = .flushing) :
    SystemTurn s (.writerResult .failure) { s.stopAsync with writer := .skipping }

/-- **A turn that is not an owner's** is one of these. -/
theorem Turn.system {e : Event} (ht : Turn s e s') (hown : e.owner = none) : SystemTurn s e s' := by
  cases ht with
  | read | get | timeout | writeFirst | writeMore | flush | acquire => cases hown
  | readerAcquire hr hp =>
    obtain ⟨pool, -, rfl⟩ := acquirePacket_eq hp
    exact .readerAcquire hr hp
  | readerDisconnect hr hi hslot hp =>
    obtain ⟨pool, -, rfl⟩ := acquirePacket_eq hp
    exact .readerDisconnect hr hi hslot hp
  | readerDisconnectLate hr hp =>
    obtain ⟨pool, -, rfl⟩ := acquirePacket_eq hp
    exact .readerDisconnectLate hr hp
  | readerPass hr hi hslot => exact .readerPass hr hi hslot
  | readerBlock hr hi hslot hp => exact .readerBlock hr hi hslot hp
  | readerLoopEnd hr hi => exact .readerLoopEnd hr hi
  | readerStreamsStopped hr he => exact .readerStreamsStopped hr he
  | readerWriterStopped hr he => exact .readerWriterStopped hr he
  | readerFail hr => exact .readerFail hr
  | writerGet hw hq => exact .writerGet hw hq
  | writerSkip hw hq => exact .writerSkip hw hq
  | writerEnd hw hq => exact .writerEnd hw hq
  | writeOk hw => exact .writeOk hw
  | writeFail hw => exact .writeFail hw
  | flushOk hw => exact .flushOk hw
  | flushFail hw => exact .flushFail hw

theorem fiberOk_update (hok : ∀ o, FiberOk (s.fibers o) (s.streams o)) {f : Fiber} {ps : PacketStream}
    (h : FiberOk f ps) (o i : StreamNo) :
    FiberOk (Function.update s.fibers o f i) (Function.update s.streams o ps i) := by
  by_cases hi : i = o
  · subst hi
    simpa using h
  · simpa [hi] using hok i

theorem fiberOk_pushPacket (hok : ∀ o, FiberOk (s.fibers o) (s.streams o)) (o : StreamNo) (p : Packet) (i : StreamNo) :
    FiberOk (s.fibers i) ((s.pushPacket o p).streams i) := by
  by_cases hi : i = o
  · subst hi
    have := hok i
    cases hf : s.fibers i <;> simp_all [FiberOk, pushPacket, setStream, PacketStream.pushPacket]
  · simpa [pushPacket, setStream, hi] using hok i

@[simp] theorem pushPacket_currentReadPacket (s : StreamProcessor) (o : StreamNo) (p : Packet) (i : StreamNo) :
    ((s.pushPacket o p).streams i).currentReadPacket = (s.streams i).currentReadPacket := by
  by_cases hi : i = o
  · subst hi
    simp [pushPacket, setStream, PacketStream.pushPacket]
  · simp [pushPacket, setStream, hi]

@[simp] theorem pushPacket_currentWritePacket (s : StreamProcessor) (o : StreamNo) (p : Packet) (i : StreamNo) :
    ((s.pushPacket o p).streams i).currentWritePacket = (s.streams i).currentWritePacket := by
  by_cases hi : i = o
  · subst hi
    simp [pushPacket, setStream, PacketStream.pushPacket]
  · simp [pushPacket, setStream, hi]

/-- **No shared turn touches the table of active streams.** -/
theorem Turn.table {e : Event} (hok : ∀ o, FiberOk (s.fibers o) (s.streams o)) (ht : Turn s e s') :
    s'.active = s.active ∧ s'.requestIds = s.requestIds ∧ s'.activeCnt = s.activeCnt := by
  cases ho : e.owner with
  | some o =>
    obtain ⟨-, ps, f, pool, queue, -, -, rfl⟩ := ht.ownerFrame hok ho
    exact ⟨rfl, rfl, rfl⟩
  | none => cases ht.system ho <;> exact ⟨rfl, rfl, rfl⟩

theorem Turn.fiberOk {e : Event} (hok : ∀ o, FiberOk (s.fibers o) (s.streams o)) (ht : Turn s e s') :
    ∀ o, FiberOk (s'.fibers o) (s'.streams o) := by
  cases ho : e.owner with
  | some o =>
    obtain ⟨-, ps, f, pool, queue, -, hf, rfl⟩ := ht.ownerFrame hok ho
    exact fiberOk_update hok hf o
  | none =>
    cases ht.system ho with
    | readerDisconnect | readerDisconnectLate => exact fiberOk_pushPacket hok _ _
    | _ => exact hok

/-- Packets come and go in the writer queue, the `NULL` stays where it is. -/
theorem WriterOk.of_count (h : s.WriterOk) (hreader : s'.reader = s.reader)
    (hevent : s'.writerStopEvent = s.writerStopEvent) (hwriter : s.writer = .stopped → s'.writer = .stopped)
    (hcount : s'.writerQueue.count none = s.writerQueue.count none) : s'.WriterOk := by
  have hmem : none ∉ s.writerQueue → none ∉ s'.writerQueue := fun hn => by
    rw [← List.count_eq_zero] at hn ⊢
    rw [hcount, hn]
  unfold WriterOk at h ⊢
  rw [hreader]
  split at h
  · exact ⟨hwriter h.1, hmem h.2.1, hevent.trans h.2.2⟩
  · exact ⟨hwriter h.1, hmem h.2.1, hevent.trans h.2.2⟩
  · rw [hevent, hcount]
    exact h.imp (fun h => ⟨h.1, hwriter h.2.1, hmem h.2.2⟩) id
  · exact ⟨hmem h.1, hevent.trans h.2⟩

theorem Turn.writerOk {e : Event} (hok : ∀ o, FiberOk (s.fibers o) (s.streams o)) (h : s.WriterOk) (ht : Turn s e s') :
    s'.WriterOk := by
  cases ho : e.owner with
  | some o =>
    obtain ⟨-, ps, f, pool, queue, -, -, rfl⟩ := ht.ownerFrame hok ho
    refine h.of_count rfl rfl id ?_
    have hzero : (queue.map some).count none = 0 := List.count_eq_zero.2 (by simp)
    rw [List.count_append, hzero, Nat.add_zero]
  | none =>
    cases ht.system ho with
    | readerAcquire hr | readerPass hr | readerDisconnect hr | readerBlock hr | readerDisconnectLate hr
    | readerLoopEnd hr | readerFail hr =>
      simp only [WriterOk, hr] at h
      exact h
    | readerStreamsStopped hr he =>
      simp only [WriterOk, hr] at h
      refine Or.inr ⟨h.2, ?_⟩
      simp [List.count_eq_zero.2 h.1]
    | readerWriterStopped hr he =>
      simp only [WriterOk, hr] at h
      rcases h with ⟨-, hw, hq⟩ | ⟨hev, -⟩
      · exact ⟨hw, hq, rfl⟩
      · rw [hev] at he
        cases he
    | writerGet hw hq => exact h.of_count rfl rfl (by simp [hw]) (by simp [hq])
    | writerSkip hw hq => exact h.of_count rfl rfl (fun h => h) (by simp [hq, releasePacket])
    | writerEnd hw hq =>
      have hne : s.writer ≠ .stopped := by rcases hw with hw | hw <;> simp [hw]
      have hmem : none ∈ s.writerQueue := hq ▸ List.mem_cons_self
      unfold WriterOk at h ⊢
      split at h
      · exact absurd h.1 hne
      · exact absurd h.1 hne
      · rename_i hr
        rcases h with ⟨-, hws, -⟩ | ⟨-, hcount⟩
        · exact absurd hws hne
        · rw [hq, List.count_cons_self] at hcount
          have hrest : none ∉ _ := List.count_eq_zero.1 (Nat.succ_injective hcount)
          rw [hr]
          exact Or.inl ⟨rfl, rfl, hrest⟩
      · exact absurd hmem h.1
    | writeOk hw => exact h.of_count rfl rfl (by simp [hw]) rfl
    | writeFail hw => exact h.of_count rfl rfl (by simp [hw]) rfl
    | flushOk hw => exact h.of_count rfl rfl (by simp [hw]) rfl
    | flushFail hw => exact h.of_count rfl rfl (by simp [hw]) rfl

theorem Sound.turn {e : Event} (h : s.Sound) (ht : Turn s e s') : s'.Sound := by
  obtain ⟨hactive, hids, hcnt⟩ := ht.table h.fiberOk
  refine ⟨h.conserved.turn h.fiberOk ht, ht.writerOk h.fiberOk h.writerOk, ht.fiberOk h.fiberOk, ?_, ?_⟩
  · rw [hactive, hids]
    exact h.requestIds
  · rw [hactive, hcnt]
    exact h.activeCnt

theorem sound_create : create.Sound := by
  refine ⟨conserved_create, ⟨rfl, List.not_mem_nil, rfl⟩, fun _ => trivial, fun r o h => ?_, ?_⟩
  · cases h
  · simp [create, activeIds]

theorem Sound.enter (h : s.Sound) {r : RequestId} (hfree : ∀ r, s.active r ≠ some o) (hslot : s.active r = none) :
    (s.enter r o).Sound := by
  refine ⟨h.conserved.enter r, h.writerOk, fiberOk_update h.fiberOk (f := .running) trivial o, ?_, ?_⟩
  · intro r' o' ha
    simp only [StreamProcessor.enter] at ha ⊢
    by_cases hr : r' = r
    · subst hr
      rw [Function.update_self] at ha
      cases ha
      simp
    · rw [Function.update_of_ne hr] at ha
      have ho : o' ≠ o := fun ho => hfree r' (ho ▸ ha)
      rw [Function.update_of_ne ho]
      exact h.requestIds r' o' ha
  · have hnot : r ∉ activeIds s.active := by simp [mem_activeIds, hslot]
    simp only [StreamProcessor.enter]
    rw [activeIds_enter, Finset.card_insert_of_notMem hnot, h.activeCnt]

theorem releaseStream_eq (s : StreamProcessor) (o : StreamNo) :
    s.releaseStream o = { s with
      packetsPool := ((s.streams o).packets.map Packet.reset).foldl Pool.release s.packetsPool
      streams := Function.update s.streams o PacketStream.create
      active := Function.update s.active (s.requestIds o) none
      activeCnt := s.activeCnt - 1
      streamsStopEvent := if s.activeCnt - 1 = 0 then true else s.streamsStopEvent } := by
  unfold StreamProcessor.releaseStream
  rw [releasePackets_eq]
  rfl

theorem Sound.releaseStream (h : s.Sound) (ho : s.owned o) (hf : s.fibers o = .running) : (s.releaseStream o).Sound := by
  refine ⟨h.conserved.releaseStream, ?_, ?_, ?_, ?_⟩
  · rw [releaseStream_eq]
    exact h.writerOk
  · intro i
    have hok := fiberOk_update h.fiberOk (f := .running) (show FiberOk .running PacketStream.create from trivial) o i
    rw [releaseStream_eq]
    rwa [← hf, Function.update_eq_self] at hok
  · intro r o' ha
    rw [releaseStream_eq] at ha ⊢
    refine h.requestIds r o' ?_
    by_cases hr : r = s.requestIds o
    · subst hr
      simp at ha
    · simpa [hr] using ha
  · have hmem : s.requestIds o ∈ activeIds s.active := by
      rw [mem_activeIds, show s.active (s.requestIds o) = some o from ho]
      rfl
    rw [releaseStream_eq]
    simp only
    rw [activeIds_leave, Finset.card_erase_of_mem hmem, h.activeCnt]

theorem Sound.deliver (h : s.Sound) (hr : s.reader = .reading p) (f : Frame) :
    (s.deliver o (p.ofFrame f)).Sound := by
  refine ⟨?_, ?_, fiberOk_pushPacket h.fiberOk _ _, h.requestIds, h.activeCnt⟩
  rotate_left
  · have hw := h.writerOk
    simp only [WriterOk, hr] at hw
    exact hw
  have hset : { s with reader := .acquiring }.Conserved [p.ofFrame f] :=
    h.conserved.setReader (by simp [hr, Reader.packets, Packet.ofFrame])
  have hpush := hset.pushPacket (o := o)
  exact hpush

theorem Sound.setState (h : s.Sound) (state : ProcessorState) : { s with state := state }.Sound :=
  ⟨h.conserved, h.writerOk, h.fiberOk, h.requestIds, h.activeCnt⟩

/-- **A connection starts from a stopped writer**: `mrpc_*_stream_processor_start`, `start_stream_writer`. -/
theorem Sound.connect (h : s.Sound) (hr : s.reader = .stopped ∨ s.reader = .starting) (state : ProcessorState) :
    { s with state := state, writer := .getting, streamsStopEvent := true, reader := .acquiring }.Sound := by
  have hw : s.writer = .stopped ∧ none ∉ s.writerQueue ∧ s.writerStopEvent = false := by
    have := h.writerOk
    unfold WriterOk at this
    rcases hr with hr | hr
    · rw [hr] at this
      exact this
    · rw [hr] at this
      exact this
  refine ⟨?_, ⟨hw.2.1, hw.2.2⟩, h.fiberOk, h.requestIds, h.activeCnt⟩
  refine h.conserved.of_held rfl ?_
  rcases hr with hr | hr <;> simp [held, hr, hw.1, Reader.packets, Writer.packets]

theorem Sound.activeCnt_pos (h : s.Sound) (ho : s.owned o) : 0 < s.activeCnt := by
  rw [h.activeCnt, Finset.card_pos]
  exact ⟨s.requestIds o, mem_activeIds.2 (by rw [show s.active (s.requestIds o) = some o from ho]; rfl)⟩

/-- **A stream that is not in its own slot is in none.** -/
theorem Sound.not_active_of_not_owned (h : s.Sound) (ho : ¬ s.owned o) (r : RequestId) : s.active r ≠ some o := by
  intro ha
  have hr := h.requestIds r o ha
  rw [← hr] at ha
  exact ho ha

theorem Sound.owned_of_active (h : s.Sound) {r : RequestId} (ha : s.active r = some o) : s.owned o := by
  have hr := h.requestIds r o ha
  rw [← hr] at ha
  exact ha

/-- **There are at most as many owned streams as taken slots.** -/
theorem Sound.card_owned_le (h : s.Sound) : (Finset.univ.filter s.owned).card ≤ s.activeCnt := by
  rw [h.activeCnt]
  refine Finset.card_le_card_of_injOn s.requestIds (fun o ho => ?_) (fun o ho o' ho' heq => ?_)
  · have hown : s.active (s.requestIds o) = some o := (Finset.mem_filter.1 ho).2
    rw [Finset.mem_coe, mem_activeIds, hown]
    rfl
  · have hown : s.active (s.requestIds o) = some o := (Finset.mem_filter.1 ho).2
    have hown' : s.active (s.requestIds o') = some o' := (Finset.mem_filter.1 ho').2
    rw [heq, hown'] at hown
    exact (Option.some.inj hown).symm

/-- **A pool is exhausted when as many packets are out as it can make.** -/
theorem Sound.exhausted_iff (h : s.Sound) : s.packetsPool.exhausted ↔ s.held.card = maxPacketsCnt := by
  rw [h.conserved.1.exhausted_iff, h.conserved.2]
  simp

theorem card_held (s : StreamProcessor) : s.held.card = (s.writerQueue.filterMap id).length + s.reader.packets.length +
    s.writer.packets.length + ∑ o, (s.streams o).packets.length := by
  simp [held, Multiset.card_sum]

theorem Sound.free_add_card_held (h : s.Sound) : s.packetsPool.free.length + s.held.card = s.packetsPool.created := by
  have := h.conserved.1.free_add_card
  simpa using this

theorem exists_acquirePacket (h : ¬ s.packetsPool.exhausted) :
    ∃ p pool, s.acquirePacket = some (p, { s with packetsPool := pool }) := by
  cases hacq : s.acquirePacket with
  | none => exact absurd (acquirePacket_eq_none.1 hacq) h
  | some pt =>
    obtain ⟨pool, -, heq⟩ := acquirePacket_eq hacq
    exact ⟨pt.1, pool, by rw [← heq]⟩

theorem card_held_pushPacket (s : StreamProcessor) (o : StreamNo) (p : Packet) (pool : Pool Packet) :
    { s.pushPacket o p with packetsPool := pool }.held.card = s.held.card + 1 := by
  have hsum := sum_update_add (fun ps => ps.packets.length) s.streams o ((s.streams o).pushPacket p)
  have hlen : ((s.streams o).pushPacket p).packets.length = (s.streams o).packets.length + 1 := by
    simp [PacketStream.packets, PacketStream.pushPacket, Nat.add_assoc]
  rw [hlen] at hsum
  rw [card_held, card_held]
  simp only [pushPacket, setStream]
  omega

theorem Sound.active_eq_none (h : s.Sound) (hcnt : s.activeCnt = 0) (r : RequestId) : s.active r = none := by
  have hempty : activeIds s.active = ∅ := Finset.card_eq_zero.1 (h.activeCnt ▸ hcnt)
  by_contra hne
  have hmem := mem_activeIds.2 (Option.isSome_iff_ne_none.2 hne)
  rw [hempty] at hmem
  cases hmem

/-! ## Idle streams -/

theorem Turn.owned_iff {e : Event} (hs : s.Sound) (ht : Turn s e s') : s'.owned o ↔ s.owned o := by
  obtain ⟨hactive, hids, -⟩ := ht.table hs.fiberOk
  rw [owned, owned, hactive, hids]

/-- **No turn changes a stream that has no owner**, but for a disconnect that chose it while it had one. -/
theorem Turn.idle_stream {e : Event} (hs : s.Sound) (ht : Turn s e s') (ho : ¬ s.owned o) :
    s'.streams o = s.streams o ∨
      ∃ p i, s.reader = .disconnectAcquiring i o ∧ s'.reader = .disconnecting (i + 1) ∧
        s'.streams o = (s.streams o).pushPacket p := by
  cases hown : e.owner with
  | some o' =>
    obtain ⟨ho', ps, f, pool, queue, -, -, rfl⟩ := ht.ownerFrame hs.fiberOk hown
    have hne : o ≠ o' := fun h => ho (h ▸ ho')
    exact Or.inl (Function.update_of_ne hne _ _)
  | none =>
    cases ht.system hown with
    | readerDisconnect hr hi hslot hp =>
      have hne : o ≠ _ := fun h => ho (h ▸ hs.owned_of_active hslot)
      exact Or.inl (Function.update_of_ne hne _ _)
    | @readerDisconnectLate i o' p pool hr hp =>
      by_cases hne : o = o'
      · subst hne
        exact Or.inr ⟨_, i, hr, rfl, Function.update_self ..⟩
      · exact Or.inl (Function.update_of_ne hne _ _)
    | _ => exact Or.inl rfl

theorem owned_enter_self (s : StreamProcessor) (r : RequestId) (o : StreamNo) : (s.enter r o).owned o := by
  simp [owned, enter]

theorem owned_enter {r : RequestId} (hslot : s.active r = none) {i : StreamNo} (hi : i ≠ o) :
    (s.enter r o).owned i ↔ s.owned i := by
  simp only [owned, enter, Function.update_of_ne hi]
  by_cases hr : s.requestIds i = r
  · rw [hr, Function.update_self, hslot]
    simp [Ne.symm hi]
  · rw [Function.update_of_ne hr]

theorem owned_releaseStream (ho : s.owned o) {i : StreamNo} (hi : i ≠ o) : (s.releaseStream o).owned i ↔ s.owned i := by
  rw [releaseStream_eq]
  simp only [owned]
  by_cases hr : s.requestIds i = s.requestIds o
  · rw [hr, Function.update_self, show s.active (s.requestIds o) = some o from ho]
    simp [Ne.symm hi]
  · rw [Function.update_of_ne hr]

theorem streams_releaseStream (s : StreamProcessor) (o : StreamNo) :
    (s.releaseStream o).streams = Function.update s.streams o PacketStream.create := by
  rw [releaseStream_eq]

end StreamProcessor
end Mrpc
