import MultiplexingRpc.ServerStreamProcessor
/-!
# PacketPlaces — every packet in one place

The queues of a stream processor are as long as its pool of packets, and the code relies on it that no put ever waits.
That rests on two facts about every run: a packet is in one place at a time, and a packet that is free looks as it was
made.  `Place` names the places, `Neat` says what the packets at each of them look like.
-/
namespace Mrpc

/-! ## What packets look like -/

namespace Packet

/-- As `mrpc_packet_create` and `mrpc_packet_reset` leave it. -/
def Blank (p : Packet) : Prop := p.currPos = 0 ∧ p.body = [] ∧ p.type = .start ∧ p.requestId = 0

/-- Filled, not read from. -/
def Written (p : Packet) : Prop := p.currPos = 0 ∧ p.body.length ≤ maxPacketSize

/-- Filled, and perhaps read from. -/
def Readable (p : Packet) : Prop := p.currPos ≤ p.body.length ∧ p.body.length ≤ maxPacketSize

variable {p : Packet}

theorem blank_create (n : Nat) : (create n).Blank := ⟨rfl, rfl, rfl, rfl⟩

theorem blank_reset (p : Packet) : p.reset.Blank := ⟨rfl, rfl, rfl, rfl⟩

theorem Blank.written (h : p.Blank) (type : PacketType) (requestId : RequestId) :
    { p with type := type, requestId := requestId }.Written := by
  obtain ⟨hpos, hbody, -, -⟩ := h
  exact ⟨hpos, by simp [hbody]⟩

theorem Written.readable (h : p.Written) : p.Readable := ⟨by rw [h.1]; exact Nat.zero_le _, h.2⟩

theorem Blank.ofFrame (h : p.Blank) {f : Frame} (hf : f.body.length ≤ maxPacketSize) : (p.ofFrame f).Readable := by
  refine ⟨?_, hf⟩
  show p.currPos ≤ f.body.length
  rw [h.1]
  exact Nat.zero_le _

theorem Written.writeData (h : p.Written) (buf : List UInt8) : (p.writeData buf).1.Written := by
  refine ⟨h.1, ?_⟩
  have hle := h.2
  simp only [Packet.writeData, List.length_append, List.length_take]
  omega

theorem Readable.readData (h : p.Readable) (len : Nat) : (p.readData len).2.Readable := by
  refine ⟨?_, h.2⟩
  have hle := h.1
  simp only [Packet.readData, Packet.rest, List.length_take, List.length_drop]
  omega

end Packet

namespace PacketStream

/-- What the packets of a stream look like. -/
structure Neat (ps : PacketStream) : Prop where
  write : ∀ p ∈ ps.currentWritePacket, p.Written ∧ p.type ≠ .single
  read : ∀ p ∈ ps.currentReadPacket, p.Readable
  queue : ∀ p ∈ ps.readerQueue, p.Readable

variable {ps ps' : PacketStream} {len : Nat} {buf : List UInt8} {p : Packet}

theorem neat_create : create.Neat := ⟨nofun, nofun, nofun⟩

theorem readable_copy (h : p.Readable) (len : Nat) (buf : List UInt8) : (copy p len buf).1.Readable := by
  have hread := h.readData len
  unfold copy
  dsimp only
  split
  · exact hread
  · split
    · exact hread
    · exact hread

theorem Neat.readPacket (h : ps.Neat) (hp : p.Readable) : { ps with currentReadPacket := some p }.Neat := by
  refine ⟨h.write, fun q hq => ?_, h.queue⟩
  cases hq
  exact hp

theorem Neat.readStep (h : ps.Neat) (len : Nat) : (ps.read len).1.Neat := by
  rcases ps.read_cases len with ⟨-, heq⟩ | ⟨current, hc, heq⟩
  · rw [heq]
    exact h
  · rw [heq]
    exact h.readPacket (readable_copy (h.read current hc) len [])

theorem Neat.readNext (h : ps.Neat) {released : Option Packet} {outcome : ReadOutcome}
    (hnext : ps.readNext len buf = some (released, ps', outcome)) : ps'.Neat := by
  obtain ⟨p, queue, hq, hcases⟩ := readNext_cases hnext
  have hp : p.Readable := h.queue p (by rw [hq]; exact List.mem_cons_self)
  have hrest : { ps with readerQueue := queue }.Neat :=
    ⟨h.write, h.read, fun q hmem => h.queue q (by rw [hq]; exact List.mem_cons_of_mem _ hmem)⟩
  rcases hcases with ⟨-, -, rfl, -⟩ | ⟨-, -, rfl, -⟩
  · exact hrest.readPacket (readable_copy hp len buf)
  · exact hrest

theorem Neat.pushPacket (h : ps.Neat) (hp : p.Readable) : (ps.pushPacket p).Neat := by
  refine ⟨h.write, h.read, fun q hq => ?_⟩
  rcases List.mem_append.1 hq with hq | hq
  · exact h.queue q hq
  · rw [List.mem_singleton.1 hq]
    exact hp

theorem Neat.noWritePacket (h : ps.Neat) : { ps with currentWritePacket := none }.Neat := ⟨nofun, h.read, h.queue⟩

theorem Neat.writePacket (h : ps.Neat) (hp : p.Written) (htype : p.type ≠ .single) :
    { ps with currentWritePacket := some p }.Neat := by
  refine ⟨fun q hq => ?_, h.read, h.queue⟩
  cases hq
  exact ⟨hp, htype⟩

end PacketStream

namespace StreamProcessor

/-- What packets look like, place by place. -/
structure Neat (s : StreamProcessor) : Prop where
  free : ∀ p ∈ s.packetsPool.free, p.Blank
  queued : ∀ p, some p ∈ s.writerQueue → p.Written
  reader : ∀ p ∈ s.reader.packets, p.Blank
  writer : ∀ p ∈ s.writer.packets, p.Written
  streams : ∀ o, (s.streams o).Neat
  fibers : ∀ o type rest, s.fibers o = .acquiring type rest → type ≠ .single

variable {s s' : StreamProcessor} {p : Packet} {o : StreamNo}

theorem neat_create : create.Neat := ⟨nofun, nofun, nofun, nofun, fun _ => PacketStream.neat_create, nofun⟩

namespace Neat

theorem acquirePacket (h : s.Neat) (hp : s.acquirePacket = some (p, s')) : p.Blank ∧ s'.Neat := by
  obtain ⟨pool, hpool, rfl⟩ := acquirePacket_eq hp
  rcases Pool.acquire_cases hpool with ⟨rest, hfree, rfl⟩ | ⟨hfree, -, rfl, rfl⟩
  · refine ⟨h.free p (by rw [hfree]; exact List.mem_cons_self), ?_, h.queued, h.reader, h.writer, h.streams, h.fibers⟩
    intro q hq
    exact h.free q (by rw [hfree]; exact List.mem_cons_of_mem _ hq)
  · exact ⟨Packet.blank_create _, h.free, h.queued, h.reader, h.writer, h.streams, h.fibers⟩

theorem releasePacket (h : s.Neat) (p : Packet) : (s.releasePacket p).Neat := by
  refine ⟨fun q hq => ?_, h.queued, h.reader, h.writer, h.streams, h.fibers⟩
  rcases List.mem_cons.1 hq with rfl | hq
  · exact p.blank_reset
  · exact h.free q hq

theorem releasePackets : ∀ (ps : List Packet) {s : StreamProcessor}, s.Neat → (s.releasePackets ps).Neat
  | [], _, h => h
  | p :: ps, _, h => releasePackets ps (h.releasePacket p)

theorem putPacket (h : s.Neat) (hp : p.Written) : (s.putPacket p).Neat := by
  refine ⟨h.free, fun q hq => ?_, h.reader, h.writer, h.streams, h.fibers⟩
  rcases List.mem_append.1 hq with hq | hq
  · exact h.queued q hq
  · cases List.mem_singleton.1 hq
    exact hp

theorem setStream (h : s.Neat) {ps : PacketStream} (hps : ps.Neat) : (s.setStream o ps).Neat := by
  refine ⟨h.free, h.queued, h.reader, h.writer, fun i => ?_, h.fibers⟩
  by_cases hi : i = o
  · subst hi
    simpa [StreamProcessor.setStream] using hps
  · simpa [StreamProcessor.setStream, hi] using h.streams i

theorem setFiber (h : s.Neat) {f : Fiber} (hf : ∀ type rest, f = .acquiring type rest → type ≠ .single) :
    (s.setFiber o f).Neat := by
  refine ⟨h.free, h.queued, h.reader, h.writer, h.streams, fun i type rest hi => ?_⟩
  simp only [StreamProcessor.setFiber] at hi
  by_cases hio : i = o
  · subst hio
    rw [Function.update_self] at hi
    exact hf type rest hi
  · rw [Function.update_of_ne hio] at hi
    exact h.fibers i type rest hi

theorem setReader (h : s.Neat) {reader : Reader} (hr : ∀ p ∈ reader.packets, p.Blank) :
    { s with reader := reader }.Neat := ⟨h.free, h.queued, hr, h.writer, h.streams, h.fibers⟩

theorem setWriter (h : s.Neat) {writer : Writer} (hw : ∀ p ∈ writer.packets, p.Written) :
    { s with writer := writer }.Neat := ⟨h.free, h.queued, h.reader, hw, h.streams, h.fibers⟩

theorem setState (h : s.Neat) (state : ProcessorState) : { s with state := state }.Neat :=
  ⟨h.free, h.queued, h.reader, h.writer, h.streams, h.fibers⟩

theorem setQueue (h : s.Neat) {queue : List (Option Packet)} (hq : ∀ p, some p ∈ queue → some p ∈ s.writerQueue) :
    { s with writerQueue := queue }.Neat :=
  ⟨h.free, fun p hp => h.queued p (hq p hp), h.reader, h.writer, h.streams, h.fibers⟩

theorem pushPacket (h : s.Neat) (hp : p.Readable) : (s.pushPacket o p).Neat :=
  h.setStream ((h.streams o).pushPacket hp)

theorem pushDisconnect (h : s.Neat) (hp : p.Blank) : (s.pushDisconnect o p).Neat := h.pushPacket (hp.written _ _).readable

theorem fillWritePacket (h : s.Neat) (hp : p.Written) (htype : p.type ≠ .single) (buf : List UInt8) :
    (s.fillWritePacket o p buf).Neat := by
  have hdata := hp.writeData buf
  unfold StreamProcessor.fillWritePacket
  dsimp only
  split
  · refine (h.setStream ((h.streams o).writePacket hdata ?_)).setFiber nofun
    rw [Packet.type_writeData]
    exact htype
  · refine ((h.setStream (h.streams o).noWritePacket).putPacket hdata).setFiber fun type rest heq => ?_
    cases heq
    decide

theorem acquireWritePacket (h : s.Neat) {type : PacketType} (htype : type ≠ .single) (rest : List UInt8) :
    (s.acquireWritePacket o type rest).Neat := by
  unfold StreamProcessor.acquireWritePacket
  split
  · rename_i p t hp
    obtain ⟨hblank, ht⟩ := h.acquirePacket hp
    exact ht.fillWritePacket (hblank.written _ _) htype rest
  · refine h.setFiber fun type' rest' heq => ?_
    cases heq
    exact htype

end Neat

theorem fiber_ne_acquiring (outcome : ReadOutcome) (type : PacketType) (rest : List UInt8) :
    outcome.fiber ≠ .acquiring type rest := by
  cases outcome <;> simp [ReadOutcome.fiber]

theorem written_lastPacket (h : p.Written) : (lastPacket p).Written := h

theorem Neat.turn {e : Event} (h : s.Neat) (ht : Turn s e s') : s'.Neat := by
  cases ht with
  | read ho hf =>
    exact (h.setStream ((h.streams _).readStep _)).setFiber fun type rest heq =>
      absurd heq (fiber_ne_acquiring _ type rest)
  | get ho hf hnext =>
    refine Neat.releasePackets _ ((h.setStream ((h.streams _).readNext hnext)).setFiber fun type rest heq => ?_)
    exact absurd heq (fiber_ne_acquiring _ type rest)
  | timeout ho hf hq => exact h.setFiber nofun
  | writeFirst ho hf hw => exact h.acquireWritePacket (by decide) _
  | @writeMore o buf p ho hf hw hlast =>
    obtain ⟨hp, htype⟩ := (h.streams o).write p hw
    exact h.fillWritePacket hp htype _
  | @flush o p ho hf hw hlast =>
    obtain ⟨hp, -⟩ := (h.streams o).write p hw
    have hput := (h.setStream (o := o) (h.streams o).noWritePacket).putPacket (written_lastPacket hp)
    exact hput.acquireWritePacket (by decide) _
  | acquire ho hf hpool => exact h.acquireWritePacket (h.fibers _ _ _ hf) _
  | readerAcquire hr hp =>
    obtain ⟨hblank, ht⟩ := h.acquirePacket hp
    refine ht.setReader fun q hq => ?_
    rw [List.mem_singleton.1 hq]
    exact hblank
  | readerPass hr hi hslot => exact h.setReader nofun
  | readerDisconnect hr hi hslot hp =>
    obtain ⟨hblank, ht⟩ := h.acquirePacket hp
    exact (ht.pushDisconnect hblank).setReader nofun
  | readerBlock hr hi hslot hp => exact h.setReader nofun
  | readerDisconnectLate hr hp =>
    obtain ⟨hblank, ht⟩ := h.acquirePacket hp
    exact (ht.pushDisconnect hblank).setReader nofun
  | readerLoopEnd hr hi => exact h.setReader nofun
  | readerStreamsStopped hr he =>
    refine ⟨h.free, fun q hq => h.queued q ?_, nofun, h.writer, h.streams, h.fibers⟩
    simpa using hq
  | readerWriterStopped hr he => exact ⟨h.free, h.queued, nofun, h.writer, h.streams, h.fibers⟩
  | readerFail hr => exact ((h.releasePacket _).setState _).setReader nofun
  | @writerGet p queue hw hq =>
    have hrest : ∀ q, some q ∈ queue → some q ∈ s.writerQueue := fun q hmem => by
      rw [hq]
      exact List.mem_cons_of_mem _ hmem
    refine (h.setQueue hrest).setWriter fun q hmem => ?_
    rw [List.mem_singleton.1 hmem]
    exact h.queued p (by rw [hq]; exact List.mem_cons_self)
  | writerSkip hw hq =>
    refine (h.setQueue fun q hmem => ?_).releasePacket _
    rw [hq]
    exact List.mem_cons_of_mem _ hmem
  | writerEnd hw hq =>
    refine ⟨h.free, fun q hmem => h.queued q ?_, h.reader, nofun, h.streams, h.fibers⟩
    rw [hq]
    exact List.mem_cons_of_mem _ hmem
  | writeOk hw =>
    refine (h.releasePacket _).setWriter fun q hq => ?_
    split at hq
    · cases hq
    · cases hq
  | writeFail hw => exact ((h.releasePacket _).setState _).setWriter nofun
  | flushOk hw => exact h.setWriter nofun
  | flushFail hw => exact (h.setState _).setWriter nofun

theorem Neat.enter (h : s.Neat) (r : RequestId) (o : StreamNo) : (s.enter r o).Neat := by
  have hps : ((s.streams o).initialise r).Neat := ⟨(h.streams o).write, (h.streams o).read, (h.streams o).queue⟩
  have hset := (h.setStream (o := o) hps).setFiber (o := o) (f := .running) nofun
  exact ⟨hset.free, hset.queued, hset.reader, hset.writer, hset.streams, hset.fibers⟩

theorem Neat.deliver (h : s.Neat) (hp : p.Readable) : (s.deliver o p).Neat := (h.pushPacket hp).setReader nofun

theorem Neat.releaseStream (h : s.Neat) (o : StreamNo) : (s.releaseStream o).Neat := by
  have hset := (Neat.releasePackets (s.streams o).packets h).setStream (o := o) PacketStream.neat_create
  exact ⟨hset.free, hset.queued, hset.reader, hset.writer, hset.streams, hset.fibers⟩

end StreamProcessor

/-! ## What owners write into -/

def Fiber.writeType : Fiber → PacketStream → Option PacketType
  | .acquiring type _, _ => some type
  | _, ps => ps.currentWritePacket.map Packet.type

namespace StreamProcessor

variable {s s' : StreamProcessor} {p : Packet} {o i : StreamNo}

/-- The type of the packet that the owner of `o` writes into, or waits for. -/
def writeType (s : StreamProcessor) (o : StreamNo) : Option PacketType := (s.fibers o).writeType (s.streams o)

theorem writeType_eq (hf : ∀ type rest, s.fibers o ≠ .acquiring type rest) :
    s.writeType o = (s.streams o).currentWritePacket.map Packet.type := by
  unfold writeType Fiber.writeType
  cases h : s.fibers o with
  | running => rfl
  | reading len buf => rfl
  | acquiring type rest => exact absurd h (hf type rest)

theorem writeType_congr (hf : s'.fibers i = s.fibers i)
    (hw : (s'.streams i).currentWritePacket = (s.streams i).currentWritePacket) : s'.writeType i = s.writeType i := by
  unfold writeType Fiber.writeType
  rw [hf]
  cases s.fibers i with
  | acquiring type rest => rfl
  | running => exact congrArg (Option.map Packet.type) hw
  | reading len buf => exact congrArg (Option.map Packet.type) hw

theorem writeType_fillWritePacket (s : StreamProcessor) (o : StreamNo) (p : Packet) (buf : List UInt8) :
    (s.fillWritePacket o p buf).writeType o = some p.type ∨ (s.fillWritePacket o p buf).writeType o = some .middle := by
  unfold fillWritePacket
  dsimp only
  split
  · left
    simp [writeType, Fiber.writeType, setStream, setFiber]
  · right
    simp [writeType, Fiber.writeType, setFiber]

theorem writeType_acquireWritePacket (s : StreamProcessor) (o : StreamNo) (type : PacketType) (rest : List UInt8) :
    (s.acquireWritePacket o type rest).writeType o = some type ∨
      (s.acquireWritePacket o type rest).writeType o = some .middle := by
  unfold acquireWritePacket
  split
  · exact writeType_fillWritePacket _ _ _ _
  · left
    simp [writeType, Fiber.writeType, setFiber]

/-- **Who does not write keeps the packet to write into.** -/
theorem Turn.writeType {e : Event} (hs : s.Sound) (ht : Turn s e s') (hi : e.writesOn ≠ some i) :
    s'.writeType i = s.writeType i := by
  cases hown : e.owner with
  | some o =>
    by_cases ho : i = o
    · subst ho
      have hr : e.readsOn = some i := by
        cases hr : e.readsOn with
        | some j =>
          rw [Event.owner, hr] at hown
          exact hown
        | none =>
          rw [Event.owner, hr] at hown
          exact absurd hown hi
      have hw : (s'.streams i).currentWritePacket = (s.streams i).currentWritePacket := by
        obtain ⟨-, current, queue, f, pool, -, rfl⟩ := ht.readFrame hr
        simp
      have hfibers : (∀ type rest, s.fibers i ≠ .acquiring type rest) ∧ ∀ type rest, s'.fibers i ≠ .acquiring type rest := by
        cases ht with
        | read ho hf =>
          cases hr
          refine ⟨by simp [hf], fun type rest => ?_⟩
          simpa [setFiber] using fiber_ne_acquiring _ type rest
        | get ho hf hnext =>
          cases hr
          refine ⟨by simp [hf], fun type rest => ?_⟩
          simpa [releasePackets_eq, setFiber] using fiber_ne_acquiring _ type rest
        | timeout ho hf hq =>
          cases hr
          exact ⟨by simp [hf], by simp [setFiber]⟩
        | _ => cases hr
      rw [writeType_eq hfibers.1, writeType_eq hfibers.2, hw]
    · obtain ⟨-, ps, f, pool, queue, -, -, rfl⟩ := ht.ownerFrame hs.fiberOk hown
      exact writeType_congr (Function.update_of_ne ho _ _) (by simp [ho])
  | none =>
    cases ht.system hown with
    | readerDisconnect | readerDisconnectLate => exact writeType_congr rfl (pushPacket_currentWritePacket s _ _ i)
    | _ => exact writeType_congr rfl rfl

end StreamProcessor

/-! ## Where packets are -/

/-- Where a packet may be between two turns.  Within a turn it is also in the hand of the fiber whose turn it is. -/
inductive Place where
  | packetsPool
  | writerQueue
  | readerQueue (o : StreamNo)
  | currentReadPacket (o : StreamNo)
  | currentWritePacket (o : StreamNo)
  | readerHand
  | writerHand
  deriving DecidableEq, Repr

namespace StreamProcessor

variable {s : StreamProcessor}

/-- The packets at a place. -/
def packetsAt (s : StreamProcessor) : Place → List Packet
  | .packetsPool => s.packetsPool.free
  | .writerQueue => s.writerQueue.filterMap id
  | .readerQueue o => (s.streams o).readerQueue
  | .currentReadPacket o => (s.streams o).currentReadPacket.toList
  | .currentWritePacket o => (s.streams o).currentWritePacket.toList
  | .readerHand => s.reader.packets
  | .writerHand => s.writer.packets

/-- The packets at a place, each with its place. -/
def tagged (s : StreamProcessor) (place : Place) : Multiset (Place × Nat) :=
  ((s.packetsAt place).map fun p => (place, p.addr) : Multiset (Place × Nat))

/-- The packets of one stream, each with its place. -/
def streamWhereabouts (s : StreamProcessor) (o : StreamNo) : Multiset (Place × Nat) :=
  s.tagged (.currentWritePacket o) + s.tagged (.currentReadPacket o) + s.tagged (.readerQueue o)

/-- All packets, each with its place. -/
def whereabouts (s : StreamProcessor) : Multiset (Place × Nat) :=
  s.tagged .packetsPool + s.tagged .writerQueue + s.tagged .readerHand + s.tagged .writerHand +
    ∑ o, s.streamWhereabouts o

theorem whereabouts_eq (s : StreamProcessor) : s.whereabouts = s.tagged .packetsPool + s.tagged .writerQueue +
    s.tagged .readerHand + s.tagged .writerHand + ∑ o, s.streamWhereabouts o := rfl

-- the sum over all streams is not to be computed
attribute [irreducible] whereabouts

theorem mem_tagged {place place' : Place} {n : Nat} :
    (place', n) ∈ s.tagged place ↔ place' = place ∧ n ∈ (s.packetsAt place).map Packet.addr := by
  simp only [tagged, Multiset.mem_coe, List.mem_map, Prod.mk.injEq]
  constructor
  · rintro ⟨p, hp, rfl, rfl⟩
    exact ⟨rfl, p, hp, rfl⟩
  · rintro ⟨rfl, p, hp, rfl⟩
    exact ⟨p, hp, rfl, rfl⟩

theorem map_snd_tagged (s : StreamProcessor) (place : Place) :
    (s.tagged place).map Prod.snd = addrs (s.packetsAt place) := by
  simp [tagged, addrs, Function.comp_def]

/-- **Each place has its part of the whole.** -/
theorem exists_whereabouts_eq (s : StreamProcessor) (place : Place) :
    ∃ rest, s.whereabouts = s.tagged place + rest := by
  have hstream : ∀ o, ∃ rest, s.whereabouts = s.streamWhereabouts o + rest := fun o => by
    refine ⟨s.tagged .packetsPool + s.tagged .writerQueue + s.tagged .readerHand + s.tagged .writerHand +
      ∑ i ∈ Finset.univ.erase o, s.streamWhereabouts i, ?_⟩
    rw [whereabouts_eq, ← Finset.add_sum_erase _ _ (Finset.mem_univ o)]
    abel
  cases place with
  | packetsPool =>
    refine ⟨s.tagged .writerQueue + s.tagged .readerHand + s.tagged .writerHand + ∑ o, s.streamWhereabouts o, ?_⟩
    rw [whereabouts_eq]
    abel
  | writerQueue =>
    refine ⟨s.tagged .packetsPool + s.tagged .readerHand + s.tagged .writerHand + ∑ o, s.streamWhereabouts o, ?_⟩
    rw [whereabouts_eq]
    abel
  | readerHand =>
    refine ⟨s.tagged .packetsPool + s.tagged .writerQueue + s.tagged .writerHand + ∑ o, s.streamWhereabouts o, ?_⟩
    rw [whereabouts_eq]
    abel
  | writerHand =>
    refine ⟨s.tagged .packetsPool + s.tagged .writerQueue + s.tagged .readerHand + ∑ o, s.streamWhereabouts o, ?_⟩
    rw [whereabouts_eq]
    abel
  | currentWritePacket o =>
    obtain ⟨rest, hrest⟩ := hstream o
    refine ⟨s.tagged (.currentReadPacket o) + s.tagged (.readerQueue o) + rest, ?_⟩
    rw [hrest, streamWhereabouts]
    abel
  | currentReadPacket o =>
    obtain ⟨rest, hrest⟩ := hstream o
    refine ⟨s.tagged (.currentWritePacket o) + s.tagged (.readerQueue o) + rest, ?_⟩
    rw [hrest, streamWhereabouts]
    abel
  | readerQueue o =>
    obtain ⟨rest, hrest⟩ := hstream o
    refine ⟨s.tagged (.currentWritePacket o) + s.tagged (.currentReadPacket o) + rest, ?_⟩
    rw [hrest, streamWhereabouts]
    abel

theorem mem_whereabouts {place : Place} {n : Nat} :
    (place, n) ∈ s.whereabouts ↔ n ∈ (s.packetsAt place).map Packet.addr := by
  constructor
  · intro h
    simp only [whereabouts_eq, streamWhereabouts, Multiset.mem_add, Multiset.mem_sum, Finset.mem_univ, true_and,
      mem_tagged] at h
    rcases h with (((h | h) | h) | h) | ⟨o, (h | h) | h⟩
    all_goals
      obtain ⟨rfl, h⟩ := h
      exact h
  · intro h
    obtain ⟨rest, hrest⟩ := s.exists_whereabouts_eq place
    rw [hrest, Multiset.mem_add]
    exact Or.inl (mem_tagged.2 ⟨rfl, h⟩)

theorem map_snd_whereabouts (s : StreamProcessor) : s.whereabouts.map Prod.snd = addrs s.packetsPool.free + s.held := by
  simp only [whereabouts_eq, Multiset.map_add, map_snd_tagged, packetsAt, held, PacketStream.packets, addrs_append]
  rw [← Multiset.coe_mapAddMonoidHom, map_sum]
  simp only [Multiset.coe_mapAddMonoidHom, streamWhereabouts, Multiset.map_add, map_snd_tagged, packetsAt]
  abel

theorem Conserved.map_snd_whereabouts (h : s.Conserved []) :
    s.whereabouts.map Prod.snd = Multiset.range s.packetsPool.created := by
  have htotal := h.1.total
  rw [addrs_nil, zero_add] at htotal
  rw [StreamProcessor.map_snd_whereabouts]
  exact htotal

theorem Conserved.nodup_whereabouts (h : s.Conserved []) : (s.whereabouts.map Prod.snd).Nodup := by
  rw [h.map_snd_whereabouts]
  exact Multiset.nodup_range _

/-- **No place has more packets than the pool can make.** -/
theorem Conserved.length_packetsAt_le (h : s.Conserved []) (place : Place) :
    (s.packetsAt place).length ≤ maxPacketsCnt := by
  obtain ⟨rest, hrest⟩ := s.exists_whereabouts_eq place
  have htotal := congrArg Multiset.card h.map_snd_whereabouts
  rw [hrest, Multiset.card_map, Multiset.card_range, Multiset.card_add, tagged, Multiset.coe_card,
    List.length_map] at htotal
  have hcap := h.1.capacity
  rw [h.2] at hcap
  omega

/-- Every packet that was made is in one place, once, and those in the pool are blank. -/
structure Placed (s : StreamProcessor) : Prop where
  unique : ∀ n, n < s.packetsPool.created → ∃! place, n ∈ (s.packetsAt place).map Packet.addr
  made : ∀ place, ∀ p ∈ s.packetsAt place, p.addr < s.packetsPool.created
  once : ∀ place, ((s.packetsAt place).map Packet.addr).Nodup
  blank : ∀ p ∈ s.packetsAt .packetsPool, p.Blank

theorem Sound.placed (h : s.Sound) (hneat : s.Neat) : s.Placed := by
  have htotal := h.conserved.map_snd_whereabouts
  have hnodup := h.conserved.nodup_whereabouts
  refine ⟨fun n hn => ?_, fun place p hp => ?_, fun place => ?_, hneat.free⟩
  · rw [← Multiset.mem_range, ← htotal] at hn
    obtain ⟨⟨place, n'⟩, hmem, rfl⟩ := Multiset.mem_map.1 hn
    refine ⟨place, mem_whereabouts.1 hmem, fun place' hmem' => ?_⟩
    have heq := Multiset.inj_on_of_nodup_map hnodup _ (mem_whereabouts.2 hmem') _ hmem rfl
    exact congrArg Prod.fst heq
  · have hmem : (place, p.addr) ∈ s.whereabouts := mem_whereabouts.2 (List.mem_map_of_mem hp)
    have hrange := Multiset.mem_map_of_mem Prod.snd hmem
    rw [htotal, Multiset.mem_range] at hrange
    exact hrange
  · obtain ⟨rest, hrest⟩ := s.exists_whereabouts_eq place
    rw [hrest, Multiset.map_add, map_snd_tagged] at hnodup
    exact Multiset.coe_nodup.1 (Multiset.nodup_add.1 hnodup).1

/-! ## Puts -/

/-- What a turn did with a blocking queue of `maxPacketsCnt` places: it took from it, or put `x` where there was room. -/
def Used {α : Type} (queue queue' : List α) : Prop :=
  queue' <:+ queue ∨ ∃ x, queue' = queue ++ [x] ∧ queue.length < maxPacketsCnt

/-- No put of a packet had to wait; the terminating `NULL` may. -/
structure PutsFit (s s' : StreamProcessor) : Prop where
  writerQueue : s'.writerQueue = s.writerQueue ++ [none] ∨ Used s.writerQueue s'.writerQueue
  readerQueue : ∀ o, Used (s.streams o).readerQueue (s'.streams o).readerQueue

theorem Used.refl {α : Type} (queue : List α) : Used queue queue := Or.inl (List.suffix_refl _)

/-- The writer queue got at most one packet. -/
def PutsOne (s s' : StreamProcessor) : Prop :=
  s'.writerQueue = s.writerQueue ∨ ∃ p, s'.writerQueue = s.writerQueue ++ [some p]

theorem putsOne_fillWritePacket (s : StreamProcessor) (o : StreamNo) (p : Packet) (buf : List UInt8) :
    s.PutsOne (s.fillWritePacket o p buf) := by
  unfold fillWritePacket
  dsimp only
  split
  · exact Or.inl rfl
  · exact Or.inr ⟨_, rfl⟩

theorem putsOne_acquireWritePacket (s : StreamProcessor) (o : StreamNo) (type : PacketType) (rest : List UInt8) :
    s.PutsOne (s.acquireWritePacket o type rest) := by
  unfold acquireWritePacket
  split
  · rename_i p t hp
    obtain ⟨pool, -, rfl⟩ := acquirePacket_eq hp
    exact putsOne_fillWritePacket { s with packetsPool := pool } o _ rest
  · exact Or.inl rfl

/-- A packet that has nothing to take is not put. -/
theorem writerQueue_acquireWritePacket_nil (s : StreamProcessor) (o : StreamNo) (type : PacketType) :
    (s.acquireWritePacket o type []).writerQueue = s.writerQueue := by
  unfold acquireWritePacket
  split
  · rename_i p t hp
    obtain ⟨pool, -, rfl⟩ := acquirePacket_eq hp
    simp [fillWritePacket, Packet.writeData, setStream, setFiber]
  · rfl

theorem Turn.putsOne {e : Event} (ht : Turn s e s') (hown : e.owner = some o) : s.PutsOne s' := by
  cases hr : e.readsOn with
  | some i =>
    obtain ⟨-, current, queue, f, pool, -, rfl⟩ := ht.readFrame hr
    exact Or.inl rfl
  | none =>
    cases ht with
    | read | get | timeout => cases hr
    | writeFirst ho hf hw => exact s.putsOne_acquireWritePacket _ _ _
    | writeMore ho hf hw hlast => exact s.putsOne_fillWritePacket _ _ _
    | @flush o p ho hf hw hlast =>
      refine Or.inr ⟨lastPacket p, ?_⟩
      rw [writerQueue_acquireWritePacket_nil]
      rfl
    | acquire ho hf hpool => exact s.putsOne_acquireWritePacket _ _ _
    | _ => cases hown

/-- **A put into the writer queue finds room**: with the packet the queue is no longer than the pool. -/
theorem PutsOne.used (h : s.PutsOne s') (hs : s'.Sound) (hnone : none ∉ s'.writerQueue) :
    Used s.writerQueue s'.writerQueue := by
  rcases h with heq | ⟨p, heq⟩
  · rw [heq]
    exact Used.refl _
  · refine Or.inr ⟨some p, heq, ?_⟩
    obtain ⟨q, hq⟩ := eq_map_some_of_none_notMem _ hnone
    have hle := hs.conserved.length_packetsAt_le .writerQueue
    rw [packetsAt, hq, List.filterMap_map] at hle
    have hlen := congrArg List.length heq
    rw [hq, List.length_append, List.length_map] at hlen
    simp at hle hlen
    omega

/-- The owner took packets from a reader queue, or the reader put one into it. -/
def PushesOne (s s' : StreamProcessor) (o : StreamNo) : Prop :=
  (s'.streams o).readerQueue <:+ (s.streams o).readerQueue ∨
    ∃ p, (s'.streams o).readerQueue = (s.streams o).readerQueue ++ [p]

/-- **A put into a reader queue finds room.** -/
theorem PushesOne.used (h : s.PushesOne s' o) (hs : s'.Sound) :
    Used (s.streams o).readerQueue (s'.streams o).readerQueue := by
  rcases h with hsuffix | ⟨p, heq⟩
  · exact Or.inl hsuffix
  · have hle := hs.conserved.length_packetsAt_le (.readerQueue o)
    rw [packetsAt, heq, List.length_append, List.length_singleton] at hle
    exact Or.inr ⟨p, heq, hle⟩

theorem pushesOne_of_streams (h : s'.streams o = s.streams o) : s.PushesOne s' o := by
  rw [PushesOne, h]
  exact Or.inl (List.suffix_refl _)

theorem pushesOne_pushPacket (s : StreamProcessor) (o : StreamNo) (p : Packet) (i : StreamNo) :
    s.PushesOne (s.pushPacket o p) i := by
  by_cases hi : i = o
  · subst hi
    exact Or.inr ⟨p, by simp [pushPacket, setStream, PacketStream.pushPacket]⟩
  · exact pushesOne_of_streams (Function.update_of_ne hi _ _)

theorem Turn.pushesOne {e : Event} (hs : s.Sound) (ht : Turn s e s') (i : StreamNo) : s.PushesOne s' i := by
  cases hown : e.owner with
  | some o =>
    by_cases hi : i = o
    · subst hi
      cases hr : e.readsOn with
      | some o' =>
        rw [Event.owner, hr] at hown
        cases hown
        cases ht with
        | @read _ len ho hf =>
          cases hr
          rcases (s.streams i).read_cases len with ⟨-, heq⟩ | ⟨current, -, heq⟩
          · exact pushesOne_of_streams (by simp [setStream, setFiber, heq])
          · exact Or.inl (by simp [setStream, setFiber, heq])
        | get ho hf hnext =>
          cases hr
          obtain ⟨p, queue, hq, ⟨-, -, rfl, -⟩ | ⟨-, -, rfl, -⟩⟩ := PacketStream.readNext_cases hnext
          · exact Or.inl (by simp [releasePackets_eq, setStream, setFiber, hq])
          · exact Or.inl (by simp [releasePackets_eq, setStream, setFiber, hq])
        | timeout ho hf hq => exact pushesOne_of_streams rfl
        | _ => cases hr
      | none =>
        rw [Event.owner, hr] at hown
        obtain ⟨-, current, f, pool, queue, -, -, rfl⟩ := ht.writeFrame hs.fiberOk hown
        exact Or.inl (by simp)
    · obtain ⟨-, ps, f, pool, queue, -, -, rfl⟩ := ht.ownerFrame hs.fiberOk hown
      exact pushesOne_of_streams (Function.update_of_ne hi _ _)
  | none =>
    cases ht.system hown with
    | readerDisconnect | readerDisconnectLate => exact pushesOne_pushPacket s _ _ i
    | _ => exact pushesOne_of_streams rfl

/-- **No shared turn puts a packet where there is no room.** -/
theorem Turn.putsFit {e : Event} (hs : s.Sound) (hs' : s'.Sound) (hp : s'.Phased) (ht : Turn s e s') : s.PutsFit s' := by
  refine ⟨?_, fun i => (ht.pushesOne hs i).used hs'⟩
  cases hown : e.owner with
  | some o =>
    -- the owner is active, so the writer was not told to stop
    have hpos : 0 < s'.activeCnt := hs'.activeCnt_pos ((ht.owned_iff hs).2 (ht.ownerFrame hs.fiberOk hown).1)
    exact Or.inr ((ht.putsOne hown).used hs' (hp.busy hpos).2.1)
  | none =>
    cases ht.system hown with
    | readerStreamsStopped hr he => exact Or.inl rfl
    | writerGet hw hq => exact Or.inr (Or.inl (by simp [hq]))
    | writerSkip hw hq => exact Or.inr (Or.inl (by simp [hq, releasePacket]))
    | writerEnd hw hq => exact Or.inr (Or.inl (by simp [hq]))
    | _ => exact Or.inr (Used.refl _)

theorem putsFit_releaseStream (s : StreamProcessor) (o : StreamNo) : s.PutsFit (s.releaseStream o) := by
  refine ⟨Or.inr ?_, fun i => ?_⟩
  · rw [releaseStream_eq]
    exact Used.refl _
  · rw [streams_releaseStream]
    by_cases hi : i = o
    · subst hi
      exact Or.inl (by simp [PacketStream.create])
    · rw [Function.update_of_ne hi]
      exact Used.refl _

end StreamProcessor

/-! ## The server -/

namespace ServerStreamProcessor

variable {s s' : StreamProcessor}

theorem length_le_of_receive {f : Frame} {o : StreamNo} (h : step s (.receive f o) = some s') :
    f.body.length ≤ maxPacketSize := by
  simp only [step, receive] at h
  split at h
  · split at h
    · assumption
    · cases h
  · cases h

theorem neat_step {a : Action} (h : s.Neat) (hs : step s a = some s') : s'.Neat := by
  cases outcome_of_step hs with
  | event ht => exact h.turn ht
  | start hr hst => exact (h.setState _).setReader nofun
  | readerStart hr => exact ⟨h.free, h.queued, nofun, nofun, h.streams, h.fibers⟩
  | @begun f p o hr hf hslot ho =>
    have hp : p.Blank := h.reader p (by rw [hr]; exact List.mem_singleton_self p)
    exact (h.enter _ _).deliver (hp.ofFrame (length_le_of_receive hs))
  | @continued f p o o' hr hf hslot =>
    have hp : p.Blank := h.reader p (by rw [hr]; exact List.mem_singleton_self p)
    exact h.deliver (hp.ofFrame (length_le_of_receive hs))
  | unexpected hr hf => exact h.turn (.readerFail hr)
  | returned ho hf => exact h.releaseStream _
  | failed ho hf => exact StreamProcessor.Neat.releaseStream (s := s.stopAsync) (h.setState _) _
  | stopAsync hst => exact h.setState _

theorem neat_create : create.Neat := by
  refine ⟨nofun, nofun, nofun, nofun, fun _ => PacketStream.neat_create, nofun⟩

theorem putsFit_step {a : Action} (h : Sound s) (hs : step s a = some s') : s.PutsFit s' := by
  have h' := h.step hs
  cases outcome_of_step hs with
  | event ht => exact ht.putsFit h.core h'.core h'.phased
  | start | readerStart | stopAsync =>
    exact ⟨Or.inr (StreamProcessor.Used.refl _), fun i => StreamProcessor.Used.refl _⟩
  | @begun f p o hr hf hslot ho =>
    refine ⟨Or.inr (StreamProcessor.Used.refl _), fun i => ?_⟩
    have hpush := StreamProcessor.pushesOne_pushPacket (s.enter f.requestId o) o (p.ofFrame f) i
    have henter : ((s.enter f.requestId o).streams i).readerQueue = (s.streams i).readerQueue := by
      by_cases hi : i = o
      · subst hi
        simp [StreamProcessor.enter, PacketStream.initialise]
      · simp [StreamProcessor.enter, hi]
    rw [StreamProcessor.PushesOne, henter] at hpush
    exact StreamProcessor.PushesOne.used (s := s) hpush h'.core
  | continued hr hf hslot =>
    refine ⟨Or.inr (StreamProcessor.Used.refl _), fun i => ?_⟩
    exact StreamProcessor.PushesOne.used (s := s) (StreamProcessor.pushesOne_pushPacket s _ _ i) h'.core
  | unexpected hr hf => exact (StreamProcessor.Turn.readerFail hr).putsFit h.core h'.core h'.phased
  | returned ho hf => exact s.putsFit_releaseStream _
  | @failed o ho hf =>
    have hfit := s.stopAsync.putsFit_releaseStream o
    exact ⟨hfit.writerQueue, hfit.readerQueue⟩

/-- **Packets are conserved in every run**: each that was made is in one place, those in the pool are blank, and no put
of a packet into a queue finds it full. -/
theorem packets_placed (as : List Action) (s : StreamProcessor) (hrun : Run.exec step create as = some s) :
    s.Placed ∧ ∀ a s', step s a = some s' → s.PutsFit s' := by
  have h : Sound s ∧ s.Neat := Run.invariant (P := fun s => Sound s ∧ s.Neat)
    (fun _ _ _ ⟨hsound, hneat⟩ _ hstep => ⟨hsound.step hstep, neat_step hneat hstep⟩) as ⟨sound_create, neat_create⟩
    (Run.meets_true _ _) hrun
  exact ⟨h.1.core.placed h.2, fun a s' hstep => putsFit_step h.1 hstep⟩

/-- The first packet of a request is in its reader queue. -/
theorem packets_placed_request : Run.exec step create request = some requested ∧
    (∃! place, 0 ∈ (requested.packetsAt place).map Packet.addr) ∧
    ∀ a s', step requested a = some s' → requested.PutsFit s' := by
  obtain ⟨hplaced, hfit⟩ := packets_placed request requested exec_request
  exact ⟨exec_request, hplaced.unique 0 (by decide), hfit⟩

end ServerStreamProcessor
end Mrpc
