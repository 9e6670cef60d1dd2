import MultiplexingRpc.PacketPlaces
import MultiplexingRpc.Lane
/-!
# Ends — a request id as a stream processor has it

`Lane` speaks of an end of a connection as bytes that came and bytes that are to go.  Here a stream processor is such an
end for each request id (`endOf`), and its turns are moves of that end.
-/
namespace Mrpc

/-! ## The two sides of a stream -/

/-- What a read that waits has so far. -/
def Fiber.buffer : Fiber → List UInt8
  | .reading _ buf => buf
  | _ => []

/-- What came and was returned by no read. -/
def Fiber.inbound (f : Fiber) (ps : PacketStream) : List UInt8 :=
  f.buffer ++ (ps.currentReadPacket.toList ++ ps.readerQueue).flatMap Packet.rest

/-- What was written and is in no packet of the writer queue. -/
def Fiber.pending : Fiber → PacketStream → List UInt8
  | .acquiring _ rest, _ => rest
  | _, ps => ps.currentWritePacket.elim [] Packet.body

/-- How far a message is, by the type of the packet to write into. -/
def Stage.ofType : Option PacketType → Stage
  | none | some .start => .unsent
  | some .middle => .sent
  | some .end_ | some .single => .done

/-- What a packet to write into has, or will have when it is there. -/
def Carries : PacketType → List UInt8 → Prop
  | .start, _ => True
  | .middle, bytes => bytes ≠ []
  | .end_, bytes => bytes = []
  | .single, _ => False

/-- The packets of a stream are in line with its owner. -/
structure Fiber.Lined (f : Fiber) (ps : PacketStream) : Prop where
  current : ∀ p ∈ ps.currentWritePacket, p.requestId = ps.requestId ∧ Carries p.type p.body
  acquiring : ∀ type rest, f = .acquiring type rest → Carries type rest
  spent : ∀ len buf, f = .reading len buf → ∀ p ∈ ps.currentReadPacket, p.rest = []

/-- What a read notes. -/
def ReadOutcome.deed : ReadOutcome → Deed
  | .success buf => .returned (some buf)
  | .failure => .returned none
  | .waits _ _ => .nothing

/-- What a read takes from what came. -/
def ReadOutcome.Takes : ReadOutcome → List UInt8 → List UInt8 → Prop
  | .success buf, before, after => before = buf ++ after
  | .failure, before, after => ∃ lost, before = lost ++ after
  | .waits _ _, before, after => before = after

namespace PacketStream

variable {ps ps' : PacketStream} {len : Nat} {buf : List UInt8}

theorem rest_copy (p : Packet) (len : Nat) (buf : List UInt8) : (copy p len buf).1.rest = (p.readData len).2.rest := by
  unfold copy
  dsimp only
  split
  · rfl
  · split <;> rfl

theorem takes_copy (p : Packet) (len : Nat) (buf more : List UInt8) :
    (copy p len buf).2.Takes (buf ++ (p.rest ++ more))
      ((copy p len buf).2.fiber.buffer ++ ((copy p len buf).1.rest ++ more)) := by
  rw [rest_copy, ← p.readData_append_rest len]
  unfold copy
  dsimp only
  split
  · simp [ReadOutcome.Takes, ReadOutcome.fiber, Fiber.buffer]
  · split
    · exact ⟨buf ++ (p.readData len).1, by simp [ReadOutcome.fiber, Fiber.buffer]⟩
    · simp [ReadOutcome.Takes, ReadOutcome.fiber, Fiber.buffer]

/-- **A read waits when its packet is used up.** -/
theorem rest_of_copy_waits {p : Packet} {n : Nat} {b : List UInt8} (h : (copy p len buf).2 = .waits n b) :
    (copy p len buf).1.rest = [] := by
  have hne : len - (p.readData len).1.length ≠ 0 := by
    unfold copy at h
    dsimp only at h
    split at h
    · cases h
    · assumption
  have hlt : (p.readData len).1.length < len := by omega
  simp only [Packet.readData, List.length_take] at hlt
  rw [rest_copy]
  simp only [Packet.rest, Packet.readData, List.length_take, List.length_drop, List.drop_eq_nil_iff] at hlt ⊢
  omega

theorem takes_read (ps : PacketStream) (len : Nat) :
    (ps.read len).2.Takes (Fiber.running.inbound ps) ((ps.read len).2.fiber.inbound (ps.read len).1) := by
  rcases ps.read_cases len with ⟨hc, heq⟩ | ⟨current, hc, heq⟩
  · rw [heq]
    rfl
  · rw [heq]
    have h := takes_copy current len [] (ps.readerQueue.flatMap Packet.rest)
    simpa [Fiber.inbound, Fiber.buffer, hc] using h

theorem takes_readNext (hspent : ∀ p ∈ ps.currentReadPacket, p.rest = []) {released : Option Packet}
    {outcome : ReadOutcome} (h : ps.readNext len buf = some (released, ps', outcome)) :
    outcome.Takes ((Fiber.reading len buf).inbound ps) (outcome.fiber.inbound ps') := by
  have hcurrent : ps.currentReadPacket.toList.flatMap Packet.rest = [] := by
    cases hc : ps.currentReadPacket with
    | none => rfl
    | some p => simp [hspent p hc]
  obtain ⟨p, queue, hq, ⟨-, -, rfl, rfl⟩ | ⟨-, -, rfl, rfl⟩⟩ := readNext_cases h
  · have htakes := takes_copy p len buf (queue.flatMap Packet.rest)
    simpa [Fiber.inbound, Fiber.buffer, hq, hcurrent] using htakes
  · refine ⟨buf ++ p.rest, ?_⟩
    simp [Fiber.inbound, Fiber.buffer, ReadOutcome.fiber, hq, hcurrent]

/-- **A stream stays in line when its owner reads.** -/
theorem lined_copy {f : Fiber} (h : f.Lined ps) (queue : List Packet) (p : Packet) (len : Nat) (buf : List UInt8) :
    (copy p len buf).2.fiber.Lined { ps with readerQueue := queue, currentReadPacket := some (copy p len buf).1 } := by
  refine ⟨h.current, fun type rest hf => absurd hf (StreamProcessor.fiber_ne_acquiring _ type rest), fun n b hf q hq => ?_⟩
  cases hq
  refine rest_of_copy_waits (n := n) (b := b) ?_
  cases ho : (copy p len buf).2 with
  | success b => simp [ho, ReadOutcome.fiber] at hf
  | failure => simp [ho, ReadOutcome.fiber] at hf
  | waits n b =>
    simp only [ho, ReadOutcome.fiber, Fiber.reading.injEq] at hf
    rw [hf.1, hf.2]

theorem lined_read {f : Fiber} (h : f.Lined ps) (len : Nat) : (ps.read len).2.fiber.Lined (ps.read len).1 := by
  rcases ps.read_cases len with ⟨hc, heq⟩ | ⟨current, hc, heq⟩
  · rw [heq]
    refine ⟨h.current, nofun, fun _ _ _ p hp => ?_⟩
    rw [hc] at hp
    cases hp
  · rw [heq]
    exact lined_copy h ps.readerQueue current len []

theorem lined_readNext {f : Fiber} (h : f.Lined ps) {released : Option Packet} {outcome : ReadOutcome}
    (hnext : ps.readNext len buf = some (released, ps', outcome)) : outcome.fiber.Lined ps' := by
  obtain ⟨p, queue, hq, ⟨-, -, rfl, rfl⟩ | ⟨-, -, rfl, rfl⟩⟩ := readNext_cases hnext
  · exact lined_copy h queue p len buf
  · exact ⟨h.current, nofun, nofun⟩

end PacketStream

/-! ## Moves -/

namespace End.Move

variable {e : End} {d : Deed} {bytes buf : List UInt8} {p : Packet}

theorem read {outcome : ReadOutcome} (ha : e.active = true) {after : List UInt8} (h : outcome.Takes e.inbound after) :
    e.Move outcome.deed { e with inbound := after } := by
  cases outcome with
  | success b => exact .returned ha h
  | failure =>
    obtain ⟨lost, h⟩ := h
    exact .failed ha h
  | waits n b =>
    rw [← show e.inbound = after from h]
    exact .stay

/-- A packet that is full goes to the writer. -/
theorem fill (ha : e.active = true) (hd : d = .wrote bytes ∨ (d = .nothing ∧ bytes = []))
    (hbytes : p.body ++ buf = e.pending ++ bytes) (htype : p.type = .start ∨ p.type = .middle)
    (hstage : e.stage = Stage.ofType (some p.type)) (hp : p.body.length ≤ maxPacketSize) :
    ((p.writeData buf).2 = [] → e.Move d { e with pending := (p.writeData buf).1.body }) ∧
    ((p.writeData buf).2 ≠ [] → e.Move d { e with
      pending := (p.writeData buf).2, stage := .sent, outbound := e.emit (p.writeData buf).1.frame }) := by
  have hsplit := p.writeData_body buf
  have hs : e.stage ≠ .done := by
    rw [hstage]
    rcases htype with htype | htype <;> simp [htype, Stage.ofType]
  constructor
  · intro hrest
    rw [hrest, List.append_nil, hbytes] at hsplit
    rw [hsplit]
    exact .write hd ha hs
  · intro hrest
    refine .put hd ha hs (hsplit.trans hbytes) ?_ ?_
    · rw [hstage]
      show p.type.isFirst = true ↔ _
      rcases htype with htype | htype <;> simp [htype, Stage.ofType, PacketType.isFirst]
    · intro hnil
      have hlen := Packet.length_writeData hp hrest
      rw [show (p.writeData buf).1.body = [] from hnil] at hlen
      cases hlen

end End.Move

/-! ## Processors as ends -/

def Reader.listens : Reader → Bool
  | .acquiring | .reading _ => true
  | _ => false

def Writer.sends : Writer → Bool
  | .getting | .writing _ | .flushing => true
  | _ => false

namespace StreamProcessor

variable {s s' : StreamProcessor} {o : StreamNo} {r : RequestId} {p : Packet}

/-- The packets of a request id that the writer has yet to send. -/
def outbound (s : StreamProcessor) (r : RequestId) : List Frame :=
  if s.writer.sends then
    ((s.writer.packets ++ s.writerQueue.filterMap id).filter fun p => p.requestId = r).map Packet.frame
  else []

/-- What a processor has of a request id. -/
def endOf (s : StreamProcessor) (r : RequestId) : End where
  active := (s.active r).isSome
  listening := s.reader.listens
  writing := s.writer.sends
  inbound := (s.active r).elim [] fun o => (s.fibers o).inbound (s.streams o)
  pending := (s.active r).elim [] fun o => (s.fibers o).pending (s.streams o)
  stage := (s.active r).elim .unsent fun o => Stage.ofType (s.writeType o)
  outbound := s.outbound r

/-- Every stream is in line with its owner; one that has none is as new while the reader loops. -/
structure Lined (s : StreamProcessor) : Prop where
  ids : ∀ o, s.owned o → (s.streams o).requestId = s.requestIds o
  streams : ∀ o, s.owned o → (s.fibers o).Lined (s.streams o)
  idle : s.reader.listens = true → ∀ o, ¬ s.owned o → s.streams o = PacketStream.create

/-- The processor after its owner of `o` changed its stream and put packets of its own. -/
def ownerStep (s : StreamProcessor) (o : StreamNo) (f : Fiber) (ps : PacketStream) (pool : Pool Packet)
    (queue : List Packet) : StreamProcessor :=
  { s with
    streams := Function.update s.streams o ps
    fibers := Function.update s.fibers o f
    packetsPool := pool
    writerQueue := s.writerQueue ++ queue.map some }

/-- **What an owner does shows at its own request id only.** -/
theorem endOf_ownerStep_of_ne (hs : s.Sound) (hr : s.requestIds o ≠ r) {f : Fiber} {ps : PacketStream}
    {pool : Pool Packet} {queue : List Packet} (hq : ∀ p ∈ queue, p.requestId = s.requestIds o) :
    (s.ownerStep o f ps pool queue).endOf r = s.endOf r := by
  have hnil : queue.filter (fun p => p.requestId = r) = [] := by
    rw [List.filter_eq_nil_iff]
    intro p hp
    rw [hq p hp]
    simpa using hr
  have hout : (s.ownerStep o f ps pool queue).outbound r = s.outbound r := by
    simp only [outbound, ownerStep, List.filterMap_append, List.filterMap_map]
    rw [← List.append_assoc, List.filter_append]
    simp [hnil]
  unfold endOf
  rw [hout]
  cases ha : s.active r with
  | none => simp [ownerStep, ha]
  | some i =>
    have hi : i ≠ o := fun hio => hr (hio ▸ hs.requestIds r i ha)
    simp [ownerStep, ha, hi, writeType]

theorem endOf_ownerStep (ho : s.owned o) {f : Fiber} {ps : PacketStream} {pool : Pool Packet}
    {queue : List Packet} (hq : ∀ p ∈ queue, p.requestId = s.requestIds o) :
    (s.ownerStep o f ps pool queue).endOf (s.requestIds o) =
      { s.endOf (s.requestIds o) with
        inbound := f.inbound ps
        pending := f.pending ps
        stage := Stage.ofType (f.writeType ps)
        outbound := if s.writer.sends then s.outbound (s.requestIds o) ++ queue.map Packet.frame
          else s.outbound (s.requestIds o) } := by
  have hall : queue.filter (fun p => p.requestId = s.requestIds o) = queue :=
    List.filter_eq_self.2 fun p hp => by simp [hq p hp]
  have hout : (s.ownerStep o f ps pool queue).outbound (s.requestIds o) =
      if s.writer.sends then s.outbound (s.requestIds o) ++ queue.map Packet.frame else s.outbound (s.requestIds o) := by
    simp only [outbound, ownerStep, List.filterMap_append, List.filterMap_map]
    split
    · rw [← List.append_assoc, List.filter_append, List.map_append]
      simp [hall]
    · rfl
  have ha : s.active (s.requestIds o) = some o := ho
  unfold endOf
  rw [hout]
  simp [ownerStep, ha, writeType]

/-- What the owner of `o` notes when it takes its turn. -/
def deed (s : StreamProcessor) : Event → Deed
  | .read o len => ((s.streams o).read len).2.deed
  | .get o =>
    match s.fibers o with
    | .reading len buf => ((s.streams o).readNext len buf).elim .nothing fun next => next.2.2.deed
    | _ => .nothing
  | .timeout _ => .returned none
  | .write _ buf => .wrote buf
  | .flush _ => .flushed
  | _ => .nothing

/-- The owner of `o` changed what is its own, and that is a move of the end it has. -/
def OwnerMove (s : StreamProcessor) (o : StreamNo) (d : Deed) (s' : StreamProcessor) : Prop :=
  ∃ (f : Fiber) (ps : PacketStream) (pool : Pool Packet) (queue : List Packet),
    s' = s.ownerStep o f ps pool queue ∧ ps.requestId = (s.streams o).requestId ∧ f.Lined ps ∧
      (∀ p ∈ queue, p.requestId = s.requestIds o) ∧
      (s.endOf (s.requestIds o)).Move d ((s.ownerStep o f ps pool queue).endOf (s.requestIds o))

theorem ownerStep_nil (s : StreamProcessor) (o : StreamNo) (f : Fiber) (ps : PacketStream) (pool : Pool Packet) :
    s.ownerStep o f ps pool [] = { s with
      streams := Function.update s.streams o ps, fibers := Function.update s.fibers o f, packetsPool := pool } := by
  simp [ownerStep]

theorem endOf_ownerStep_nil (ho : s.owned o) {f : Fiber} {ps : PacketStream} {pool : Pool Packet} :
    (s.ownerStep o f ps pool []).endOf (s.requestIds o) =
      { s.endOf (s.requestIds o) with
        inbound := f.inbound ps, pending := f.pending ps, stage := Stage.ofType (f.writeType ps) } := by
  rw [endOf_ownerStep ho (by simp)]
  simp [endOf]

theorem endOf_owner (ho : s.owned o) :
    (s.endOf (s.requestIds o)).active = true ∧
    (s.endOf (s.requestIds o)).inbound = (s.fibers o).inbound (s.streams o) ∧
    (s.endOf (s.requestIds o)).pending = (s.fibers o).pending (s.streams o) ∧
    (s.endOf (s.requestIds o)).stage = Stage.ofType (s.writeType o) := by
  have ha : s.active (s.requestIds o) = some o := ho
  simp [endOf, ha]

/-! ## Reading -/

/-- **A turn of a read** changes the reading side of the stream. -/
theorem ownerMove_read (ho : s.owned o) (ps : PacketStream) (outcome : ReadOutcome) (pool : Pool Packet)
    (hid : ps.requestId = (s.streams o).requestId)
    (hw : ps.currentWritePacket = (s.streams o).currentWritePacket)
    (hf : ∀ type rest, s.fibers o ≠ .acquiring type rest) (hl : outcome.fiber.Lined ps)
    (htakes : outcome.Takes ((s.fibers o).inbound (s.streams o)) (outcome.fiber.inbound ps)) :
    s.OwnerMove o outcome.deed (s.ownerStep o outcome.fiber ps pool []) := by
  obtain ⟨ha, hin, hpend, hstage⟩ := endOf_owner ho
  refine ⟨outcome.fiber, ps, pool, [], rfl, hid, hl, nofun, ?_⟩
  rw [endOf_ownerStep_nil ho]
  have hpending : outcome.fiber.pending ps = (s.endOf (s.requestIds o)).pending := by
    have hout : outcome.fiber.pending ps = ps.currentWritePacket.elim [] Packet.body := by cases outcome <;> rfl
    rw [hpend, hout, hw]
    cases hfib : s.fibers o with
    | running => rfl
    | reading len buf => rfl
    | acquiring type rest => exact absurd hfib (hf type rest)
  have hst : Stage.ofType (outcome.fiber.writeType ps) = (s.endOf (s.requestIds o)).stage := by
    have hout : outcome.fiber.writeType ps = ps.currentWritePacket.map Packet.type := by cases outcome <;> rfl
    rw [hstage, hout, hw, writeType_eq hf]
  rw [hpending, hst]
  rw [← hin] at htakes
  exact End.Move.read ha htakes

theorem ownerMove_of_readTurn (h : s.Lined) {e : Event} (ht : Turn s e s') (hown : e.readsOn = some o) :
    s.owned o ∧ s.OwnerMove o (s.deed e) s' := by
  cases ht with
  | @read _ len ho hf =>
    cases hown
    refine ⟨ho, ?_⟩
    have hmove := ownerMove_read ho ((s.streams o).read len).1 ((s.streams o).read len).2 s.packetsPool
      ?_ ?_ (by simp [hf]) (PacketStream.lined_read (h.streams o ho) len)
      (by rw [hf]; exact PacketStream.takes_read _ len)
    · rw [ownerStep_nil] at hmove
      exact hmove
    · rcases (s.streams o).read_cases len with ⟨-, heq⟩ | ⟨_, -, heq⟩ <;> rw [heq]
    · rcases (s.streams o).read_cases len with ⟨-, heq⟩ | ⟨_, -, heq⟩ <;> rw [heq]
  | @get _ len buf released ps outcome ho hf hnext =>
    cases hown
    refine ⟨ho, ?_⟩
    have hlined := h.streams o ho
    have hd : s.deed (.get o) = outcome.deed := by simp [deed, hf, hnext]
    rw [hd, releasePackets_eq]
    have hmove := ownerMove_read ho ps outcome
      ((released.toList.map Packet.reset).foldl Pool.release s.packetsPool) ?_ ?_ (by simp [hf])
      (PacketStream.lined_readNext hlined hnext)
      (by rw [hf]; exact PacketStream.takes_readNext (hlined.spent len buf hf) hnext)
    · rw [ownerStep_nil] at hmove
      exact hmove
    · obtain ⟨_, _, -, ⟨-, -, rfl, -⟩ | ⟨-, -, rfl, -⟩⟩ := PacketStream.readNext_cases hnext <;> rfl
    · obtain ⟨_, _, -, ⟨-, -, rfl, -⟩ | ⟨-, -, rfl, -⟩⟩ := PacketStream.readNext_cases hnext <;> rfl
  | @timeout _ len buf ho hf hq =>
    cases hown
    refine ⟨ho, ?_⟩
    have hlined := h.streams o ho
    have hmove := ownerMove_read ho (s.streams o) .failure s.packetsPool rfl rfl (by simp [hf])
      ⟨hlined.current, nofun, nofun⟩ ⟨buf, by simp [hf, Fiber.inbound, Fiber.buffer, ReadOutcome.fiber]⟩
    · rw [ownerStep_nil, Function.update_eq_self] at hmove
      exact hmove
  | _ => cases hown

/-! ## Writing -/

theorem carries_writeData {p : Packet} {buf : List UInt8} (h : Carries p.type (p.body ++ buf)) :
    Carries p.type (p.writeData buf).1.body := by
  cases htype : p.type with
  | start => trivial
  | single =>
    rw [htype] at h
    exact h
  | middle =>
    rw [htype] at h
    intro hnil
    refine h ?_
    simp only [Packet.writeData, List.append_eq_nil_iff, List.take_eq_nil_iff] at hnil
    rcases hnil with ⟨hbody, hmax | hbuf⟩
    · rw [hbody] at hmax
      cases hmax
    · rw [hbody, hbuf]
      rfl
  | end_ =>
    rw [htype] at h
    obtain ⟨hbody, hbuf⟩ := List.append_eq_nil_iff.1 h
    simp [Carries, Packet.writeData, hbody, hbuf]

theorem fillWritePacket_eq (s : StreamProcessor) (o : StreamNo) (p : Packet) (buf : List UInt8) :
    ((p.writeData buf).2 = [] ∧ s.fillWritePacket o p buf = s.ownerStep o .running
      { s.streams o with currentWritePacket := some (p.writeData buf).1 } s.packetsPool []) ∨
    ((p.writeData buf).2 ≠ [] ∧ s.fillWritePacket o p buf = s.ownerStep o (.acquiring .middle (p.writeData buf).2)
      { s.streams o with currentWritePacket := none } s.packetsPool [(p.writeData buf).1]) := by
  unfold fillWritePacket
  dsimp only
  split
  · rename_i hrest
    refine Or.inl ⟨hrest, ?_⟩
    rw [ownerStep_nil]
    rfl
  · rename_i hrest
    exact Or.inr ⟨hrest, rfl⟩

/-- **The two ways of an acquisition in a write**: to wait, or to fill a blank packet. -/
theorem acquireWritePacket_eq (hn : s.Neat) (o : StreamNo) (type : PacketType) (rest : List UInt8) :
    (s.packetsPool.exhausted ∧ s.acquireWritePacket o type rest =
      s.ownerStep o (.acquiring type rest) (s.streams o) s.packetsPool []) ∨
    ∃ (p : Packet) (pool : Pool Packet), p.Blank ∧ s.acquireWritePacket o type rest = { s with packetsPool := pool }.fillWritePacket o
      { p with type := type, requestId := (s.streams o).requestId } rest := by
  unfold acquireWritePacket
  split
  · rename_i p t hp
    have hblank := (hn.acquirePacket hp).1
    obtain ⟨pool, -, rfl⟩ := acquirePacket_eq hp
    exact Or.inr ⟨p, pool, hblank, rfl⟩
  · rename_i hp
    refine Or.inl ⟨acquirePacket_eq_none.1 hp, ?_⟩
    rw [ownerStep_nil, Function.update_eq_self]
    rfl

theorem inbound_of_not_reading {f : Fiber} (hf : ∀ len buf, f ≠ .reading len buf) (ps : PacketStream) :
    f.inbound ps = Fiber.running.inbound ps := by
  cases f with
  | reading len buf => exact absurd rfl (hf len buf)
  | _ => rfl

section Write

variable {d : Deed} {bytes buf : List UInt8} {p : Packet}

/-- **A turn that fills a packet**, and puts it into the writer queue if there is more. -/
theorem ownerMove_fill (ho : s.owned o) (h : s.Lined) (hd : d = .wrote bytes ∨ (d = .nothing ∧ bytes = []))
    (hf : ∀ len buf, s.fibers o ≠ .reading len buf) (hid : p.requestId = (s.streams o).requestId)
    (htype : p.type = .start ∨ p.type = .middle) (hlen : p.body.length ≤ maxPacketSize)
    (hbytes : p.body ++ buf = (s.fibers o).pending (s.streams o) ++ bytes)
    (hstage : Stage.ofType (s.writeType o) = Stage.ofType (some p.type)) (hcarries : Carries p.type (p.body ++ buf)) :
    s.OwnerMove o d (s.fillWritePacket o p buf) := by
  obtain ⟨ha, hin, hpend, hst⟩ := endOf_owner ho
  have hids := h.ids o ho
  obtain ⟨hdone, hmore⟩ := End.Move.fill (e := s.endOf (s.requestIds o)) ha hd
    (hpend ▸ hbytes) htype (hst.trans hstage) hlen
  rw [inbound_of_not_reading hf] at hin
  rcases s.fillWritePacket_eq o p buf with ⟨hrest, heq⟩ | ⟨hrest, heq⟩
  · rw [heq]
    refine ⟨_, _, _, _, rfl, rfl, ⟨fun q hq => ?_, nofun, nofun⟩, nofun, ?_⟩
    · cases hq
      exact ⟨hid, carries_writeData hcarries⟩
    · rw [endOf_ownerStep_nil ho]
      show (s.endOf (s.requestIds o)).Move d { s.endOf (s.requestIds o) with
        inbound := Fiber.running.inbound (s.streams o)
        pending := (p.writeData buf).1.body
        stage := Stage.ofType (some p.type) }
      rw [← hin, ← hstage, ← hst]
      exact hdone hrest
  · rw [heq]
    refine ⟨_, _, _, _, rfl, rfl, ⟨nofun, fun type rest hacq => ?_, nofun⟩, fun q hq => ?_, ?_⟩
    · cases hacq
      exact hrest
    · rw [List.mem_singleton.1 hq]
      exact hid.trans hids
    · rw [endOf_ownerStep ho fun q hq => by rw [List.mem_singleton.1 hq]; exact hid.trans hids]
      show (s.endOf (s.requestIds o)).Move d { s.endOf (s.requestIds o) with
        inbound := Fiber.running.inbound (s.streams o)
        pending := (p.writeData buf).2
        stage := .sent
        outbound := (s.endOf (s.requestIds o)).emit (p.writeData buf).1.frame }
      rw [← hin]
      exact hmore hrest

/-- **A turn that needs a free packet** for bytes yet to come. -/
theorem ownerMove_acquire (ho : s.owned o) (hn : s.Neat) (h : s.Lined)
    (hd : d = .wrote bytes ∨ (d = .nothing ∧ bytes = [])) (hf : ∀ len buf, s.fibers o ≠ .reading len buf)
    (hw : (s.streams o).currentWritePacket = none) {type : PacketType} (htype : type = .start ∨ type = .middle)
    (hbytes : buf = (s.fibers o).pending (s.streams o) ++ bytes)
    (hstage : Stage.ofType (s.writeType o) = Stage.ofType (some type)) (hcarries : Carries type buf) :
    s.OwnerMove o d (s.acquireWritePacket o type buf) := by
  rcases acquireWritePacket_eq hn o type buf with ⟨-, heq⟩ | ⟨p, pool, hblank, heq⟩
  · rw [heq]
    obtain ⟨ha, hin, hpend, hst⟩ := endOf_owner ho
    refine ⟨_, _, _, _, rfl, rfl, ⟨fun p hp => ?_, fun t rest hacq => ?_, nofun⟩, nofun, ?_⟩
    · rw [hw] at hp
      cases hp
    · cases hacq
      exact hcarries
    · rw [endOf_ownerStep_nil ho]
      rw [inbound_of_not_reading hf] at hin
      show (s.endOf (s.requestIds o)).Move d { s.endOf (s.requestIds o) with
        inbound := Fiber.running.inbound (s.streams o)
        pending := buf
        stage := Stage.ofType (some type) }
      rw [← hin, ← hstage, ← hst, hbytes, ← hpend]
      refine .write hd ha ?_
      rw [hst, hstage]
      rcases htype with rfl | rfl <;> simp [Stage.ofType]
  · obtain ⟨-, hbody, -, -⟩ := hblank
    rw [heq]
    -- the pool is no part of an end
    refine ownerMove_fill (s := { s with packetsPool := pool }) ho ⟨h.ids, h.streams, h.idle⟩ hd hf rfl htype ?_ ?_
      hstage ?_
    · simp [hbody]
    · simpa [hbody] using hbytes
    · simpa [hbody] using hcarries

/-- **The packet after the last one** is acquired and stays empty. -/
theorem acquireWritePacket_end (hn : s.Neat) (hw : (s.streams o).currentWritePacket = none) :
    ∃ f ps pool, s.acquireWritePacket o .end_ [] = s.ownerStep o f ps pool [] ∧
      ps.requestId = (s.streams o).requestId ∧ f.Lined ps ∧ f.inbound ps = Fiber.running.inbound (s.streams o) ∧
      f.pending ps = [] ∧ f.writeType ps = some .end_ := by
  rcases acquireWritePacket_eq hn o .end_ [] with ⟨-, heq⟩ | ⟨p, pool, hblank, heq⟩
  · refine ⟨_, _, _, heq, rfl, ⟨fun p hp => ?_, fun t rest hacq => ?_, fun _ _ h => by cases h⟩, rfl, rfl, rfl⟩
    · rw [hw] at hp
      cases hp
    · cases hacq
      rfl
  · obtain ⟨-, hbody, -, -⟩ := hblank
    have hrest : ({ p with type := .end_, requestId := (s.streams o).requestId }.writeData []).2 = [] := by
      simp [Packet.writeData]
    have hnil : ({ p with type := .end_, requestId := (s.streams o).requestId }.writeData []).1.body = [] := by
      simp [Packet.writeData, hbody]
    rcases fillWritePacket_eq { s with packetsPool := pool } o
      { p with type := .end_, requestId := (s.streams o).requestId } [] with ⟨-, hfill⟩ | ⟨hne, -⟩
    · refine ⟨_, _, _, heq.trans hfill, rfl, ⟨fun q hq => ?_, (fun _ _ h => by cases h), fun _ _ h => by cases h⟩, rfl, hnil,
        rfl⟩
      cases hq
      exact ⟨rfl, hnil⟩
    · exact absurd hrest hne

theorem ownerMove_acquireEnd (ho : s.owned o) (hn : s.Neat) (hf : s.fibers o = .acquiring .end_ [])
    (hw : (s.streams o).currentWritePacket = none) :
    s.OwnerMove o .nothing (s.acquireWritePacket o .end_ []) := by
  obtain ⟨f, ps, pool, heq, hid, hl, hin, hpend, htype⟩ := acquireWritePacket_end hn hw
  obtain ⟨-, hin', hpend', hst'⟩ := endOf_owner ho
  rw [heq]
  refine ⟨f, ps, pool, [], rfl, hid, hl, nofun, ?_⟩
  rw [endOf_ownerStep_nil ho, hin, hpend, htype]
  have hsame : { s.endOf (s.requestIds o) with
      inbound := Fiber.running.inbound (s.streams o), pending := [], stage := Stage.ofType (some .end_) } =
      s.endOf (s.requestIds o) := by
    rw [inbound_of_not_reading (by simp [hf])] at hin'
    rw [← hin', show ([] : List UInt8) = (s.endOf (s.requestIds o)).pending by rw [hpend', hf]; rfl,
      show Stage.ofType (some .end_) = (s.endOf (s.requestIds o)).stage by rw [hst', writeType, hf]; rfl]
  rw [hsame]
  exact .stay

/-- **A flush** puts the current packet into the writer queue as the last one. -/
theorem ownerMove_flush (ho : s.owned o) (hn : s.Neat) (h : s.Lined) (hf : s.fibers o = .running)
    (hw : (s.streams o).currentWritePacket = some p) (hlast : p.type.isLast = false) :
    s.OwnerMove o .flushed (((s.setStream o { s.streams o with currentWritePacket := none }).putPacket
      (lastPacket p)).acquireWritePacket o .end_ []) := by
  obtain ⟨hid, hcarries⟩ := (h.streams o ho).current p hw
  have hput : ((s.setStream o { s.streams o with currentWritePacket := none }).putPacket (lastPacket p)).Neat :=
    (hn.setStream (hn.streams o).noWritePacket).putPacket (written_lastPacket ((hn.streams o).write p hw).1)
  obtain ⟨f, ps, pool, heq, hpsid, hl, hin, hpend, htype⟩ := acquireWritePacket_end (o := o) hput (by
    simp [putPacket, setStream])
  obtain ⟨ha, hin', hpend', hst'⟩ := endOf_owner ho
  have hq : ∀ q ∈ [lastPacket p], q.requestId = s.requestIds o := fun q hq => by
    rw [List.mem_singleton.1 hq]
    exact hid.trans (h.ids o ho)
  refine ⟨f, ps, pool, [lastPacket p], ?_, ?_, hl, hq, ?_⟩
  · rw [heq]
    simp [ownerStep, putPacket, setStream]
  · rw [hpsid]
    simp [putPacket, setStream]
  · rw [endOf_ownerStep ho hq, hin, hpend, htype]
    have hin'' : Fiber.running.inbound (((s.setStream o { s.streams o with currentWritePacket := none }).putPacket
        (lastPacket p)).streams o) = (s.endOf (s.requestIds o)).inbound := by
      rw [hin', hf]
      simp [putPacket, setStream, Fiber.inbound]
    have hstage : (s.endOf (s.requestIds o)).stage = Stage.ofType (some p.type) := by
      rw [hst', writeType, hf]
      simp [Fiber.writeType, hw]
    have htypes : p.type = .start ∨ p.type = .middle := by
      cases htype : p.type <;> simp_all [PacketType.isLast]
    rw [hin'']
    refine .flush (f := (lastPacket p).frame) ha ?_ ?_ ?_ ?_
    · rw [hstage]
      rcases htypes with htype | htype <;> simp [htype, Stage.ofType]
    · rw [hpend', hf]
      simp [Fiber.pending, hw, lastPacket, Packet.frame]
    · rw [hstage]
      rcases htypes with htype | htype <;> simp [htype, Stage.ofType, lastPacket, Packet.frame, PacketType.isFirst]
    · rw [hstage]
      intro hsent
      rcases htypes with htype | htype
      · rw [htype] at hsent
        cases hsent
      · rw [htype] at hcarries
        exact hcarries

end Write

theorem ownerMove_of_writeTurn (hs : s.Sound) (hn : s.Neat) (h : s.Lined) {e : Event} (ht : Turn s e s')
    (hown : e.writesOn = some o) : s.owned o ∧ s.OwnerMove o (s.deed e) s' := by
  cases ht with
  | @writeFirst _ buf ho hf hw =>
    cases hown
    refine ⟨ho, ownerMove_acquire ho hn h (Or.inl rfl) (by simp [hf]) hw (Or.inl rfl) ?_ ?_ trivial⟩
    · simp [hf, Fiber.pending, hw]
    · rw [writeType, hf]
      simp [Fiber.writeType, hw, Stage.ofType]
  | @writeMore _ buf p ho hf hw hlast =>
    cases hown
    obtain ⟨hid, hcarries⟩ := (h.streams o ho).current p hw
    have htype : p.type = .start ∨ p.type = .middle := by
      cases htype : p.type <;> simp_all [PacketType.isLast]
    refine ⟨ho, ownerMove_fill ho h (Or.inl rfl) (by simp [hf]) hid htype ((hn.streams o).write p hw).1.2 ?_ ?_ ?_⟩
    · simp [hf, Fiber.pending, hw]
    · rw [writeType, hf]
      simp [Fiber.writeType, hw]
    · rcases htype with htype | htype
      · rw [htype]
        trivial
      · rw [htype] at hcarries ⊢
        exact fun hnil => hcarries (List.append_eq_nil_iff.1 hnil).1
  | @flush _ p ho hf hw hlast =>
    cases hown
    exact ⟨ho, ownerMove_flush ho hn h hf hw hlast⟩
  | @acquire _ type rest ho hf hpool =>
    cases hown
    have hcarries := (h.streams o ho).acquiring type rest hf
    have hw : (s.streams o).currentWritePacket = none := by
      have hok := hs.fiberOk o
      rw [hf] at hok
      exact hok
    have hmove : type = .start ∨ type = .middle → s.OwnerMove o .nothing (s.acquireWritePacket o type rest) :=
      fun htype => ownerMove_acquire ho hn h (Or.inr ⟨rfl, rfl⟩) (by simp [hf]) hw htype (by simp [hf, Fiber.pending])
        (by rw [writeType, hf]; rfl) hcarries
    refine ⟨ho, ?_⟩
    cases type with
    | start => exact hmove (Or.inl rfl)
    | middle => exact hmove (Or.inr rfl)
    | end_ =>
      have hrest : rest = [] := hcarries
      subst hrest
      exact ownerMove_acquireEnd ho hn hf hw
    | single => exact absurd hcarries id
  | _ => cases hown

/-- **Every turn of an owner is a move of the end it has.** -/
theorem ownerMove_of_turn (hs : s.Sound) (hn : s.Neat) (h : s.Lined) {e : Event} (ht : Turn s e s')
    (hown : e.owner = some o) : s.owned o ∧ s.OwnerMove o (s.deed e) s' := by
  cases hr : e.readsOn with
  | some i =>
    rw [Event.owner, hr] at hown
    cases hown
    exact ownerMove_of_readTurn h ht hr
  | none =>
    rw [Event.owner, hr] at hown
    exact ownerMove_of_writeTurn hs hn h ht hown

/-! ## The reader and the writer -/

/-- The turn sends the packet the writer has in hand. -/
def sends (s : StreamProcessor) : Event → Option Frame
  | .writerResult .success => s.writer.packets.head?.map Packet.frame
  | _ => none

theorem inbound_pushPacket (f : Fiber) (ps : PacketStream) (p : Packet) :
    f.inbound (ps.pushPacket p) = f.inbound ps ++ p.rest := by
  simp [Fiber.inbound, PacketStream.pushPacket]

theorem endOf_pushPacket_of_ne (s : StreamProcessor) {r : RequestId} (hr : s.active r ≠ some o) (p : Packet) :
    (s.pushPacket o p).endOf r = s.endOf r := by
  cases ha : s.active r with
  | none => simp [endOf, pushPacket, setStream, ha, outbound]
  | some i =>
    have hi : i ≠ o := fun h => hr (h ▸ ha)
    simp [endOf, pushPacket, setStream, ha, outbound, hi, writeType]

theorem endOf_pushPacket (s : StreamProcessor) {r : RequestId} (hr : s.active r = some o) (p : Packet) :
    (s.pushPacket o p).endOf r = { s.endOf r with inbound := (s.endOf r).inbound ++ p.rest } := by
  have hpend : (s.fibers o).pending ((s.streams o).pushPacket p) = (s.fibers o).pending (s.streams o) := by
    cases s.fibers o <;> rfl
  have htype : (s.fibers o).writeType ((s.streams o).pushPacket p) = (s.fibers o).writeType (s.streams o) := by
    cases s.fibers o <;> rfl
  simp [endOf, pushPacket, setStream, hr, outbound, inbound_pushPacket, hpend, htype, writeType]

/-- **A disconnect brings no bytes.** -/
theorem endOf_pushDisconnect (s : StreamProcessor) (o : StreamNo) (r : RequestId) {p : Packet} (hp : p.Blank) :
    (s.pushDisconnect o p).endOf r = s.endOf r := by
  unfold pushDisconnect
  by_cases hr : s.active r = some o
  · rw [endOf_pushPacket s hr]
    simp [Packet.rest, hp.2.1]
  · exact endOf_pushPacket_of_ne s hr _

/-- The part of an end that is not the writer's or the reader's does not change. -/
theorem endOf_eq (hstreams : s'.streams = s.streams) (hfibers : s'.fibers = s.fibers) (hactive : s'.active = s.active)
    (r : RequestId) : s'.endOf r = { s.endOf r with
      listening := s'.reader.listens, writing := s'.writer.sends, outbound := s'.outbound r } := by
  simp [endOf, hstreams, hfibers, hactive, writeType]

theorem move_of_reader (hstreams : s'.streams = s.streams) (hfibers : s'.fibers = s.fibers)
    (hactive : s'.active = s.active) (hwriter : s'.writer = s.writer)
    (hqueue : s'.writerQueue.filterMap id = s.writerQueue.filterMap id)
    (hl : s'.reader.listens = s.reader.listens ∨ s'.reader.listens = false) (r : RequestId) :
    (s.endOf r).Move .nothing (s'.endOf r) := by
  have hout : s'.outbound r = s.outbound r := by rw [outbound, outbound, hwriter, hqueue]
  rw [endOf_eq hstreams hfibers hactive, hout, hwriter]
  rcases hl with hl | hl
  · rw [hl]
    exact .stay
  · rw [hl]
    exact .deaf

theorem move_of_writer (hstreams : s'.streams = s.streams) (hfibers : s'.fibers = s.fibers)
    (hactive : s'.active = s.active) (hreader : s'.reader = s.reader)
    (hw : s'.writer.sends = false ∨ (s'.writer.sends = s.writer.sends ∧ s'.outbound r = s.outbound r)) :
    (s.endOf r).Move .nothing (s'.endOf r) := by
  rw [endOf_eq hstreams hfibers hactive, hreader]
  rcases hw with hw | ⟨hw, hout⟩
  · have hnil : s'.outbound r = [] := by simp [outbound, hw]
    rw [hnil, hw]
    exact .mute
  · rw [hw, hout]
    exact .stay

theorem outbound_writing (hw : s.writer = .writing p) (r : RequestId) : s.outbound r =
    (if p.requestId = r then [p.frame] else []) ++
      ((s.writerQueue.filterMap id).filter fun q => q.requestId = r).map Packet.frame := by
  simp only [outbound, hw, Writer.sends, if_true, Writer.packets, List.singleton_append, List.filter_cons]
  split <;> simp_all

theorem outbound_idle (hw : s.writer = .getting ∨ s.writer = .flushing) (r : RequestId) : s.outbound r =
    ((s.writerQueue.filterMap id).filter fun q => q.requestId = r).map Packet.frame := by
  rcases hw with hw | hw <;> simp [outbound, hw, Writer.sends, Writer.packets]

/-- **The turns of the reader and the writer** leave an end alone, or make it deaf or mute; sending apart. -/
theorem move_of_turn (hn : s.Neat) {e : Event} (ht : Turn s e s') (hown : e.owner = none) {r : RequestId}
    (hsend : ∀ f ∈ s.sends e, f.requestId ≠ r) : (s.endOf r).Move .nothing (s'.endOf r) := by
  cases ht.system hown with
  | readerAcquire hr hp =>
    refine move_of_reader ?_ ?_ ?_ ?_ ?_ (Or.inl ?_) r
    case refine_6 => simp [hr, Reader.listens]
    all_goals rfl
  | readerPass | readerBlock | readerLoopEnd | readerWriterStopped | readerFail =>
    refine move_of_reader ?_ ?_ ?_ ?_ ?_ (Or.inr ?_) r <;> rfl
  | @readerDisconnect i o p pool hr hi hslot hp =>
    have hblank := (hn.acquirePacket hp).1
    rw [← endOf_pushDisconnect s o r hblank]
    refine move_of_reader ?_ ?_ ?_ ?_ ?_ (Or.inr ?_) r <;> rfl
  | @readerDisconnectLate i o p pool hr hp =>
    have hblank := (hn.acquirePacket hp).1
    rw [← endOf_pushDisconnect s o r hblank]
    refine move_of_reader ?_ ?_ ?_ ?_ ?_ (Or.inr ?_) r <;> rfl
  | readerStreamsStopped hr he =>
    refine move_of_reader ?_ ?_ ?_ ?_ ?_ (Or.inr ?_) r
    case refine_5 => simp
    all_goals rfl
  | writerGet hw hq =>
    refine move_of_writer ?_ ?_ ?_ ?_ (Or.inr ⟨?_, ?_⟩)
    case refine_5 => simp [hw, Writer.sends]
    case refine_6 =>
      rw [outbound_writing rfl, outbound_idle (Or.inl hw), hq]
      simp only [List.filterMap_cons, id_eq, List.filter_cons]
      split <;> simp_all
    all_goals rfl
  | writerSkip hw hq =>
    refine move_of_writer ?_ ?_ ?_ ?_ (Or.inl ?_)
    case refine_5 => simp [releasePacket, hw, Writer.sends]
    all_goals rfl
  | writerEnd hw hq => refine move_of_writer ?_ ?_ ?_ ?_ (Or.inl ?_) <;> rfl
  | @writeOk p hw =>
    have hne : p.requestId ≠ r := hsend p.frame (by simp [sends, hw, Writer.packets])
    refine move_of_writer ?_ ?_ ?_ ?_ (Or.inr ⟨?_, ?_⟩)
    case refine_5 =>
      dsimp only
      split <;> simp [hw, Writer.sends]
    case refine_6 =>
      rw [outbound_writing hw, if_neg hne, outbound_idle]
      · rfl
      · dsimp only
        split <;> simp
    all_goals rfl
  | writeFail hw => refine move_of_writer ?_ ?_ ?_ ?_ (Or.inl ?_) <;> rfl
  | flushOk hw =>
    refine move_of_writer ?_ ?_ ?_ ?_ (Or.inr ⟨?_, ?_⟩)
    case refine_5 => simp [hw, Writer.sends]
    case refine_6 => rw [outbound_idle (Or.inl rfl), outbound_idle (Or.inr hw)]
    all_goals rfl
  | flushFail hw => refine move_of_writer ?_ ?_ ?_ ?_ (Or.inl ?_) <;> rfl

/-- **The writer sends the first packet of an end's line.** -/
theorem endOf_of_send {e : Event} (ht : Turn s e s') {f : Frame} (hsend : s.sends e = some f) :
    (s.endOf f.requestId).outbound = f :: (s'.endOf f.requestId).outbound ∧
      s'.endOf f.requestId = { s.endOf f.requestId with outbound := (s'.endOf f.requestId).outbound } ∧
      s'.state = s.state := by
  cases ht with
  | @writeOk p hw =>
    have hf : f = p.frame := by simpa [sends, hw, Writer.packets] using hsend.symm
    subst hf
    have hidle : (if s.writerQueue = [] then Writer.flushing else .getting) = .getting ∨
        (if s.writerQueue = [] then Writer.flushing else .getting) = .flushing := by split <;> simp
    refine ⟨?_, ?_, rfl⟩
    · show s.outbound p.requestId = p.frame :: outbound _ p.requestId
      rw [outbound_writing hw, if_pos rfl, outbound_idle hidle]
      rfl
    · have hsends : (if s.writerQueue = [] then Writer.flushing else .getting).sends = s.writer.sends := by
        rw [hw]
        split <;> rfl
      simp [endOf, releasePacket, hsends, writeType]
  | flushOk hw => simp [sends, hw, Writer.packets] at hsend
  | _ => cases hsend

/-! ## Streams stay in line -/

theorem Lined.ownerMove (h : s.Lined) (ho : s.owned o) {d : Deed} (hm : s.OwnerMove o d s') : s'.Lined := by
  obtain ⟨f, ps, pool, queue, rfl, hid, hl, -, -⟩ := hm
  refine ⟨fun i hi => ?_, fun i hi => ?_, fun hr i hi => ?_⟩
  · by_cases hio : i = o
    · subst hio
      simpa [ownerStep, hid] using h.ids i ho
    · simpa [ownerStep, hio] using h.ids i hi
  · by_cases hio : i = o
    · subst hio
      simpa [ownerStep] using hl
    · simpa [ownerStep, hio] using h.streams i hi
  · have hio : i ≠ o := fun hio => hi (hio ▸ ho)
    simpa [ownerStep, hio] using h.idle hr i hi

/-- A turn that leaves the streams alone. -/
theorem Lined.of_eq (h : s.Lined) (hstreams : s'.streams = s.streams) (hids : s'.requestIds = s.requestIds)
    (hfibers : s'.fibers = s.fibers) (hactive : s'.active = s.active)
    (hl : s'.reader.listens = true → s.reader.listens = true) : s'.Lined := by
  have howned : ∀ i, s'.owned i ↔ s.owned i := fun i => by rw [owned, owned, hactive, hids]
  refine ⟨fun i hi => ?_, fun i hi => ?_, fun hr i hi => ?_⟩
  · rw [hstreams, hids]
    exact h.ids i ((howned i).1 hi)
  · rw [hstreams, hfibers]
    exact h.streams i ((howned i).1 hi)
  · rw [hstreams]
    exact h.idle (hl hr) i fun ho => hi ((howned i).2 ho)

theorem Lined.pushPacket (h : s.Lined) (o : StreamNo) (p : Packet) {reader : Reader}
    (hr : reader.listens = true → s.owned o ∧ s.reader.listens = true) :
    { s.pushPacket o p with reader := reader }.Lined := by
  refine ⟨fun i hi => ?_, fun i hi => ?_, fun hl i hi => ?_⟩
  · by_cases hio : i = o
    · subst hio
      simpa [StreamProcessor.pushPacket, setStream, PacketStream.pushPacket] using h.ids i hi
    · simpa [StreamProcessor.pushPacket, setStream, hio] using h.ids i hi
  · have hlined := h.streams i hi
    by_cases hio : i = o
    · subst hio
      have hpush : (s.fibers i).Lined ((s.streams i).pushPacket p) := ⟨hlined.current, hlined.acquiring, hlined.spent⟩
      simpa [StreamProcessor.pushPacket, setStream] using hpush
    · simpa [StreamProcessor.pushPacket, setStream, hio] using hlined
  · obtain ⟨ho, hl'⟩ := hr hl
    have hio : i ≠ o := fun hio => hi (hio ▸ ho)
    simpa [StreamProcessor.pushPacket, setStream, hio] using h.idle hl' i hi

theorem Lined.turn (h : s.Lined) (hs : s.Sound) (hn : s.Neat) {e : Event} (ht : Turn s e s') : s'.Lined := by
  cases hown : e.owner with
  | some o =>
    obtain ⟨ho, hm⟩ := ownerMove_of_turn hs hn h ht hown
    exact h.ownerMove ho hm
  | none =>
    cases ht.system hown with
    | readerAcquire hr hp => exact h.of_eq rfl rfl rfl rfl fun _ => by rw [hr]; rfl
    | @readerDisconnect i o p pool | @readerDisconnectLate i o p pool =>
      exact Lined.pushPacket (s := { s with packetsPool := pool }) ⟨h.ids, h.streams, h.idle⟩ _ _ fun hl => nomatch hl
    | readerPass | readerBlock | readerLoopEnd | readerStreamsStopped | readerWriterStopped | readerFail =>
      exact h.of_eq rfl rfl rfl rfl fun hl => nomatch hl
    | writerGet | writerSkip | writerEnd | writeOk | writeFail | flushOk | flushFail =>
      exact h.of_eq rfl rfl rfl rfl id

/-! ## Streams come and go -/

theorem endOf_enter (hidle : s.streams o = PacketStream.create) (r : RequestId) :
    (s.enter r o).endOf r = (s.endOf r).begin_ [] := by
  simp [endOf, enter, End.begin_, hidle, outbound, writeType, Fiber.writeType, Fiber.inbound, Fiber.buffer, Fiber.pending,
    PacketStream.initialise, PacketStream.create, Stage.ofType]

theorem endOf_enter_of_ne (hfree : ∀ r, s.active r ≠ some o) {r r' : RequestId} (hr : r' ≠ r) :
    (s.enter r o).endOf r' = s.endOf r' := by
  cases ha : s.active r' with
  | none => simp [endOf, enter, hr, ha, outbound]
  | some i =>
    have hi : i ≠ o := fun h => hfree r' (h ▸ ha)
    simp [endOf, enter, hr, ha, outbound, hi, writeType]

theorem endOf_releaseStream (s : StreamProcessor) (o : StreamNo) :
    (s.releaseStream o).endOf (s.requestIds o) = (s.endOf (s.requestIds o)).finish := by
  rw [releaseStream_eq]
  simp [endOf, End.finish, outbound]

theorem endOf_releaseStream_of_ne (hs : s.Sound) {r : RequestId} (hr : r ≠ s.requestIds o) :
    (s.releaseStream o).endOf r = s.endOf r := by
  rw [releaseStream_eq]
  cases ha : s.active r with
  | none => simp [endOf, hr, ha, outbound]
  | some i =>
    have hi : i ≠ o := fun h => hr (h ▸ hs.requestIds r i ha).symm
    simp [endOf, hr, ha, outbound, hi, writeType]

theorem rest_ofFrame (hp : p.Blank) (f : Frame) : (p.ofFrame f).rest = f.body := by
  show f.body.drop p.currPos = f.body
  rw [hp.1, List.drop_zero]

/-- **A packet that is delivered** adds its bytes to what came. -/
theorem endOf_deliver (hreader : s.reader.listens = true) {r : RequestId} (hr : s.active r = some o) (p : Packet) :
    (s.deliver o p).endOf r = { s.endOf r with inbound := (s.endOf r).inbound ++ p.rest } := by
  rw [← endOf_pushPacket s hr p]
  simp only [deliver, endOf]
  rw [show (s.pushPacket o p).reader.listens = true from hreader]
  rfl

theorem endOf_deliver_of_ne (hreader : s.reader.listens = true) {r : RequestId} (hr : s.active r ≠ some o) (p : Packet) :
    (s.deliver o p).endOf r = s.endOf r := by
  rw [← endOf_pushPacket_of_ne s hr p]
  simp only [deliver, endOf]
  rw [show (s.pushPacket o p).reader.listens = true from hreader]
  rfl

/-- **The reader gives up** and is deaf from then on. -/
theorem endOf_abandon (s : StreamProcessor) (p : Packet) (r : RequestId) :
    (s.abandon p).endOf r = { s.endOf r with listening := false } := rfl

theorem Lined.enter (h : s.Lined) {r : RequestId} (hslot : s.active r = none) (ho : ¬ s.owned o)
    (hr : s.reader.listens = true) : (s.enter r o).Lined := by
  have hidle := h.idle hr o ho
  refine ⟨fun i hi => ?_, fun i hi => ?_, fun hl i hi => ?_⟩
  · by_cases hio : i = o
    · subst hio
      simp [StreamProcessor.enter, PacketStream.initialise]
    · rw [owned_enter hslot hio] at hi
      simpa [StreamProcessor.enter, hio] using h.ids i hi
  · by_cases hio : i = o
    · subst hio
      refine ⟨fun p hp => ?_, fun type rest hf => ?_, fun len buf hf => ?_⟩
      · simp [StreamProcessor.enter, PacketStream.initialise, hidle, PacketStream.create] at hp
      · simp [StreamProcessor.enter] at hf
      · simp [StreamProcessor.enter] at hf
    · rw [owned_enter hslot hio] at hi
      simpa [StreamProcessor.enter, hio] using h.streams i hi
  · by_cases hio : i = o
    · subst hio
      exact absurd (owned_enter_self s r i) hi
    · rw [owned_enter hslot hio] at hi
      simpa [StreamProcessor.enter, hio] using h.idle hl i hi

theorem Lined.deliver (h : s.Lined) (hr : s.reader.listens = true) (ho : s.owned o) (p : Packet) : (s.deliver o p).Lined :=
  h.pushPacket o p fun _ => ⟨ho, hr⟩

theorem Lined.releaseStream (h : s.Lined) (ho : s.owned o) : (s.releaseStream o).Lined := by
  have hnot : ¬ (s.releaseStream o).owned o := by
    rw [releaseStream_eq]
    simp [owned]
  refine ⟨fun i hi => ?_, fun i hi => ?_, fun hl i hi => ?_⟩
  · have hio : i ≠ o := fun hio => hnot (hio ▸ hi)
    rw [owned_releaseStream ho hio] at hi
    rw [releaseStream_eq]
    simpa [hio] using h.ids i hi
  · have hio : i ≠ o := fun hio => hnot (hio ▸ hi)
    rw [owned_releaseStream ho hio] at hi
    rw [releaseStream_eq]
    simpa [hio] using h.streams i hi
  · rw [streams_releaseStream]
    by_cases hio : i = o
    · subst hio
      rw [Function.update_self]
    · rw [owned_releaseStream ho hio] at hi
      rw [releaseStream_eq] at hl
      rw [Function.update_of_ne hio]
      exact h.idle hl i hi

end StreamProcessor
end Mrpc
