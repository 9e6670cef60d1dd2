import MultiplexingRpc.Packet
/-!
# PacketStream — one request or response as a byte stream (`mrpc_packet_stream.c`)

A packet stream turns the packets of one request id into bytes and back.  Its functions are called by the one fiber that
owns the stream; a call may have to wait, for a packet in `readerQueue` or for a free packet of the pool.  Here is what
such a call does up to its next wait: the waits themselves, and the pool, belong to the stream processor.
-/
namespace Mrpc

/-- `struct mrpc_packet_stream`.  A packet that was put into the writer queue is no longer current here, though the
source overwrites the field only once the next packet is there. -/
structure PacketStream where
  readerQueue : List Packet
  currentReadPacket : Option Packet
  currentWritePacket : Option Packet
  requestId : RequestId
  deriving DecidableEq, Repr

/-- How far a call of `mrpc_packet_stream_read` got: it returned, or it waits for a packet with `len` bytes to go and
`buf` read so far. -/
inductive ReadOutcome where
  | success (buf : List UInt8)
  | failure
  | waits (len : Nat) (buf : List UInt8)
  deriving DecidableEq, Repr

namespace PacketStream

/-- `mrpc_packet_stream_create`. -/
def create : PacketStream := ⟨[], none, none, 0⟩

/-- `mrpc_packet_stream_initialize`. -/
def initialise (ps : PacketStream) (requestId : RequestId) : PacketStream := { ps with requestId := requestId }

/-- The packets a stream has a hold of, in the order in which `mrpc_packet_stream_shutdown` releases them. -/
def packets (ps : PacketStream) : List Packet :=
  ps.currentWritePacket.toList ++ ps.currentReadPacket.toList ++ ps.readerQueue

/-- `mrpc_packet_stream_shutdown`, once the stream's packets are released. -/
def shutdown (_ : PacketStream) : PacketStream := create

/-- `mrpc_packet_stream_push_packet`. -/
def pushPacket (ps : PacketStream) (p : Packet) : PacketStream := { ps with readerQueue := ps.readerQueue ++ [p] }

/-- The loop of `mrpc_packet_stream_read`, from the current packet up to the next wait. -/
def copy (current : Packet) (len : Nat) (buf : List UInt8) : Packet × ReadOutcome :=
  let (bytes, current) := current.readData len
  if len - bytes.length = 0 then (current, .success (buf ++ bytes))
  else if current.type.isLast then (current, .failure)
  else (current, .waits (len - bytes.length) (buf ++ bytes))

/-- `mrpc_packet_stream_read` up to its first wait. -/
def read (ps : PacketStream) (len : Nat) : PacketStream × ReadOutcome :=
  match ps.currentReadPacket with
  | none => (ps, .waits len [])
  | some current =>
    let (current, outcome) := copy current len []
    ({ ps with currentReadPacket := some current }, outcome)

/-- A read that waits takes the next packet: the packet it releases, the stream and how far it gets.  The first packet
of a message has to be of a first type (`prefetch_current_read_packet`), the others must not be. -/
def readNext (ps : PacketStream) (len : Nat) (buf : List UInt8) :
    Option (Option Packet × PacketStream × ReadOutcome) :=
  match ps.readerQueue, ps.currentReadPacket with
  | [], _ => none
  | p :: queue, none =>
    if p.type.isFirst then
      let (current, outcome) := copy p len buf
      some (none, { ps with readerQueue := queue, currentReadPacket := some current }, outcome)
    else some (some p, { ps with readerQueue := queue }, .failure)
  | p :: queue, some current =>
    if p.type.isFirst then some (some p, { ps with readerQueue := queue }, .failure)
    else
      let (next, outcome) := copy p len buf
      some (some current, { ps with readerQueue := queue, currentReadPacket := some next }, outcome)

/-! ## What a read does -/

@[simp] theorem addr_copy (current : Packet) (len : Nat) (buf : List UInt8) :
    (copy current len buf).1.addr = current.addr := by
  unfold copy
  dsimp only
  split
  · rfl
  · split <;> rfl

@[simp] theorem type_copy (current : Packet) (len : Nat) (buf : List UInt8) :
    (copy current len buf).1.type = current.type := by
  unfold copy
  dsimp only
  split
  · rfl
  · split <;> rfl

/-- **A read waits only inside a message**: its current packet is not of a last type. -/
theorem isLast_of_copy_waits {current : Packet} {len n : Nat} {buf b : List UInt8}
    (h : (copy current len buf).2 = .waits n b) : current.type.isLast = false := by
  unfold copy at h
  dsimp only at h
  split at h
  · cases h
  · split at h
    · cases h
    · rename_i hlast
      simpa using hlast

/-- **The two ways of a read that takes a packet**: the packet becomes the current one, or it is of the wrong type. -/
theorem readNext_cases {ps ps' : PacketStream} {len : Nat} {buf : List UInt8} {released : Option Packet}
    {outcome : ReadOutcome} (h : ps.readNext len buf = some (released, ps', outcome)) :
    ∃ p queue, ps.readerQueue = p :: queue ∧
      ((p.type.isFirst = ps.currentReadPacket.isNone ∧ released = ps.currentReadPacket ∧
          ps' = { ps with readerQueue := queue, currentReadPacket := some (copy p len buf).1 } ∧
          outcome = (copy p len buf).2) ∨
        (p.type.isFirst = ps.currentReadPacket.isSome ∧ released = some p ∧
          ps' = { ps with readerQueue := queue } ∧ outcome = .failure)) := by
  unfold readNext at h
  split at h
  · cases h
  · rename_i p queue hq hc
    refine ⟨p, queue, hq, ?_⟩
    rw [hc]
    split at h
    · rename_i hfirst
      simp only [Option.some.injEq, Prod.mk.injEq] at h
      obtain ⟨rfl, rfl, rfl⟩ := h
      exact Or.inl ⟨by simp [hfirst], rfl, rfl, rfl⟩
    · rename_i hfirst
      simp only [Option.some.injEq, Prod.mk.injEq] at h
      obtain ⟨rfl, rfl, rfl⟩ := h
      exact Or.inr ⟨by simpa using hfirst, rfl, by rw [← hc], rfl⟩
  · rename_i p queue current hq hc
    refine ⟨p, queue, hq, ?_⟩
    rw [hc]
    split at h
    · rename_i hfirst
      simp only [Option.some.injEq, Prod.mk.injEq] at h
      obtain ⟨rfl, rfl, rfl⟩ := h
      exact Or.inr ⟨by simp [hfirst], rfl, by rw [← hc], rfl⟩
    · rename_i hfirst
      simp only [Option.some.injEq, Prod.mk.injEq] at h
      obtain ⟨rfl, rfl, rfl⟩ := h
      exact Or.inl ⟨by simpa using hfirst, rfl, rfl, rfl⟩

/-- A read call that does not wait for its first packet. -/
theorem read_cases (ps : PacketStream) (len : Nat) :
    (ps.currentReadPacket = none ∧ ps.read len = (ps, .waits len [])) ∨
    ∃ current, ps.currentReadPacket = some current ∧
      ps.read len = ({ ps with currentReadPacket := some (copy current len []).1 }, (copy current len []).2) := by
  unfold read
  cases hc : ps.currentReadPacket with
  | none => exact Or.inl ⟨rfl, rfl⟩
  | some current => exact Or.inr ⟨current, rfl, rfl⟩

end PacketStream
end Mrpc
