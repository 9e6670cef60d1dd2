import MultiplexingRpc.Common
/-!
# Packet — what the two ends exchange (`mrpc_packet.c`)

A packet carries up to `maxPacketSize` bytes of one request or response; its type says where in the message it stands.
Packets live in a pool; `addr` is the packet's identity there, so that a packet can be followed through the queues.
-/
namespace Mrpc

/-- `request_id`, one byte on the wire. -/
abbrev RequestId := Fin 256

instance neZero_256 : NeZero 256 := ⟨by decide⟩

/-- `MAX_PACKET_SIZE`. -/
def maxPacketSize : Nat := 2 ^ 12 - 1

/-- `enum mrpc_packet_type`. -/
inductive PacketType where
  | start
  | middle
  | end_
  | single
  deriving DecidableEq, Repr

namespace PacketType

/-- The types a message may begin with. -/
def isFirst : PacketType → Bool
  | start | single => true
  | middle | end_ => false

/-- The types a message may stop with. -/
def isLast : PacketType → Bool
  | end_ | single => true
  | start | middle => false

end PacketType

/-- `struct mrpc_packet`: `body` is the first `size` bytes of `buf`. -/
structure Packet where
  addr : Nat
  type : PacketType
  requestId : RequestId
  body : List UInt8
  currPos : Nat
  deriving DecidableEq, Repr

namespace Packet

/-- `mrpc_packet_create`. -/
def create (addr : Nat) : Packet := ⟨addr, .start, 0, [], 0⟩

/-- `mrpc_packet_reset`. -/
def reset (p : Packet) : Packet := { p with type := .start, requestId := 0, body := [], currPos := 0 }

/-- What is left to read. -/
def rest (p : Packet) : List UInt8 := p.body.drop p.currPos

/-- `mrpc_packet_read_data`: the bytes read, and the packet after it. -/
def readData (p : Packet) (len : Nat) : List UInt8 × Packet :=
  (p.rest.take len, { p with currPos := p.currPos + (p.rest.take len).length })

/-- `mrpc_packet_write_data`: the packet with what fits of `buf`, and what does not fit. -/
def writeData (p : Packet) (buf : List UInt8) : Packet × List UInt8 :=
  ({ p with body := p.body ++ buf.take (maxPacketSize - p.body.length) }, buf.drop (maxPacketSize - p.body.length))

theorem addr_create (n : Nat) : (create n).addr = n := rfl

@[simp] theorem addr_reset (p : Packet) : p.reset.addr = p.addr := rfl

@[simp] theorem addr_readData (p : Packet) (len : Nat) : (p.readData len).2.addr = p.addr := rfl

@[simp] theorem type_readData (p : Packet) (len : Nat) : (p.readData len).2.type = p.type := rfl

@[simp] theorem addr_writeData (p : Packet) (buf : List UInt8) : (p.writeData buf).1.addr = p.addr := rfl

@[simp] theorem type_writeData (p : Packet) (buf : List UInt8) : (p.writeData buf).1.type = p.type := rfl

/-- **Reading moves bytes from the packet to the reader.** -/
theorem readData_append_rest (p : Packet) (len : Nat) : (p.readData len).1 ++ (p.readData len).2.rest = p.rest := by
  unfold readData rest
  dsimp only
  rw [List.length_take, ← List.drop_drop]
  generalize p.body.drop p.currPos = l
  by_cases h : len ≤ l.length
  · rw [Nat.min_eq_left h, List.take_append_drop]
  · rw [Nat.min_eq_right (by omega), List.drop_length, List.append_nil, List.take_of_length_le (by omega)]

/-- **Writing moves bytes from the buffer to the packet.** -/
theorem writeData_body (p : Packet) (buf : List UInt8) :
    (p.writeData buf).1.body ++ (p.writeData buf).2 = p.body ++ buf := by
  unfold writeData
  rw [List.append_assoc, List.take_append_drop]

theorem length_writeData_le {p : Packet} (h : p.body.length ≤ maxPacketSize) (buf : List UInt8) :
    (p.writeData buf).1.body.length ≤ maxPacketSize := by
  dsimp only [writeData]
  rw [List.length_append, List.length_take]
  omega

/-- **What does not fit leaves a full packet.** -/
theorem length_writeData {p : Packet} (h : p.body.length ≤ maxPacketSize) {buf : List UInt8}
    (hrest : (p.writeData buf).2 ≠ []) : (p.writeData buf).1.body.length = maxPacketSize := by
  have hpos := List.length_pos_iff.2 hrest
  dsimp only [writeData] at hpos ⊢
  rw [List.length_drop] at hpos
  rw [List.length_append, List.length_take]
  omega

end Packet
end Mrpc
