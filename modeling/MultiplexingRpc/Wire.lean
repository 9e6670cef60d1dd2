import MultiplexingRpc.IntSerialize
import MultiplexingRpc.StreamProcessor
/-!
# Wire — packets on the connection (`mrpc_packet.c`)

A packet goes out as its request id, one number that holds the type in its two low bits and the size above them, and the
body.  The peer's bytes are read into the fixed buffer of a packet of the pool, so the packet is modelled here as it
lies in memory: the size of the body is a field that the header sets before the body is read.
-/
namespace Mrpc

/-- `struct mrpc_packet` in memory: `buf` has `MAX_PACKET_SIZE` bytes, of which `size` are used. -/
structure PacketMemory where
  buf : Vector UInt8 maxPacketSize
  currPos : Int32
  size : Int32
  type : PacketType
  requestId : UInt8

namespace PacketType

/-- The enumeration's values. -/
def toUInt32 : PacketType → UInt32
  | start => 0
  | middle => 1
  | end_ => 2
  | single => 3

/-- `(enum mrpc_packet_type) (tmp & 0x03)`. -/
def ofUInt32 (tmp : UInt32) : PacketType :=
  if tmp &&& 3 = 0 then start
  else if tmp &&& 3 = 1 then middle
  else if tmp &&& 3 = 2 then end_
  else single

end PacketType

/-- The bytes `bytes` stored from the start of the buffer on. -/
def storeBytes (buf : Vector UInt8 maxPacketSize) (bytes : List UInt8) : Vector UInt8 maxPacketSize :=
  Vector.ofFn fun i => (bytes[i.val]?).getD buf[i]

/-- `ff_stream_read(stream, packet->buf, len)`.  A length that is negative or beyond the buffer's is a fault; a failing
read has stored what there was. -/
def ffStreamRead (stream : List UInt8) (buf : Vector UInt8 maxPacketSize) (len : Int) :
    Except Fault (FfResult × Vector UInt8 maxPacketSize × List UInt8) := do
  ffAssert (0 ≤ len)
  if (maxPacketSize : Int) < len then .error .outOfRange
  else if (stream.length : Int) < len then .ok (.failure, storeBytes buf stream, [])
  else .ok (.success, storeBytes buf (stream.take len.toNat), stream.drop len.toNat)

namespace PacketMemory

/-- `mrpc_packet_reset`. -/
def reset (p : PacketMemory) : PacketMemory := { p with currPos := 0, size := 0, type := .start, requestId := 0 }

/-- The bytes in use. -/
def body (p : PacketMemory) : List UInt8 := p.buf.toList.take p.size.toInt.toNat

/-- The packet of the stream processor's model that lies here. -/
def toPacket (p : PacketMemory) (addr : Nat) : Packet :=
  ⟨addr, p.type, p.requestId.toFin, p.body, p.currPos.toInt.toNat⟩

/-- `mrpc_packet_read_from_stream`. -/
def readFromStream (p : PacketMemory) (stream : List UInt8) :
    Except Fault (FfResult × PacketMemory × List UInt8) := do
  ffAssert (p.currPos = 0)
  ffAssert (p.size = 0)
  match stream with
  | [] => .ok (.failure, p, [])
  | requestId :: stream =>
    let p := { p with requestId := requestId }
    match uint32Unserialize 0 stream with
    | ⟨.failure, _, stream⟩ => .ok (.failure, p, stream)
    | ⟨.success, tmp, stream⟩ =>
      let p := { p with type := .ofUInt32 tmp, size := (tmp >>> 2).toInt32 }
      if (maxPacketSize : Int) < p.size.toInt then .ok (.failure, p, stream)
      else
        let (result, buf, stream) ← ffStreamRead stream p.buf p.size.toInt
        .ok (result, { p with buf := buf }, stream)

/-- `mrpc_packet_write_to_stream`. -/
def writeToStream (p : PacketMemory) (stream : OutStream) : Except Fault (FfResult × OutStream) := do
  ffAssert (p.currPos = 0)
  ffAssert (p.size.toInt ≤ maxPacketSize)
  match ffStreamWrite stream [p.requestId] with
  | (.failure, stream) => .ok (.failure, stream)
  | (.success, stream) =>
    let tmp := p.type.toUInt32 ||| (p.size.toUInt32 <<< 2)
    match ← uint32Serialize tmp stream with
    | (.failure, stream) => .ok (.failure, stream)
    | (.success, stream) => .ok (ffStreamWrite stream p.body)

/-- The packets are written one after the other, as long as this succeeds. -/
def writeAll : List PacketMemory → OutStream → Except Fault (FfResult × OutStream)
  | [], stream => .ok (.success, stream)
  | p :: ps, stream => do
    match ← p.writeToStream stream with
    | (.failure, stream) => .ok (.failure, stream)
    | (.success, stream) => writeAll ps stream

/-- One packet after the other is read into the packets given, as long as this succeeds. -/
def readAll : List PacketMemory → List UInt8 → Except Fault (FfResult × List PacketMemory × List UInt8)
  | [], stream => .ok (.success, [], stream)
  | p :: ps, stream => do
    match ← p.readFromStream stream with
    | (.failure, p, stream) => .ok (.failure, p :: ps, stream)
    | (.success, p, stream) =>
      let (result, ps, stream) ← readAll ps stream
      .ok (result, p :: ps, stream)

/-- What a packet tells the peer. -/
def content (p : PacketMemory) : UInt8 × PacketType × List UInt8 := (p.requestId, p.type, p.body)

/-- A packet that may be written: nothing of it was read, and its body lies in the buffer. -/
structure Complete (p : PacketMemory) : Prop where
  currPos : p.currPos = 0
  size_nonneg : 0 ≤ p.size.toInt
  size_le : p.size.toInt ≤ maxPacketSize

/-- A packet that may be read into. -/
def Fresh (p : PacketMemory) : Prop := p.reset = p

end PacketMemory

/-! ## The header's number -/

theorem PacketType.toUInt32_lt (t : PacketType) : t.toUInt32.toNat < 4 := by cases t <;> decide

theorem PacketType.ofUInt32_toUInt32 (t : PacketType) (x : UInt32) (h : x &&& 3 = t.toUInt32) : ofUInt32 x = t := by
  unfold ofUInt32
  rw [h]
  cases t <;> decide

/-- **Type and size share one number**: the size is shifted past the type's two bits. -/
theorem toNat_typeSize (t : PacketType) {size : UInt32} (h : size.toNat ≤ maxPacketSize) :
    (t.toUInt32 ||| (size <<< 2)).toNat = 4 * size.toNat + t.toUInt32.toNat := by
  have h4 := t.toUInt32_lt
  have hm : maxPacketSize = 4095 := rfl
  rw [UInt32.toNat_or, UInt32.toNat_shiftLeft]
  have h2 : (2 : UInt32).toNat % 32 = 2 := rfl
  rw [h2, Nat.shiftLeft_eq, Nat.mod_eq_of_lt (by omega), Nat.or_comm, Nat.mul_comm,
    ← Nat.two_pow_add_eq_or_of_lt (by omega)]

theorem typeSize_shiftRight (t : PacketType) {size : UInt32} (h : size.toNat ≤ maxPacketSize) :
    (t.toUInt32 ||| (size <<< 2)) >>> 2 = size := by
  have h4 := t.toUInt32_lt
  apply UInt32.toNat_inj.1
  rw [UInt32.toNat_shiftRight, toNat_typeSize t h]
  have h2 : (2 : UInt32).toNat % 32 = 2 := rfl
  rw [h2, Nat.shiftRight_eq_div_pow]
  omega

theorem typeSize_and_three (t : PacketType) {size : UInt32} (h : size.toNat ≤ maxPacketSize) :
    (t.toUInt32 ||| (size <<< 2)) &&& 3 = t.toUInt32 := by
  have h4 := t.toUInt32_lt
  apply UInt32.toNat_inj.1
  have h3 : (3 : UInt32).toNat = 2 ^ 2 - 1 := rfl
  rw [UInt32.toNat_and, toNat_typeSize t h, h3, Nat.and_two_pow_sub_one_eq_mod]
  omega

/-! ## The buffer -/

theorem toList_storeBytes_take (buf : Vector UInt8 maxPacketSize) (bytes : List UInt8)
    (h : bytes.length ≤ maxPacketSize) : (storeBytes buf bytes).toList.take bytes.length = bytes := by
  apply List.ext_getElem?
  intro i
  by_cases hi : i < bytes.length
  · rw [List.getElem?_take_of_lt hi]
    simp [storeBytes, hi, Nat.lt_of_lt_of_le hi h]
  · rw [List.getElem?_eq_none (by rw [List.length_take]; omega), List.getElem?_eq_none (by omega)]

theorem ffStreamRead_append {body trailing : List UInt8} (buf : Vector UInt8 maxPacketSize) {len : Int}
    (hlen : (body.length : Int) = len) (h : body.length ≤ maxPacketSize) :
    ffStreamRead (body ++ trailing) buf len = .ok (.success, storeBytes buf body, trailing) := by
  have hnat : len.toNat = body.length := by omega
  rw [ffStreamRead, ffAssert_of (by omega), ok_bind, if_neg (by omega),
    if_neg (by rw [List.length_append]; omega), hnat, List.take_left, List.drop_left]

/-! ## The round trip -/

namespace PacketMemory

theorem toNat_size {p : PacketMemory} (h : p.Complete) : p.size.toUInt32.toNat = p.size.toInt.toNat := by
  have h0 := h.size_nonneg
  have hint : p.size.toInt = p.size.toUInt32.toBitVec.toInt := rfl
  rw [hint, BitVec.toInt_eq_toNat_cond, UInt32.toNat_toBitVec] at h0 ⊢
  have hlt := p.size.toUInt32.toNat_lt
  split at h0
  · rw [if_pos (by assumption)]
    rfl
  · omega

theorem length_body {p : PacketMemory} (h : p.Complete) : (p.body.length : Int) = p.size.toInt := by
  have h0 := h.size_nonneg
  have hle := h.size_le
  have hbuf : p.buf.toList.length = maxPacketSize := by simp
  rw [body, List.length_take, hbuf]
  omega

/-- **A packet goes out as a header of at most three bytes and its body**, and comes back from there. -/
theorem writeToStream_spec {p : PacketMemory} (h : p.Complete) {stream : OutStream} (hs : stream.Lossless) :
    ∃ header stream', header.length ≤ 3 ∧ p.writeToStream stream = .ok (.success, stream') ∧
      stream.Wrote (header ++ p.body) stream' ∧
      ∀ (q : PacketMemory) (trailing : List UInt8), q.Fresh → ∃ q', q'.Complete ∧ q'.content = p.content ∧
        q.readFromStream (header ++ p.body ++ trailing) = .ok (.success, q', trailing) := by
  have hsize := toNat_size h
  have hbody := length_body h
  have hle := h.size_le
  have hmax : maxPacketSize = 4095 := rfl
  have hbound : p.size.toUInt32.toNat ≤ maxPacketSize := by omega
  have htmp := toNat_typeSize p.type hbound
  have h4 := p.type.toUInt32_lt
  obtain ⟨s₁, hw₁, hwrote₁⟩ := ffStreamWrite_lossless hs [p.requestId]
  obtain ⟨octets, s₂, hw₂, hwrote₂, hlen, hread⟩ :=
    uint32_roundTrip (p.type.toUInt32 ||| (p.size.toUInt32 <<< 2)) (k := 2) (by decide) (by omega) hwrote₁.lossless
  obtain ⟨s₃, hw₃, hwrote₃⟩ := ffStreamWrite_lossless hwrote₂.lossless p.body
  refine ⟨p.requestId :: octets, s₃, by rw [List.length_cons]; omega, ?_, ?_, fun q trailing hq => ?_⟩
  · rw [writeToStream, ffAssert_of h.currPos, ok_bind, ffAssert_of h.size_le, ok_bind, hw₁]
    dsimp only
    rw [hw₂, ok_bind]
    dsimp only
    rw [hw₃]
  · exact (hwrote₁.append hwrote₂).append hwrote₃
  · -- the header's number gives type and size back, and the size is the body's length
    have hcurr : q.currPos = 0 := by rw [← hq]; rfl
    have hzero : q.size = 0 := by rw [← hq]; rfl
    have hback : ((p.type.toUInt32 ||| (p.size.toUInt32 <<< 2)) >>> 2).toInt32 = p.size := by
      rw [typeSize_shiftRight _ hbound]
      rfl
    have htype : PacketType.ofUInt32 (p.type.toUInt32 ||| (p.size.toUInt32 <<< 2)) = p.type :=
      PacketType.ofUInt32_toUInt32 _ _ (typeSize_and_three _ hbound)
    have hstored := toList_storeBytes_take q.buf p.body (by omega)
    refine ⟨⟨storeBytes q.buf p.body, q.currPos, p.size, p.type, p.requestId⟩,
      ⟨hcurr, h.size_nonneg, h.size_le⟩, ?_, ?_⟩
    · have hnat : p.body.length = p.size.toInt.toNat := by omega
      rw [hnat] at hstored
      show (p.requestId, p.type, (storeBytes q.buf p.body).toList.take p.size.toInt.toNat) = p.content
      rw [hstored]
      rfl
    · unfold readFromStream
      rw [ffAssert_of hcurr, ok_bind, ffAssert_of hzero, ok_bind, List.cons_append, List.cons_append, List.append_assoc]
      dsimp only
      rw [hread]
      dsimp only
      rw [hback, if_neg (by omega), ffStreamRead_append _ hbody (by omega), ok_bind, htype]

/-- **The round trip of a list of packets.** -/
theorem writeAll_spec : ∀ (ps : List PacketMemory) {stream : OutStream}, (∀ p ∈ ps, p.Complete) → stream.Lossless →
    ∃ headers stream', headers.length = ps.length ∧ (∀ header ∈ headers, header.length ≤ 3) ∧
      writeAll ps stream = .ok (.success, stream') ∧
      stream.Wrote (List.zipWith (fun header p => header ++ p.body) headers ps).flatten stream' ∧
      ∀ (qs : List PacketMemory) (trailing : List UInt8), qs.length = ps.length → (∀ q ∈ qs, q.Fresh) →
        ∃ qs', qs'.map content = ps.map content ∧
          readAll qs ((List.zipWith (fun header p => header ++ p.body) headers ps).flatten ++ trailing)
            = .ok (.success, qs', trailing)
  | [], stream, _, hs => by
    refine ⟨[], stream, rfl, by simp, rfl, OutStream.Wrote.nil hs, fun qs trailing hlen _ => ?_⟩
    rw [List.length_nil, List.length_eq_zero_iff] at hlen
    exact ⟨[], rfl, by rw [hlen]; rfl⟩
  | p :: ps, stream, hps, hs => by
    obtain ⟨header, s₁, hheader, hw₁, hwrote₁, hread₁⟩ := writeToStream_spec (hps p List.mem_cons_self) hs
    obtain ⟨headers, s₂, hlen, hheaders, hw₂, hwrote₂, hread₂⟩ :=
      writeAll_spec ps (fun x hx => hps x (List.mem_cons_of_mem _ hx)) hwrote₁.lossless
    refine ⟨header :: headers, s₂, by rw [List.length_cons, hlen, List.length_cons], ?_, ?_, ?_, ?_⟩
    · intro x hx
      rcases List.mem_cons.1 hx with rfl | hx
      · exact hheader
      · exact hheaders x hx
    · rw [writeAll, hw₁, ok_bind]
      exact hw₂
    · rw [List.zipWith_cons_cons, List.flatten_cons]
      exact hwrote₁.append hwrote₂
    · intro qs trailing hqlen hqs
      cases qs with
      | nil => cases hqlen
      | cons q qs =>
        obtain ⟨q', -, hq', hrq⟩ := hread₁ q
          ((List.zipWith (fun header p => header ++ p.body) headers ps).flatten ++ trailing) (hqs q List.mem_cons_self)
        obtain ⟨qs', hqs', hrqs⟩ := hread₂ qs trailing (Nat.succ_injective hqlen)
          (fun x hx => hqs x (List.mem_cons_of_mem _ hx))
        refine ⟨q' :: qs', by rw [List.map_cons, hq', hqs', List.map_cons], ?_⟩
        rw [List.zipWith_cons_cons, List.flatten_cons, List.append_assoc, readAll, hrq, ok_bind]
        dsimp only
        rw [hrqs]
        rfl

/-! ## Whatever the peer sends -/

/-- **A header is the request id and one number**, with the type and the size it announces. -/
def HeaderOf (header : List UInt8) (p : PacketMemory) : Prop :=
  ∃ octets tmp, header = p.requestId :: octets ∧
    (∀ rest, uint32Unserialize 0 (octets ++ rest) = ⟨.success, tmp, rest⟩) ∧
    p.type = .ofUInt32 tmp ∧ p.size.toInt = (tmp >>> 2).toNat

theorem uint32Unserialize_split {stream rest : List UInt8} {v : UInt32} (h : uint32Unserialize 0 stream = ⟨.success, v, rest⟩) :
    ∃ octets, stream = octets ++ rest ∧ ∀ rest', uint32Unserialize 0 (octets ++ rest') = ⟨.success, v, rest'⟩ := by
  obtain ⟨os, hos, hlen, hsucc, -⟩ := uint64Unserialize_spec 0 stream
  unfold uint32Unserialize at h
  generalize hu : uint64Unserialize 0 stream = u at h hos hsucc
  obtain ⟨result, uData, rest₀⟩ := u
  cases result with
  | failure => cases h
  | success =>
    dsimp only at h hos hsucc
    obtain ⟨hwt, hval⟩ := hsucc rfl
    split at h
    · rename_i hle
      cases h
      refine ⟨os, hos, fun rest' => ?_⟩
      have hdata : UInt64.ofNat (octetSum os) = uData := by
        apply UInt64.toNat_inj.1
        rw [hval, UInt64.toNat_ofNat']
      rw [uint32Unserialize, uint64Unserialize_append hwt hlen, hdata]
      dsimp only
      rw [if_pos hle]
    · cases h

/-- **No byte sequence makes a read go wrong**: it never asks for more than the buffer holds, and if it succeeds the
packet is complete and its body is what follows the header. -/
theorem readFromStream_spec {p : PacketMemory} (h : p.Fresh) (stream : List UInt8) :
    ∃ result p' rest, p.readFromStream stream = .ok (result, p', rest) ∧
      (result = .success → p'.Complete ∧ ∃ header, HeaderOf header p' ∧ stream = header ++ p'.body ++ rest) := by
  have hcurr : p.currPos = 0 := by rw [← h]; rfl
  have hzero : p.size = 0 := by rw [← h]; rfl
  have hmax : maxPacketSize = 4095 := rfl
  unfold readFromStream
  rw [ffAssert_of hcurr, ok_bind, ffAssert_of hzero, ok_bind]
  cases stream with
  | nil => exact ⟨_, _, _, rfl, fun h => by cases h⟩
  | cons requestId stream =>
    dsimp only
    generalize hu : uint32Unserialize 0 stream = u
    obtain ⟨result, tmp, rest⟩ := u
    cases result with
    | failure => exact ⟨_, _, _, rfl, fun h => by cases h⟩
    | success =>
      dsimp only
      -- the number's upper thirty bits are not negative as a C `int`
      have hshift : (tmp >>> 2).toNat < 2 ^ 30 := by
        have h2 : (2 : UInt32).toNat % 32 = 2 := rfl
        have := tmp.toNat_lt
        rw [UInt32.toNat_shiftRight, h2, Nat.shiftRight_eq_div_pow]
        omega
      have hint : (tmp >>> 2).toInt32.toInt = (tmp >>> 2).toNat := by
        have hdef : (tmp >>> 2).toInt32.toInt = (tmp >>> 2).toBitVec.toInt := rfl
        rw [hdef, BitVec.toInt_eq_toNat_cond, UInt32.toNat_toBitVec, if_pos (by omega)]
      by_cases hbig : (maxPacketSize : Int) < (tmp >>> 2).toInt32.toInt
      · rw [if_pos hbig]
        exact ⟨_, _, _, rfl, fun h => by cases h⟩
      · rw [if_neg hbig, ffStreamRead, ffAssert_of (by omega), ok_bind, if_neg hbig]
        by_cases hshort : (rest.length : Int) < (tmp >>> 2).toInt32.toInt
        · rw [if_pos hshort]
          exact ⟨_, _, _, rfl, fun h => by cases h⟩
        · rw [if_neg hshort]
          refine ⟨_, _, _, rfl, fun _ => ⟨⟨hcurr, by dsimp only; omega, by dsimp only; omega⟩, ?_⟩⟩
          obtain ⟨octets, hoctets, hread⟩ := uint32Unserialize_split hu
          have htake : (rest.take (tmp >>> 2).toInt32.toInt.toNat).length = (tmp >>> 2).toInt32.toInt.toNat :=
            List.length_take_of_le (by omega)
          have hstored := toList_storeBytes_take p.buf (rest.take (tmp >>> 2).toInt32.toInt.toNat) (by omega)
          rw [htake] at hstored
          refine ⟨requestId :: octets, ⟨octets, tmp, rfl, hread, rfl, hint⟩, ?_⟩
          rw [body, hstored, List.append_assoc, List.take_append_drop, List.cons_append, ← hoctets]

/-- **What the reader fiber gets from the connection** is a frame that the stream processor's model can receive. -/
theorem toPacket_of_readFromStream {p p' : PacketMemory} {stream rest : List UInt8} (h : p.Fresh) (addr : Nat)
    (hread : p.readFromStream stream = .ok (.success, p', rest)) :
    ∃ f : Frame, f.body.length ≤ maxPacketSize ∧ p'.toPacket addr = (p.toPacket addr).ofFrame f := by
  obtain ⟨result, q, rest', hq, hsucc⟩ := readFromStream_spec h stream
  rw [hread] at hq
  cases hq
  obtain ⟨hcomplete, -⟩ := hsucc rfl
  have hcurr : p.currPos = 0 := by rw [← h]; rfl
  refine ⟨⟨p'.type, p'.requestId.toFin, p'.body⟩, ?_, ?_⟩
  · have hlen := length_body hcomplete
    have hle := hcomplete.size_le
    dsimp only
    omega
  · simp only [toPacket, Packet.ofFrame, hcomplete.currPos, hcurr]

/-- **The wire format.**  Every list of packets comes back from what it was written as, each header in at most three
bytes; and whatever bytes arrive, a read that succeeds leaves a complete packet. -/
theorem wire_roundTrip :
    (∀ (ps : List PacketMemory) (stream : OutStream), (∀ p ∈ ps, p.Complete) → stream.Lossless →
      ∃ headers stream', headers.length = ps.length ∧ (∀ header ∈ headers, header.length ≤ 3) ∧
        writeAll ps stream = .ok (.success, stream') ∧
        stream.Wrote (List.zipWith (fun header p => header ++ p.body) headers ps).flatten stream' ∧
        ∀ (qs : List PacketMemory) (trailing : List UInt8), qs.length = ps.length → (∀ q ∈ qs, q.Fresh) →
          ∃ qs', qs'.map content = ps.map content ∧
            readAll qs ((List.zipWith (fun header p => header ++ p.body) headers ps).flatten ++ trailing)
              = .ok (.success, qs', trailing)) ∧
    ∀ (p : PacketMemory) (stream : List UInt8), p.Fresh →
      ∃ result p' rest, p.readFromStream stream = .ok (result, p', rest) ∧
        (result = .success → p'.Complete ∧ ∃ header, HeaderOf header p' ∧ stream = header ++ p'.body ++ rest) := by
  constructor
  · intro ps stream hps hs
    exact writeAll_spec ps hps hs
  · intro p stream hp
    exact readFromStream_spec hp stream

/-- The packet `single` of the request 7 with three bytes. -/
def sample : PacketMemory := ⟨storeBytes (Vector.replicate maxPacketSize 0) [1, 2, 3], 0, 3, .single, 7⟩

theorem wire_roundTrip_sample : ∃ headers stream', writeAll [sample] ⟨[], []⟩ = .ok (.success, stream') ∧
    OutStream.Wrote ⟨[], []⟩ (List.zipWith (fun header p => header ++ p.body) headers [sample]).flatten stream' ∧
    ∃ qs', qs'.map content = [sample.content] ∧
      readAll [sample.reset] ((List.zipWith (fun header p => header ++ p.body) headers [sample]).flatten ++ [9])
        = .ok (.success, qs', [9]) := by
  obtain ⟨headers, stream', -, -, hwrite, hwrote, hread⟩ := wire_roundTrip.1 [sample] ⟨[], []⟩
    (fun p hp => by rw [List.mem_singleton.1 hp]; exact ⟨rfl, by decide, by decide⟩) (fun o ho => by cases ho)
  exact ⟨headers, stream', hwrite, hwrote,
    hread [sample.reset] [9] rfl (fun q hq => by rw [List.mem_singleton.1 hq]; rfl)⟩

end PacketMemory
end Mrpc
