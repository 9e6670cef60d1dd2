import MultiplexingRpc.IntSerialize
/-!
# Arrays — strings of bytes and of characters (`mrpc_char_array.c`, `mrpc_wchar_array.c`)

Both types are a counted reference to an immutable array of bounded length.  On the wire the length comes first, as a
number; the bytes of a char array follow as they are, the characters of a wchar array each as a number of its own.  A
`wchar_t` is modelled with 32 bits; no character of `0x10000` or more is sent or accepted, so that it fits 16 bits too.
-/
namespace Mrpc

/-- `MAX_CHAR_ARRAY_LENGTH`. -/
def maxCharArrayLength : Nat := 2 ^ 14 - 1

/-- `MAX_WCHAR_ARRAY_LENGTH`. -/
def maxWcharArrayLength : Nat := 2 ^ 14 - 1

/-- `struct mrpc_char_array`, `struct mrpc_wchar_array`; one with `refCnt = 0` is freed. -/
structure CountedArray (α : Type) where
  value : List α
  refCnt : Nat
  deriving DecidableEq, Repr

abbrev CharArray := CountedArray UInt8

abbrev WcharArray := CountedArray UInt32

namespace CountedArray

variable {α : Type}

/-- The constructor of both types. -/
def create (maxLength : Nat) (value : List α) : Except Fault (CountedArray α) := do
  ffAssert (value.length ≤ maxLength)
  .ok ⟨value, 1⟩

/-- `mrpc_char_array_inc_ref`, `mrpc_wchar_array_inc_ref`. -/
def incRef (array : CountedArray α) : Except Fault (CountedArray α) := do
  ffAssert (1 < array.refCnt + 1)
  .ok { array with refCnt := array.refCnt + 1 }

/-- `mrpc_char_array_dec_ref`, `mrpc_wchar_array_dec_ref`. -/
def decRef (array : CountedArray α) : Except Fault (CountedArray α) := do
  ffAssert (0 < array.refCnt)
  .ok { array with refCnt := array.refCnt - 1 }

/-- The length of both types. -/
def getLen (maxLength : Nat) (array : CountedArray α) : Except Fault Nat := do
  ffAssert (0 < array.refCnt)
  ffAssert (array.value.length ≤ maxLength)
  .ok array.value.length

/-- `mrpc_char_array_get_value`, `mrpc_wchar_array_get_value`. -/
def getValue (array : CountedArray α) : Except Fault (List α) := do
  ffAssert (0 < array.refCnt)
  .ok array.value

end CountedArray

/-- `mrpc_char_array_create`. -/
def charArrayCreate (value : List UInt8) : Except Fault CharArray := CountedArray.create maxCharArrayLength value

/-- `mrpc_char_array_get_len`. -/
def charArrayGetLen (array : CharArray) : Except Fault Nat := array.getLen maxCharArrayLength

/-- `mrpc_wchar_array_create`. -/
def wcharArrayCreate (value : List UInt32) : Except Fault WcharArray := CountedArray.create maxWcharArrayLength value

/-- `mrpc_wchar_array_get_len`. -/
def wcharArrayGetLen (array : WcharArray) : Except Fault Nat := array.getLen maxWcharArrayLength

/-- `mrpc_char_array_serialize`. -/
def charArraySerialize (array : CharArray) (stream : OutStream) : Except Fault (FfResult × CharArray × OutStream) := do
  let array ← array.incRef
  let len ← charArrayGetLen array
  match ← uint32Serialize (UInt32.ofNat len) stream with
  | (.failure, stream) =>
    let array ← array.decRef
    .ok (.failure, array, stream)
  | (.success, stream) =>
    let value ← array.getValue
    let (result, stream) := ffStreamWrite stream value
    let array ← array.decRef
    .ok (result, array, stream)

/-- `mrpc_char_array_unserialize`; `data` is what `*char_array` was. -/
def charArrayUnserialize (data : Option CharArray) (stream : List UInt8) :
    Except Fault (Unserialized (Option CharArray)) :=
  match uint32Unserialize 0 stream with
  | ⟨.failure, _, stream⟩ => .ok ⟨.failure, data, stream⟩
  | ⟨.success, uLen, stream⟩ =>
    if maxCharArrayLength < uLen.toNat then .ok ⟨.failure, data, stream⟩
    else if stream.length < uLen.toNat then .ok ⟨.failure, data, []⟩
    else do
      let array ← charArrayCreate (stream.take uLen.toNat)
      .ok ⟨.success, some array, stream.drop uLen.toNat⟩

/-- The loop of `mrpc_wchar_array_serialize`. -/
def wcharArraySerializeLoop : List UInt32 → OutStream → Except Fault (FfResult × OutStream)
  | [], stream => .ok (.success, stream)
  | ch :: value, stream => do
    ffAssert (ch < 0x10000)
    match ← uint32Serialize ch stream with
    | (.failure, stream) => .ok (.failure, stream)
    | (.success, stream) => wcharArraySerializeLoop value stream

/-- `mrpc_wchar_array_serialize`. -/
def wcharArraySerialize (array : WcharArray) (stream : OutStream) :
    Except Fault (FfResult × WcharArray × OutStream) := do
  let array ← array.incRef
  let len ← wcharArrayGetLen array
  match ← uint32Serialize (UInt32.ofNat len) stream with
  | (.failure, stream) =>
    let array ← array.decRef
    .ok (.failure, array, stream)
  | (.success, stream) =>
    let value ← array.getValue
    let (result, stream) ← wcharArraySerializeLoop value stream
    let array ← array.decRef
    .ok (result, array, stream)

/-- The loop of `mrpc_wchar_array_unserialize`, with the characters it has. -/
def wcharArrayUnserializeLoop : Nat → List UInt32 → List UInt8 → Unserialized (List UInt32)
  | 0, value, stream => ⟨.success, value, stream⟩
  | n + 1, value, stream =>
    match uint32Unserialize 0 stream with
    | ⟨.failure, _, stream⟩ => ⟨.failure, value, stream⟩
    | ⟨.success, ch, stream⟩ =>
      if 0x10000 ≤ ch then ⟨.failure, value, stream⟩ else wcharArrayUnserializeLoop n (value ++ [ch]) stream

/-- `mrpc_wchar_array_unserialize`; `data` is what `*wchar_array` was. -/
def wcharArrayUnserialize (data : Option WcharArray) (stream : List UInt8) :
    Except Fault (Unserialized (Option WcharArray)) :=
  match uint32Unserialize 0 stream with
  | ⟨.failure, _, stream⟩ => .ok ⟨.failure, data, stream⟩
  | ⟨.success, uLen, stream⟩ =>
    if maxWcharArrayLength < uLen.toNat then .ok ⟨.failure, data, stream⟩
    else
      match wcharArrayUnserializeLoop uLen.toNat [] stream with
      | ⟨.failure, _, stream⟩ => .ok ⟨.failure, data, stream⟩
      | ⟨.success, value, stream⟩ => do
        let array ← wcharArrayCreate value
        .ok ⟨.success, some array, stream⟩

/-! ## The round trip -/

theorem toNat_ofNat_length {α : Type} {value : List α} (h : value.length ≤ 2 ^ 14 - 1) :
    (UInt32.ofNat value.length).toNat = value.length := by
  rw [UInt32.toNat_ofNat']
  exact Nat.mod_eq_of_lt (by omega)

/-- **A char array comes back from what it was written as**, with one reference. -/
theorem charArray_roundTrip {array : CharArray} (href : 0 < array.refCnt) (hlen : array.value.length ≤ maxCharArrayLength)
    {stream : OutStream} (hs : stream.Lossless) :
    ∃ bytes stream', charArraySerialize array stream = .ok (.success, array, stream') ∧ stream.Wrote bytes stream' ∧
      ∀ data trailing, charArrayUnserialize data (bytes ++ trailing)
        = .ok ⟨.success, some ⟨array.value, 1⟩, trailing⟩ := by
  have hnat := toNat_ofNat_length hlen
  obtain ⟨octets, s₁, hw₁, hwrote₁, hread⟩ := uint32_roundTrips (UInt32.ofNat array.value.length) stream hs
  obtain ⟨s₂, hw₂, hwrote₂⟩ := ffStreamWrite_lossless hwrote₁.lossless array.value
  refine ⟨octets ++ array.value, s₂, ?_, hwrote₁.append hwrote₂, fun data trailing => ?_⟩
  · unfold charArraySerialize charArrayGetLen CountedArray.incRef CountedArray.getLen CountedArray.getValue
      CountedArray.decRef
    simp only [ffAssert_of (show 1 < array.refCnt + 1 by omega), ffAssert_of (Nat.succ_pos array.refCnt),
      ffAssert_of hlen, ok_bind, hw₁, hw₂, Nat.add_sub_cancel]
  · unfold charArrayUnserialize
    rw [List.append_assoc, hread]
    dsimp only
    rw [hnat, if_neg (by omega), if_neg (by rw [List.length_append]; omega), List.take_left, List.drop_left,
      charArrayCreate, CountedArray.create, ffAssert_of hlen]
    rfl

theorem lt_of_toNat_lt {ch : UInt32} (h : ch.toNat < 0x10000) : ch < 0x10000 := UInt32.lt_iff_toNat_lt.2 h

/-- **The loops of a wchar array**: what one writes, the other reads behind what it has. -/
theorem wcharArrayLoop_roundTrip : ∀ (value : List UInt32) {stream : OutStream}, (∀ ch ∈ value, ch.toNat < 0x10000) →
    stream.Lossless →
    ∃ bytes stream', wcharArraySerializeLoop value stream = .ok (.success, stream') ∧ stream.Wrote bytes stream' ∧
      ∀ before trailing, wcharArrayUnserializeLoop value.length before (bytes ++ trailing)
        = ⟨.success, before ++ value, trailing⟩
  | [], stream, _, hs => by
    refine ⟨[], stream, rfl, OutStream.Wrote.nil hs, fun before trailing => ?_⟩
    rw [List.append_nil]
    rfl
  | ch :: value, stream, hall, hs => by
    have hch := lt_of_toNat_lt (hall ch List.mem_cons_self)
    obtain ⟨octets, s₁, hw₁, hwrote₁, hread₁⟩ := uint32_roundTrips ch stream hs
    obtain ⟨bytes, s₂, hw₂, hwrote₂, hread₂⟩ :=
      wcharArrayLoop_roundTrip value (fun x hx => hall x (List.mem_cons_of_mem _ hx)) hwrote₁.lossless
    refine ⟨octets ++ bytes, s₂, ?_, hwrote₁.append hwrote₂, fun before trailing => ?_⟩
    · rw [wcharArraySerializeLoop, ffAssert_of hch, ok_bind, hw₁, ok_bind]
      exact hw₂
    · rw [List.length_cons, wcharArrayUnserializeLoop, List.append_assoc, hread₁]
      dsimp only
      rw [if_neg (UInt32.not_le.2 hch), hread₂, List.append_assoc]
      rfl

/-- **A wchar array comes back from what it was written as**, with one reference. -/
theorem wcharArray_roundTrip {array : WcharArray} (href : 0 < array.refCnt)
    (hlen : array.value.length ≤ maxWcharArrayLength) (hall : ∀ ch ∈ array.value, ch.toNat < 0x10000)
    {stream : OutStream} (hs : stream.Lossless) :
    ∃ bytes stream', wcharArraySerialize array stream = .ok (.success, array, stream') ∧ stream.Wrote bytes stream' ∧
      ∀ data trailing, wcharArrayUnserialize data (bytes ++ trailing)
        = .ok ⟨.success, some ⟨array.value, 1⟩, trailing⟩ := by
  have hnat := toNat_ofNat_length hlen
  obtain ⟨octets, s₁, hw₁, hwrote₁, hread₁⟩ := uint32_roundTrips (UInt32.ofNat array.value.length) stream hs
  obtain ⟨bytes, s₂, hw₂, hwrote₂, hread₂⟩ := wcharArrayLoop_roundTrip array.value hall hwrote₁.lossless
  refine ⟨octets ++ bytes, s₂, ?_, hwrote₁.append hwrote₂, fun data trailing => ?_⟩
  · unfold wcharArraySerialize wcharArrayGetLen CountedArray.incRef CountedArray.getLen CountedArray.getValue
      CountedArray.decRef
    simp only [ffAssert_of (show 1 < array.refCnt + 1 by omega), ffAssert_of (Nat.succ_pos array.refCnt),
      ffAssert_of hlen, ok_bind, hw₁, hw₂, Nat.add_sub_cancel]
  · unfold wcharArrayUnserialize
    rw [List.append_assoc, hread₁]
    dsimp only
    rw [hnat, if_neg (by omega), hread₂, List.nil_append]
    dsimp only
    rw [wcharArrayCreate, CountedArray.create, ffAssert_of hlen]
    rfl

end Mrpc
