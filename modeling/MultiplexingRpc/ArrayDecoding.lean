import MultiplexingRpc.Arrays
/-!
# ArrayDecoding — what a decoder makes of untrusted octets (`mrpc_char_array.c`, `mrpc_wchar_array.c`)

Both decoders read a length, allocate a buffer for so many elements and fill it from the stream.  Here they run with
their buffers: who owns one at each exit, and what lies in it.  The decoder of `Arrays` is the same without them
(`charArrayDecode_eq`, `wcharArrayDecode_eq`).
-/
namespace Mrpc

/-! ## Buffers -/

/-- The buffers of `ff_calloc` so far and, in order, those given to `ff_free`.  The next buffer is the number `allocated`;
`ff_calloc` always returns one. -/
structure Heap where
  allocated : Nat
  freed : List Nat
  deriving DecidableEq, Repr

/-- `ff_calloc`, less the contents of the buffer. -/
def Heap.ffCalloc (heap : Heap) : Nat × Heap := (heap.allocated, { heap with allocated := heap.allocated + 1 })

/-- `ff_free`. -/
def Heap.ffFree (heap : Heap) (buf : Nat) : Heap := { heap with freed := heap.freed ++ [buf] }

/-- An array and the buffer that its `value` points to. -/
structure BufferedArray (α : Type) where
  array : CountedArray α
  buf : Nat
  deriving DecidableEq, Repr

/-- What a call leaves behind, and the buffers. -/
structure Decoded (α : Type) where
  call : Unserialized α
  heap : Heap
  deriving DecidableEq, Repr

/-! ## The decoders -/

/-- `mrpc_char_array_unserialize` and `mrpc_wchar_array_unserialize` but for the elements: `read` fills the buffer with so
many, and frees it where it fails.  `data` is what the output variable was. -/
def arrayDecode {α : Type} (maxLength : Nat) (read : Nat → Nat → List UInt8 → Heap → Except Fault (Decoded (List α)))
    (data : Option (BufferedArray α)) (stream : List UInt8) (heap : Heap) :
    Except Fault (Decoded (Option (BufferedArray α))) :=
  match uint32Unserialize 0 stream with
  | ⟨.failure, _, stream⟩ => .ok ⟨⟨.failure, data, stream⟩, heap⟩
  | ⟨.success, uLen, stream⟩ =>
    if maxLength < uLen.toNat then .ok ⟨⟨.failure, data, stream⟩, heap⟩
    else do
      let (buf, heap) := heap.ffCalloc
      match ← read uLen.toNat buf stream heap with
      | ⟨⟨.failure, _, stream⟩, heap⟩ => .ok ⟨⟨.failure, data, stream⟩, heap⟩
      | ⟨⟨.success, value, stream⟩, heap⟩ =>
        let array ← CountedArray.create maxLength value
        .ok ⟨⟨.success, some ⟨array, buf⟩, stream⟩, heap⟩

/-- `ff_stream_read` of the bytes, as `mrpc_char_array_unserialize` does it. -/
def readBytes (len buf : Nat) (stream : List UInt8) (heap : Heap) : Except Fault (Decoded (List UInt8)) :=
  if stream.length < len then .ok ⟨⟨.failure, List.replicate len 0, []⟩, heap.ffFree buf⟩
  else .ok ⟨⟨.success, stream.take len, stream.drop len⟩, heap⟩

/-- The loop of `mrpc_wchar_array_unserialize`, with the turns left, `i` and the contents of the buffer. -/
def readCharactersLoop (buf : Nat) : Nat → Nat → List UInt32 → List UInt8 → Heap → Except Fault (Decoded (List UInt32))
  | 0, _, value, stream, heap => .ok ⟨⟨.success, value, stream⟩, heap⟩
  | turns + 1, i, value, stream, heap =>
    match uint32Unserialize 0 stream with
    | ⟨.failure, _, stream⟩ => .ok ⟨⟨.failure, value, stream⟩, heap.ffFree buf⟩
    | ⟨.success, ch, stream⟩ =>
      if 0x10000 ≤ ch then .ok ⟨⟨.failure, value, stream⟩, heap.ffFree buf⟩
      else if i < value.length then readCharactersLoop buf turns (i + 1) (value.set i ch) stream heap
      else .error .outOfRange

/-- The characters, read into a cleared buffer. -/
def readCharacters (len buf : Nat) (stream : List UInt8) (heap : Heap) : Except Fault (Decoded (List UInt32)) :=
  readCharactersLoop buf len 0 (List.replicate len 0) stream heap

/-- `mrpc_char_array_unserialize`, with its buffer. -/
def charArrayDecode (data : Option (BufferedArray UInt8)) (stream : List UInt8) (heap : Heap) :
    Except Fault (Decoded (Option (BufferedArray UInt8))) :=
  arrayDecode maxCharArrayLength readBytes data stream heap

/-- `mrpc_wchar_array_unserialize`, with its buffer. -/
def wcharArrayDecode (data : Option (BufferedArray UInt32)) (stream : List UInt8) (heap : Heap) :
    Except Fault (Decoded (Option (BufferedArray UInt32))) :=
  arrayDecode maxWcharArrayLength readCharacters data stream heap

/-! ## The hashes -/

/-- `mrpc_char_array_get_hash`. -/
def charArrayGetHash (ffHashUint8 : UInt32 → List UInt8 → UInt32) (array : CharArray) (startValue : UInt32) :
    Except Fault UInt32 := do
  ffAssert (0 < array.refCnt)
  let value ← array.getValue
  let _ ← charArrayGetLen array
  .ok (ffHashUint8 startValue value)

/-- The loop of `mrpc_wchar_array_get_hash`: a `wchar_t` is compared as a signed number. -/
def wcharArrayGetHashLoop : List UInt32 → List UInt16 → Except Fault (List UInt16)
  | [], buf => .ok buf
  | ch :: value, buf => do
    ffAssert (ch.toInt32 < 0x10000)
    wcharArrayGetHashLoop value (buf ++ [ch.toUInt16])

/-- `mrpc_wchar_array_get_hash`. -/
def wcharArrayGetHash (ffHashUint16 : UInt32 → List UInt16 → UInt32) (array : WcharArray) (startValue : UInt32) :
    Except Fault UInt32 := do
  ffAssert (0 < array.refCnt)
  let value ← array.getValue
  let _ ← wcharArrayGetLen array
  let buf ← wcharArrayGetHashLoop value []
  .ok (ffHashUint16 startValue buf)

/-! ## The elements that follow a length -/

/-- Raw bytes. -/
def Bytes (value stream rest : List UInt8) : Prop := stream = value ++ rest

/-- Numbers below `0x10000`, each as `mrpc_uint32_unserialize` takes it. -/
inductive Characters : List UInt32 → List UInt8 → List UInt8 → Prop where
  | nil (stream : List UInt8) : Characters [] stream stream
  | cons {ch : UInt32} {value : List UInt32} {stream rest rest' : List UInt8}
    (hch : uint32Unserialize 0 stream = ⟨.success, ch, rest⟩) (hlt : ch < 0x10000) (hvalue : Characters value rest rest') :
    Characters (ch :: value) stream rest'

theorem Characters.lt {value : List UInt32} {stream rest : List UInt8} (h : Characters value stream rest) :
    ∀ ch ∈ value, ch < 0x10000 := by
  induction h with
  | nil => simp
  | cons hch hlt hvalue ih =>
    intro ch hmem
    rcases List.mem_cons.1 hmem with rfl | hmem
    · exact hlt
    · exact ih ch hmem

variable {α : Type} {follow : List α → List UInt8 → List UInt8 → Prop}
  {read : Nat → Nat → List UInt8 → Heap → Except Fault (Decoded (List α))} {maxLength : Nat}

/-- It takes exactly the elements asked for, if so many follow; else it fails and has freed the buffer. -/
def ReadsExactly (follow : List α → List UInt8 → List UInt8 → Prop)
    (read : Nat → Nat → List UInt8 → Heap → Except Fault (Decoded (List α))) : Prop :=
  ∀ len buf stream heap,
    (∃ value rest, value.length = len ∧ follow value stream rest ∧
      read len buf stream heap = .ok ⟨⟨.success, value, rest⟩, heap⟩) ∨
    ((∃ value rest, read len buf stream heap = .ok ⟨⟨.failure, value, rest⟩, heap.ffFree buf⟩) ∧
      ∀ value rest, follow value stream rest → value.length ≠ len)

theorem readBytes_exact : ReadsExactly Bytes readBytes := by
  intro len buf stream heap
  unfold readBytes
  by_cases hshort : stream.length < len
  · rw [if_pos hshort]
    refine Or.inr ⟨⟨_, _, rfl⟩, fun value rest h hlen => ?_⟩
    rw [h, List.length_append] at hshort
    omega
  · rw [if_neg hshort]
    exact Or.inl ⟨stream.take len, stream.drop len, List.length_take_of_le (by omega), (List.take_append_drop len stream).symm,
      rfl⟩

theorem lt_length_replicate (done : List UInt32) (n : Nat) :
    done.length < (done ++ List.replicate (n + 1) (0 : UInt32)).length := by
  rw [List.length_append, List.length_replicate]
  omega

theorem set_length_replicate (done : List UInt32) (n : Nat) (ch : UInt32) :
    (done ++ List.replicate (n + 1) 0).set done.length ch = (done ++ [ch]) ++ List.replicate n 0 := by
  rw [List.set_append_right _ _ (Nat.le_refl _), Nat.sub_self, List.append_assoc]
  rfl

/-- **The loop fills the rest of the buffer**, with `done` in it, or frees it. -/
theorem readCharactersLoop_exact (buf : Nat) (heap : Heap) : ∀ (turns : Nat) (done : List UInt32) (stream : List UInt8),
    (∃ value rest, value.length = turns ∧ Characters value stream rest ∧
      readCharactersLoop buf turns done.length (done ++ List.replicate turns 0) stream heap
        = .ok ⟨⟨.success, done ++ value, rest⟩, heap⟩) ∨
    ((∃ value rest, readCharactersLoop buf turns done.length (done ++ List.replicate turns 0) stream heap
        = .ok ⟨⟨.failure, value, rest⟩, heap.ffFree buf⟩) ∧
      ∀ value rest, Characters value stream rest → value.length ≠ turns)
  | 0, done, stream => Or.inl ⟨[], stream, rfl, .nil stream, rfl⟩
  | turns + 1, done, stream => by
    rw [readCharactersLoop]
    generalize hu : uint32Unserialize 0 stream = u
    obtain ⟨result, ch, rest⟩ := u
    cases result with
    | failure =>
      refine Or.inr ⟨⟨_, _, rfl⟩, fun value rest' h hlen => ?_⟩
      cases h with
      | nil => cases hlen
      | cons hch =>
        rw [hu] at hch
        cases hch
    | success =>
      dsimp only
      by_cases hge : 0x10000 ≤ ch
      · rw [if_pos hge]
        refine Or.inr ⟨⟨_, _, rfl⟩, fun value rest' h hlen => ?_⟩
        cases h with
        | nil => cases hlen
        | cons hch hlt =>
          rw [hu] at hch
          cases hch
          exact UInt32.not_le.2 hlt hge
      · rw [if_neg hge, if_pos (lt_length_replicate done turns), set_length_replicate]
        have ih := readCharactersLoop_exact buf heap turns (done ++ [ch]) rest
        rw [List.length_append, List.length_singleton] at ih
        rcases ih with ⟨value, rest', hlen, hvalue, hrun⟩ | ⟨hrun, hnone⟩
        · refine Or.inl ⟨ch :: value, rest', by rw [List.length_cons, hlen], .cons hu (UInt32.not_le.1 hge) hvalue, ?_⟩
          rw [hrun, List.append_assoc]
          rfl
        · refine Or.inr ⟨hrun, fun value rest' h hlen => ?_⟩
          cases h with
          | nil => cases hlen
          | cons hch _ hvalue =>
            rw [hu] at hch
            cases hch
            exact hnone _ _ hvalue (Nat.succ.inj hlen)

theorem readCharacters_exact : ReadsExactly Characters readCharacters :=
  fun len buf stream heap => readCharactersLoop_exact buf heap len [] stream

/-! ## Exactness -/

/-- A length within the limit, and so many elements behind it. -/
structure Encodes (follow : List α → List UInt8 → List UInt8 → Prop) (maxLength : Nat) (value : List α)
    (stream rest : List UInt8) : Prop where
  length_le : value.length ≤ maxLength
  elements : ∃ uLen behind, uint32Unserialize 0 stream = ⟨.success, uLen, behind⟩ ∧ uLen.toNat = value.length ∧
    follow value behind rest

/-- **Exact decoding of an array**: a success is an encoding, consumed to its end, and sets the output variable to the
array of its elements, with one reference and the buffer as its own.  A failure leaves the variable, and its buffer, if it
came to one, is freed once. -/
structure ExactArrayDecoding (follow : List α → List UInt8 → List UInt8 → Prop) (maxLength : Nat)
    (data : Option (BufferedArray α)) (stream : List UInt8) (heap : Heap) (r : Decoded (Option (BufferedArray α))) :
    Prop where
  success_iff : r.call.result = .success ↔ ∃ value rest, Encodes follow maxLength value stream rest
  of_success : r.call.result = .success → ∃ value, Encodes follow maxLength value stream r.call.stream ∧
    r.call.data = some ⟨⟨value, 1⟩, heap.allocated⟩ ∧ r.heap = ⟨heap.allocated + 1, heap.freed⟩
  of_failure : r.call.result = .failure → r.call.data = data ∧
    (r.heap = heap ∨ r.heap = ⟨heap.allocated + 1, heap.freed ++ [heap.allocated]⟩)

/-- **A decoder with an exact reader is exact.** -/
theorem ReadsExactly.decode (h : ReadsExactly follow read) (maxLength : Nat) (data : Option (BufferedArray α))
    (stream : List UInt8) (heap : Heap) :
    ∃ r, arrayDecode maxLength read data stream heap = .ok r ∧
      ExactArrayDecoding follow maxLength data stream heap r := by
  unfold arrayDecode
  generalize hu : uint32Unserialize 0 stream = u
  obtain ⟨result, uLen, behind⟩ := u
  -- whatever else the stream encoded, its length would be this one
  have hlength : ∀ {value rest}, Encodes follow maxLength value stream rest →
      result = .success ∧ uLen.toNat = value.length ∧ value.length ≤ maxLength ∧ follow value behind rest := by
    rintro value rest ⟨hle, uLen', behind', hu', hlen, hfollow⟩
    rw [hu] at hu'
    cases hu'
    exact ⟨rfl, hlen, hle, hfollow⟩
  cases result with
  | failure =>
    refine ⟨_, rfl, ⟨⟨(fun h => by cases h), ?_⟩, (fun h => by cases h), fun _ => ⟨rfl, Or.inl rfl⟩⟩⟩
    rintro ⟨value, rest, hv⟩
    cases (hlength hv).1
  | success =>
    dsimp only
    by_cases hlong : maxLength < uLen.toNat
    · rw [if_pos hlong]
      refine ⟨_, rfl, ⟨⟨(fun h => by cases h), ?_⟩, (fun h => by cases h), fun _ => ⟨rfl, Or.inl rfl⟩⟩⟩
      rintro ⟨value, rest, hv⟩
      obtain ⟨-, hlen, hle, -⟩ := hlength hv
      omega
    · rw [if_neg hlong]
      rcases h uLen.toNat heap.allocated behind heap.ffCalloc.2 with
        ⟨value, rest, hlen, hfollow, hrun⟩ | ⟨⟨value, rest, hrun⟩, hnone⟩
      · have hle : value.length ≤ maxLength := by omega
        have henc : Encodes follow maxLength value stream rest := ⟨hle, uLen, behind, hu, hlen.symm, hfollow⟩
        refine ⟨⟨⟨.success, some ⟨⟨value, 1⟩, heap.allocated⟩, rest⟩, ⟨heap.allocated + 1, heap.freed⟩⟩, ?_,
          ⟨iff_of_true rfl ⟨value, rest, henc⟩, fun _ => ⟨value, henc, rfl, rfl⟩, fun h => by cases h⟩⟩
        show (read uLen.toNat heap.allocated behind heap.ffCalloc.2 >>= _) = _
        rw [hrun, ok_bind]
        dsimp only
        rw [CountedArray.create, ffAssert_of hle]
        rfl
      · refine ⟨⟨⟨.failure, data, rest⟩, heap.ffCalloc.2.ffFree heap.allocated⟩, ?_,
          ⟨⟨(fun h => by cases h), ?_⟩, (fun h => by cases h), fun _ => ⟨rfl, Or.inr rfl⟩⟩⟩
        · show (read uLen.toNat heap.allocated behind heap.ffCalloc.2 >>= _) = _
          rw [hrun, ok_bind]
        · rintro ⟨value', rest', hv⟩
          obtain ⟨-, hlen, -, hfollow⟩ := hlength hv
          exact absurd hlen.symm (hnone value' rest' hfollow)

/-! ## The decoders of `Arrays` -/

/-- Less the buffers. -/
def Decoded.forget (r : Decoded (Option (BufferedArray α))) : Unserialized (Option (CountedArray α)) :=
  ⟨r.call.result, r.call.data.map BufferedArray.array, r.call.stream⟩

/-- **`mrpc_char_array_unserialize` with its buffer is the one without.** -/
theorem charArrayDecode_eq (data : Option (BufferedArray UInt8)) (stream : List UInt8) (heap : Heap) :
    (charArrayDecode data stream heap).map Decoded.forget
      = charArrayUnserialize (data.map BufferedArray.array) stream := by
  unfold charArrayDecode arrayDecode charArrayUnserialize
  generalize uint32Unserialize 0 stream = u
  obtain ⟨result, uLen, behind⟩ := u
  cases result with
  | failure => rfl
  | success =>
    dsimp only
    by_cases hlong : maxCharArrayLength < uLen.toNat
    · rw [if_pos hlong, if_pos hlong]
      rfl
    · rw [if_neg hlong, if_neg hlong]
      by_cases hshort : behind.length < uLen.toNat
      · rw [if_pos hshort, readBytes, if_pos hshort]
        rfl
      · have hle : (behind.take uLen.toNat).length ≤ maxCharArrayLength := by
          rw [List.length_take]
          omega
        rw [if_neg hshort, readBytes, if_neg hshort, charArrayCreate]
        simp only [CountedArray.create, ffAssert_of hle, ok_bind]
        rfl

/-- **The loop over the buffer takes what the loop over the list takes.** -/
theorem readCharactersLoop_eq (buf : Nat) (heap : Heap) : ∀ (turns : Nat) (done : List UInt32) (stream : List UInt8),
    ∃ value heap', readCharactersLoop buf turns done.length (done ++ List.replicate turns 0) stream heap
        = .ok ⟨⟨(wcharArrayUnserializeLoop turns done stream).result, value,
          (wcharArrayUnserializeLoop turns done stream).stream⟩, heap'⟩ ∧
      ((wcharArrayUnserializeLoop turns done stream).result = .success →
        value = (wcharArrayUnserializeLoop turns done stream).data)
  | 0, done, stream => ⟨done, heap, by rw [List.replicate_zero, List.append_nil]; rfl, fun _ => rfl⟩
  | turns + 1, done, stream => by
    rw [readCharactersLoop, wcharArrayUnserializeLoop]
    generalize uint32Unserialize 0 stream = u
    obtain ⟨result, ch, rest⟩ := u
    cases result with
    | failure => exact ⟨_, _, rfl, fun h => by cases h⟩
    | success =>
      dsimp only
      by_cases hge : 0x10000 ≤ ch
      · rw [if_pos hge, if_pos hge]
        exact ⟨_, _, rfl, fun h => by cases h⟩
      · rw [if_neg hge, if_neg hge, if_pos (lt_length_replicate done turns), set_length_replicate]
        have ih := readCharactersLoop_eq buf heap turns (done ++ [ch]) rest
        rwa [List.length_append, List.length_singleton] at ih

/-- **`mrpc_wchar_array_unserialize` with its buffer is the one without.** -/
theorem wcharArrayDecode_eq (data : Option (BufferedArray UInt32)) (stream : List UInt8) (heap : Heap) :
    (wcharArrayDecode data stream heap).map Decoded.forget
      = wcharArrayUnserialize (data.map BufferedArray.array) stream := by
  unfold wcharArrayDecode arrayDecode wcharArrayUnserialize
  generalize uint32Unserialize 0 stream = u
  obtain ⟨result, uLen, behind⟩ := u
  cases result with
  | failure => rfl
  | success =>
    dsimp only
    by_cases hlong : maxWcharArrayLength < uLen.toNat
    · rw [if_pos hlong, if_pos hlong]
      rfl
    · rw [if_neg hlong, if_neg hlong]
      obtain ⟨value, heap', hrun, hvalue⟩ :=
        readCharactersLoop_eq heap.ffCalloc.1 heap.ffCalloc.2 uLen.toNat [] behind
      rw [List.nil_append, List.length_nil] at hrun
      generalize wcharArrayUnserializeLoop uLen.toNat [] behind = w at hrun hvalue ⊢
      obtain ⟨wresult, wvalue, wrest⟩ := w
      show Except.map _ (readCharactersLoop _ _ 0 _ behind heap.ffCalloc.2 >>= _) = _
      rw [hrun, ok_bind]
      cases wresult with
      | failure => rfl
      | success =>
        have heq : value = wvalue := hvalue rfl
        subst heq
        dsimp only [wcharArrayCreate]
        cases CountedArray.create maxWcharArrayLength value <;> rfl

/-! ## Arrays that were decoded -/

/-- No assertion of the array's functions fails on it, whatever a stream or a hash does, and what it is written as is
decoded to an equal array. -/
structure Usable (create : List α → Except Fault (CountedArray α)) (getLen : CountedArray α → Except Fault Nat)
    (getHash : CountedArray α → UInt32 → Except Fault UInt32)
    (serialize : CountedArray α → OutStream → Except Fault (FfResult × CountedArray α × OutStream))
    (decode : Option (BufferedArray α) → List UInt8 → Heap → Except Fault (Decoded (Option (BufferedArray α))))
    (array : CountedArray α) : Prop where
  created : create array.value = .ok array
  len : getLen array = .ok array.value.length
  hash : ∀ startValue, ∃ hashValue, getHash array startValue = .ok hashValue
  serialized : ∀ stream, ∃ result stream', serialize array stream = .ok (result, array, stream')
  decoded : ∀ stream : OutStream, stream.Lossless → ∃ bytes stream', serialize array stream = .ok (.success, array, stream') ∧
    stream.Wrote bytes stream' ∧ ∀ data trailing heap, ∃ r buf, decode data (bytes ++ trailing) heap = .ok r ∧
      r.call = ⟨.success, some ⟨array, buf⟩, trailing⟩

/-- A success that is an array without the buffers is the same array with one. -/
theorem call_of_forget {x : Except Fault (Decoded (Option (BufferedArray α)))} {array : CountedArray α} {rest : List UInt8}
    (h : x.map Decoded.forget = .ok ⟨.success, some array, rest⟩) :
    ∃ r buf, x = .ok r ∧ r.call = ⟨.success, some ⟨array, buf⟩, rest⟩ := by
  cases x with
  | error e => cases h
  | ok r =>
    obtain ⟨⟨result, data, stream⟩, heap⟩ := r
    cases data with
    | none => cases h
    | some a =>
      cases h
      exact ⟨_, a.buf, rfl, rfl⟩

theorem uint32Serialize_eq (v : UInt32) (stream : OutStream) :
    ∃ result stream', uint32Serialize v stream = .ok (result, stream') := by
  obtain ⟨os, hemits, -⟩ := uint64_emits v.toUInt64
  exact ⟨_, _, hemits stream⟩

theorem usable_charArray (ffHashUint8 : UInt32 → List UInt8 → UInt32) {value : List UInt8}
    (hle : value.length ≤ maxCharArrayLength) :
    Usable charArrayCreate charArrayGetLen (charArrayGetHash ffHashUint8) charArraySerialize charArrayDecode ⟨value, 1⟩ where
  created := by
    rw [charArrayCreate, CountedArray.create, ffAssert_of hle]
    rfl
  len := by
    rw [charArrayGetLen, CountedArray.getLen, ffAssert_of Nat.one_pos, ok_bind, ffAssert_of hle]
    rfl
  hash := fun startValue => by
    refine ⟨ffHashUint8 startValue value, ?_⟩
    unfold charArrayGetHash charArrayGetLen CountedArray.getLen CountedArray.getValue
    simp only [ffAssert_of Nat.one_pos, ffAssert_of hle, ok_bind]
  serialized := fun stream => by
    obtain ⟨result, stream₁, h₁⟩ := uint32Serialize_eq (UInt32.ofNat value.length) stream
    unfold charArraySerialize charArrayGetLen CountedArray.incRef CountedArray.getLen CountedArray.getValue
      CountedArray.decRef
    simp only [ffAssert_of (show 1 < 1 + 1 by decide), ffAssert_of (Nat.succ_pos 1), ffAssert_of hle, ok_bind, h₁,
      Nat.add_sub_cancel]
    cases result with
    | failure => exact ⟨_, _, rfl⟩
    | success => exact ⟨_, _, rfl⟩
  decoded := fun stream hs => by
    obtain ⟨bytes, stream', hw, hwrote, hread⟩ := @charArray_roundTrip ⟨value, 1⟩ Nat.one_pos hle stream hs
    refine ⟨bytes, stream', hw, hwrote, fun data trailing heap => call_of_forget ?_⟩
    rw [charArrayDecode_eq, hread]

theorem wcharArrayGetHashLoop_eq : ∀ (value : List UInt32) (buf : List UInt16), (∀ ch ∈ value, ch < 0x10000) →
    ∃ buf', wcharArrayGetHashLoop value buf = .ok buf'
  | [], buf, _ => ⟨buf, rfl⟩
  | ch :: value, buf, h => by
    have hnat := UInt32.lt_iff_toNat_lt.1 (h ch List.mem_cons_self)
    have hch : ch.toInt32 < 0x10000 := by
      rw [Int32.lt_iff_toInt_lt, toInt32_of_lt (Nat.lt_trans hnat (by decide))]
      exact Int.ofNat_lt.2 hnat
    rw [wcharArrayGetHashLoop, ffAssert_of hch, ok_bind]
    exact wcharArrayGetHashLoop_eq value _ fun ch hmem => h ch (List.mem_cons_of_mem _ hmem)

theorem wcharArraySerializeLoop_eq : ∀ (value : List UInt32) (stream : OutStream), (∀ ch ∈ value, ch < 0x10000) →
    ∃ result stream', wcharArraySerializeLoop value stream = .ok (result, stream')
  | [], stream, _ => ⟨_, _, rfl⟩
  | ch :: value, stream, h => by
    obtain ⟨result, stream₁, h₁⟩ := uint32Serialize_eq ch stream
    rw [wcharArraySerializeLoop, ffAssert_of (h ch List.mem_cons_self), ok_bind, h₁, ok_bind]
    cases result with
    | failure => exact ⟨_, _, rfl⟩
    | success => exact wcharArraySerializeLoop_eq value stream₁ fun ch hmem => h ch (List.mem_cons_of_mem _ hmem)

theorem usable_wcharArray (ffHashUint16 : UInt32 → List UInt16 → UInt32) {value : List UInt32}
    (hle : value.length ≤ maxWcharArrayLength) (hlt : ∀ ch ∈ value, ch < 0x10000) :
    Usable wcharArrayCreate wcharArrayGetLen (wcharArrayGetHash ffHashUint16) wcharArraySerialize wcharArrayDecode
      ⟨value, 1⟩ where
  created := by
    rw [wcharArrayCreate, CountedArray.create, ffAssert_of hle]
    rfl
  len := by
    rw [wcharArrayGetLen, CountedArray.getLen, ffAssert_of Nat.one_pos, ok_bind, ffAssert_of hle]
    rfl
  hash := fun startValue => by
    obtain ⟨buf, hbuf⟩ := wcharArrayGetHashLoop_eq value [] hlt
    refine ⟨ffHashUint16 startValue buf, ?_⟩
    unfold wcharArrayGetHash wcharArrayGetLen CountedArray.getLen CountedArray.getValue
    simp only [ffAssert_of Nat.one_pos, ffAssert_of hle, ok_bind, hbuf]
  serialized := fun stream => by
    obtain ⟨result, stream₁, h₁⟩ := uint32Serialize_eq (UInt32.ofNat value.length) stream
    obtain ⟨result₂, stream₂, h₂⟩ := wcharArraySerializeLoop_eq value stream₁ hlt
    unfold wcharArraySerialize wcharArrayGetLen CountedArray.incRef CountedArray.getLen CountedArray.getValue
      CountedArray.decRef
    simp only [ffAssert_of (show 1 < 1 + 1 by decide), ffAssert_of (Nat.succ_pos 1), ffAssert_of hle, ok_bind, h₁,
      Nat.add_sub_cancel]
    cases result with
    | failure => exact ⟨_, _, rfl⟩
    | success => exact ⟨result₂, stream₂, by simp only [h₂, ok_bind]⟩
  decoded := fun stream hs => by
    obtain ⟨bytes, stream', hw, hwrote, hread⟩ := @wcharArray_roundTrip ⟨value, 1⟩ Nat.one_pos hle
      (fun ch hmem => UInt32.lt_iff_toNat_lt.1 (hlt ch hmem)) stream hs
    refine ⟨bytes, stream', hw, hwrote, fun data trailing heap => call_of_forget ?_⟩
    rw [wcharArrayDecode_eq, hread]

/-- **Arrays are decoded exactly, from any octets**, and what was decoded can be hashed, measured and sent back. -/
theorem arrayDecoding_exact (ffHashUint8 : UInt32 → List UInt8 → UInt32) (ffHashUint16 : UInt32 → List UInt16 → UInt32)
    (stream : List UInt8) (heap : Heap) :
    (∀ data, ∃ r, charArrayDecode data stream heap = .ok r ∧
      ExactArrayDecoding Bytes maxCharArrayLength data stream heap r ∧
      ∀ a, r.call.result = .success → r.call.data = some a →
        Usable charArrayCreate charArrayGetLen (charArrayGetHash ffHashUint8) charArraySerialize charArrayDecode a.array) ∧
    ∀ data, ∃ r, wcharArrayDecode data stream heap = .ok r ∧
      ExactArrayDecoding Characters maxWcharArrayLength data stream heap r ∧
      ∀ a, r.call.result = .success → r.call.data = some a →
        Usable wcharArrayCreate wcharArrayGetLen (wcharArrayGetHash ffHashUint16) wcharArraySerialize wcharArrayDecode
          a.array := by
  constructor
  · intro data
    obtain ⟨r, hr, hexact⟩ := readBytes_exact.decode maxCharArrayLength data stream heap
    refine ⟨r, hr, hexact, fun a hsucc ha => ?_⟩
    obtain ⟨value, henc, hdata, -⟩ := hexact.of_success hsucc
    rw [hdata] at ha
    cases ha
    exact usable_charArray ffHashUint8 henc.length_le
  · intro data
    obtain ⟨r, hr, hexact⟩ := readCharacters_exact.decode maxWcharArrayLength data stream heap
    refine ⟨r, hr, hexact, fun a hsucc ha => ?_⟩
    obtain ⟨value, henc, hdata, -⟩ := hexact.of_success hsucc
    obtain ⟨-, behind, -, -, hfollow⟩ := henc.elements
    rw [hdata] at ha
    cases ha
    exact usable_wcharArray ffHashUint16 henc.length_le hfollow.lt

/-- A length, two characters and an octet behind them, into a buffer that becomes the array's own. -/
example : wcharArrayDecode none [2, 0x41, 0xe5, 0x01, 7] ⟨0, []⟩
    = .ok ⟨⟨.success, some ⟨⟨[0x41, 0xe5], 1⟩, 0⟩, [7]⟩, ⟨1, []⟩⟩ := by decide +kernel

end Mrpc
