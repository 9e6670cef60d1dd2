import MultiplexingRpc.Int
/-!
# IntSerialize — the encoders of the integers, and the round trip (`mrpc_int.c`)

The encoders cut a word into groups of seven bits, low group first, and write the octets in one call.  What they write
is one terminated number (`wellTerminated`) that spells the word (`octetSum`); the decoders of `Int` read back exactly
such a number and stop behind it.  No number that a decoder takes for the word is shorter (`shortestEncoding`).
-/
namespace Mrpc

/-! ## The writing side of a stream -/

/-- The writing side of a `struct ff_stream`: the bytes that went out, and how the coming writes end.  A write with no
entry left, or the entry `none`, succeeds; the entry `some n` is a failure after `n` bytes. -/
structure OutStream where
  written : List UInt8
  outcomes : List (Option Nat)
  deriving DecidableEq, Repr

/-- `ff_stream_write`. -/
def ffStreamWrite (stream : OutStream) (buf : List UInt8) : FfResult × OutStream :=
  match stream.outcomes with
  | [] => (.success, { stream with written := stream.written ++ buf })
  | none :: rest => (.success, ⟨stream.written ++ buf, rest⟩)
  | some n :: rest => (.failure, ⟨stream.written ++ buf.take n, rest⟩)

/-- No write fails. -/
def OutStream.Lossless (stream : OutStream) : Prop := ∀ o ∈ stream.outcomes, o = none

/-- `stream'` is `stream` with `bytes` written to it and no failure. -/
structure OutStream.Wrote (stream : OutStream) (bytes : List UInt8) (stream' : OutStream) : Prop where
  written : stream'.written = stream.written ++ bytes
  lossless : stream'.Lossless

theorem ffStreamWrite_lossless {stream : OutStream} (h : stream.Lossless) (buf : List UInt8) :
    ∃ stream', ffStreamWrite stream buf = (.success, stream') ∧ stream.Wrote buf stream' := by
  obtain ⟨written, outcomes⟩ := stream
  cases outcomes with
  | nil => exact ⟨_, rfl, rfl, h⟩
  | cons o rest =>
    have ho : o = none := h o List.mem_cons_self
    subst ho
    exact ⟨_, rfl, rfl, fun x hx => h x (List.mem_cons_of_mem _ hx)⟩

theorem OutStream.Wrote.append {s₁ s₂ s₃ : OutStream} {xs ys : List UInt8} (h₁ : s₁.Wrote xs s₂) (h₂ : s₂.Wrote ys s₃) :
    s₁.Wrote (xs ++ ys) s₃ :=
  ⟨by rw [h₂.written, h₁.written, List.append_assoc], h₂.lossless⟩

theorem OutStream.Wrote.nil {s : OutStream} (h : s.Lossless) : s.Wrote [] s := ⟨(List.append_nil _).symm, h⟩

/-! ## The encoders -/

/-- The `do … while` loop of `mrpc_uint64_serialize`: `room` octets of `buf` are free, so the assertion on `len` fails
exactly when there is none. -/
def uint64SerializeLoop : Nat → UInt64 → List UInt8 → Except Fault (List UInt8)
  | 0, _, _ => .error .assertion
  | room + 1, data, buf =>
    let octet := (data &&& 0x7f).toUInt8
    let data := data >>> 7
    let octet := octet ||| (if data ≠ 0 then 0x80 else 0)
    if data ≠ 0 then uint64SerializeLoop room data (buf ++ [octet]) else .ok (buf ++ [octet])

/-- `mrpc_uint64_serialize`; `MAX_UINT64_OCTETS` is ten. -/
def uint64Serialize (data : UInt64) (stream : OutStream) : Except Fault (FfResult × OutStream) := do
  let buf ← uint64SerializeLoop 10 data []
  .ok (ffStreamWrite stream buf)

/-- `mrpc_uint32_serialize`. -/
def uint32Serialize (data : UInt32) (stream : OutStream) : Except Fault (FfResult × OutStream) :=
  uint64Serialize data.toUInt64 stream

/-- `mrpc_int64_serialize`: the shift to the right is arithmetic. -/
def int64Serialize (data : Int64) (stream : OutStream) : Except Fault (FfResult × OutStream) :=
  uint64Serialize ((data <<< 1) ^^^ (data >>> 63)).toUInt64 stream

/-- `mrpc_int32_serialize`. -/
def int32Serialize (data : Int32) (stream : OutStream) : Except Fault (FfResult × OutStream) :=
  uint32Serialize ((data <<< 1) ^^^ (data >>> 31)).toUInt32 stream

/-! ## What an encoder writes -/

/-- The octet of a turn: seven bits of the word, and the continuation bit. -/
theorem toNat_octet (data : UInt64) (more : Prop) [Decidable more] :
    (((data &&& 0x7f).toUInt8 ||| (if more then 0x80 else 0) : UInt8)).toNat
      = data.toNat % 128 + if more then 128 else 0 := by
  have h : (data &&& 0x7f).toUInt8.toNat = data.toNat % 128 := by
    rw [UInt64.toNat_toUInt8, UInt64.toNat_and]
    have h127 : (0x7f : UInt64).toNat = 2 ^ 7 - 1 := rfl
    rw [h127, Nat.and_two_pow_sub_one_eq_mod]
    omega
  have hlt : data.toNat % 128 < 2 ^ 7 := Nat.mod_lt _ (by decide)
  rw [UInt8.toNat_or, h]
  split
  · have h128 : (0x80 : UInt8).toNat = 2 ^ 7 := rfl
    rw [h128, Nat.or_comm, ← Nat.mul_one (2 ^ 7), ← Nat.two_pow_add_eq_or_of_lt hlt]
    omega
  · simp

theorem toNat_shiftRight_seven (data : UInt64) : (data >>> 7).toNat = data.toNat / 128 := by
  rw [UInt64.toNat_shiftRight]
  simp [Nat.shiftRight_eq_div_pow]

/-- **The loop writes one terminated number that spells the word**, in no more octets than its bits need. -/
theorem uint64SerializeLoop_spec : ∀ (room k : Nat) (data : UInt64) (buf : List UInt8), 0 < k → k ≤ room →
    data.toNat < 2 ^ (7 * k) →
    ∃ os, uint64SerializeLoop room data buf = .ok (buf ++ os) ∧ wellTerminated os ∧ octetSum os = data.toNat ∧
      os.length ≤ k
  | 0, k, _, _, hk, hle, _ => absurd hle (by omega)
  | room + 1, k, data, buf, hk, hle, hlt => by
    have hshift := toNat_shiftRight_seven data
    have hoctet := toNat_octet data (data >>> 7 ≠ 0)
    rw [uint64SerializeLoop]
    generalize ((data &&& 0x7f).toUInt8 ||| (if data >>> 7 ≠ 0 then 0x80 else 0) : UInt8) = octet at hoctet ⊢
    generalize data >>> 7 = data' at hshift hoctet ⊢
    by_cases hmore : data' ≠ 0
    · -- bits are left, so the number is not over and `k` groups are at least two
      rw [if_pos hmore]
      rw [if_pos hmore] at hoctet
      have hpos : 0 < data'.toNat := Nat.pos_of_ne_zero (fun h0 => hmore (UInt64.toNat_inj.1 h0))
      have hk1 : 0 < k - 1 := by
        rcases Nat.eq_or_lt_of_le hk with h1 | h1
        · rw [← h1] at hlt
          simp at hlt
          omega
        · omega
      have hlt' : data'.toNat < 2 ^ (7 * (k - 1)) := by
        rw [hshift]
        apply Nat.div_lt_of_lt_mul
        rw [show (128 : Nat) = 2 ^ 7 from rfl, ← Nat.pow_add]
        rwa [show 7 + 7 * (k - 1) = 7 * k by omega]
      obtain ⟨os, hrun, hwt, hsum, hlen⟩ :=
        uint64SerializeLoop_spec room (k - 1) data' (buf ++ [octet]) hk1 (by omega) hlt'
      refine ⟨octet :: os, ?_, wellTerminated_cons (by simp [continues]; omega) hwt, ?_, ?_⟩
      · rw [hrun, List.append_assoc]
        rfl
      · rw [octetSum_cons, hsum, hshift, hoctet]
        omega
      · rw [List.length_cons]
        omega
    · rw [if_neg hmore]
      rw [if_neg hmore] at hoctet
      have h0 : data'.toNat = 0 := by
        rw [not_not.1 hmore]
        rfl
      refine ⟨[octet], rfl, ⟨[], octet, rfl, by simp, by simp [continues]; omega⟩, ?_, hk⟩
      rw [octetSum_cons, octetSum_nil, hoctet]
      omega

/-- **A word of `7 k` bits goes out as at most `k` octets.** -/
theorem uint64Serialize_spec (data : UInt64) {k : Nat} (hk : 0 < k) (hlt : data.toNat < 2 ^ (7 * k)) (stream : OutStream) :
    ∃ os, uint64Serialize data stream = .ok (ffStreamWrite stream os) ∧ wellTerminated os ∧
      octetSum os = data.toNat ∧ os.length ≤ 10 ∧ os.length ≤ k := by
  have h10 : data.toNat < 2 ^ (7 * min k 10) := by
    rcases Nat.le_total k 10 with h | h
    · rwa [Nat.min_eq_left h]
    · rw [Nat.min_eq_right h]
      exact Nat.lt_of_lt_of_le data.toNat_lt (by decide)
  obtain ⟨os, hrun, hwt, hsum, hlen⟩ := uint64SerializeLoop_spec 10 (min k 10) data [] (by omega) (by omega) h10
  refine ⟨os, ?_, hwt, hsum, by omega, by omega⟩
  rw [uint64Serialize, hrun]
  rfl

/-! ## What a decoder reads back -/

/-- **A number ends at its first octet without the continuation bit.** -/
theorem wellTerminated_append_inj {xs ys r r' : List UInt8} (hx : wellTerminated xs) (hy : wellTerminated ys)
    (h : xs ++ r = ys ++ r') : xs = ys ∧ r = r' := by
  obtain ⟨init, last, rfl, hinit, hlast⟩ := hx
  obtain ⟨init', last', rfl, hinit', hlast'⟩ := hy
  induction init generalizing init' with
  | nil =>
    cases init' with
    | nil => simpa using h
    | cons o init' =>
      have ho := hinit' o List.mem_cons_self
      simp only [List.nil_append, List.cons_append, List.cons.injEq] at h
      rw [← h.1, hlast] at ho
      cases ho
  | cons o init ih =>
    cases init' with
    | nil =>
      have ho := hinit o List.mem_cons_self
      simp only [List.nil_append, List.cons_append, List.cons.injEq] at h
      rw [h.1, hlast'] at ho
      cases ho
    | cons o' init' =>
      simp only [List.cons_append, List.cons.injEq] at h
      obtain ⟨h1, h2⟩ := ih (fun x hx => hinit x (List.mem_cons_of_mem _ hx)) init' h.2
        (fun x hx => hinit' x (List.mem_cons_of_mem _ hx))
      rw [h.1, List.cons_append, h1, h2]
      exact ⟨rfl, rfl⟩

/-- **A terminated number of at most ten octets is read whole, and nothing behind it.** -/
theorem uint64Unserialize_append {os : List UInt8} (hwt : wellTerminated os) (hlen : os.length ≤ 10) (data : UInt64)
    (rest : List UInt8) :
    uint64Unserialize data (os ++ rest) = ⟨.success, UInt64.ofNat (octetSum os), rest⟩ := by
  have hr : (uint64Unserialize data (os ++ rest)).result = .success := by
    obtain ⟨init, last, rfl, hinit, hlast⟩ := hwt
    rw [List.length_append, List.length_singleton] at hlen
    have hloop := uint64UnserializeLoop_success last rest hlast init 0 0 hinit (by omega)
    rw [List.append_assoc, List.singleton_append]
    unfold uint64Unserialize
    generalize uint64UnserializeLoop 0 (7 * 0) (init ++ last :: rest) = u at hloop ⊢
    obtain ⟨result, uData, rest'⟩ := u
    cases hloop
    rfl
  obtain ⟨os', hos', -, hsucc, -⟩ := uint64Unserialize_spec data (os ++ rest)
  obtain ⟨hwt', hval⟩ := hsucc hr
  obtain ⟨rfl, hrest⟩ := wellTerminated_append_inj hwt hwt' hos'
  generalize uint64Unserialize data (os ++ rest) = u at hr hval hrest ⊢
  obtain ⟨result, uData, rest'⟩ := u
  dsimp only at hr hval hrest
  rw [hr, ← hrest]
  congr 1
  apply UInt64.toNat_inj.1
  rw [hval, UInt64.toNat_ofNat']

/-- **What an encoder writes, its decoder reads back**: on a stream without failures the encoder succeeds, and the
decoder returns the value from what was written and stops behind it. -/
def RoundTrips {α : Type} (serialize : α → OutStream → Except Fault (FfResult × OutStream))
    (unserialize : α → List UInt8 → Unserialized α) (v : α) : Prop :=
  ∀ stream : OutStream, stream.Lossless → ∃ bytes stream', serialize v stream = .ok (.success, stream') ∧
    stream.Wrote bytes stream' ∧ ∀ data trailing, unserialize data (bytes ++ trailing) = ⟨.success, v, trailing⟩

/-- **The unsigned round trip**, with the number of octets. -/
theorem uint64_roundTrip (v : UInt64) {k : Nat} (hk : 0 < k) (hlt : v.toNat < 2 ^ (7 * k)) {stream : OutStream}
    (hs : stream.Lossless) :
    ∃ bytes stream', uint64Serialize v stream = .ok (.success, stream') ∧ stream.Wrote bytes stream' ∧
      bytes.length ≤ k ∧ ∀ data trailing, uint64Unserialize data (bytes ++ trailing) = ⟨.success, v, trailing⟩ := by
  obtain ⟨os, hrun, hwt, hsum, h10, hlen⟩ := uint64Serialize_spec v hk hlt stream
  obtain ⟨stream', hw, hwrote⟩ := ffStreamWrite_lossless hs os
  refine ⟨os, stream', by rw [hrun, hw], hwrote, hlen, fun data trailing => ?_⟩
  rw [uint64Unserialize_append hwt h10, hsum, UInt64.ofNat_toNat]

theorem uint64_roundTrips (v : UInt64) : RoundTrips uint64Serialize uint64Unserialize v := by
  intro stream hs
  obtain ⟨bytes, stream', hrun, hwrote, -, hread⟩ :=
    uint64_roundTrip v (k := 10) (by decide) (Nat.lt_of_lt_of_le v.toNat_lt (by decide)) hs
  exact ⟨bytes, stream', hrun, hwrote, hread⟩

theorem uint32_roundTrip (v : UInt32) {k : Nat} (hk : 0 < k) (hlt : v.toNat < 2 ^ (7 * k)) {stream : OutStream}
    (hs : stream.Lossless) :
    ∃ bytes stream', uint32Serialize v stream = .ok (.success, stream') ∧ stream.Wrote bytes stream' ∧
      bytes.length ≤ k ∧ ∀ data trailing, uint32Unserialize data (bytes ++ trailing) = ⟨.success, v, trailing⟩ := by
  have hnat : v.toUInt64.toNat = v.toNat := UInt32.toNat_toUInt64 v
  obtain ⟨bytes, stream', hrun, hwrote, hlen, hread⟩ := uint64_roundTrip v.toUInt64 hk (by rwa [hnat]) hs
  refine ⟨bytes, stream', hrun, hwrote, hlen, fun data trailing => ?_⟩
  have hle : v.toUInt64 ≤ 0xffffffff := by
    rw [UInt64.le_iff_toNat_le, hnat]
    exact Nat.le_of_lt_succ v.toNat_lt
  rw [uint32Unserialize, hread]
  dsimp only
  rw [if_pos hle, UInt32.toUInt32_toUInt64]

theorem uint32_roundTrips (v : UInt32) : RoundTrips uint32Serialize uint32Unserialize v := by
  intro stream hs
  obtain ⟨bytes, stream', hrun, hwrote, -, hread⟩ :=
    uint32_roundTrip v (k := 5) (by decide) (Nat.lt_of_lt_of_le v.toNat_lt (by decide)) hs
  exact ⟨bytes, stream', hrun, hwrote, hread⟩

/-! ## Zigzag -/

/-- Zigzag encoding: `0, -1, 1, -2, …` become `0, 1, 2, 3, …`. -/
def zigzagEncode (i : Int) : Nat := if 0 ≤ i then (2 * i).toNat else (-2 * i - 1).toNat

theorem zigzagDecode_encode (i : Int) : zigzagDecode (zigzagEncode i) = i := by
  unfold zigzagDecode zigzagEncode
  split <;> split <;> omega

/-- **The bit trick of both signed encoders is zigzag encoding**, at every width. -/
theorem zigzag_toNat {w : Nat} (hw : 0 < w) (x : BitVec w) :
    ((x <<< 1) ^^^ (x.sshiftRight (w - 1))).toNat = zigzagEncode x.toInt := by
  have hpow : 2 ^ w = 2 * 2 ^ (w - 1) := by rw [← Nat.pow_succ']; congr 1; omega
  have hx := x.isLt
  have hshift : (x <<< 1).toNat = 2 * x.toNat % 2 ^ w := by
    rw [BitVec.toNat_shiftLeft, Nat.shiftLeft_eq, Nat.pow_one, Nat.mul_comm]
  unfold zigzagEncode
  rw [BitVec.toInt_eq_toNat_cond]
  by_cases hsmall : 2 * x.toNat < 2 ^ w
  · -- no sign bit: the mask is zero
    have hmask : x.sshiftRight (w - 1) = 0#w := by
      rw [BitVec.sshiftRight_eq_of_msb_false (BitVec.msb_eq_false_iff_two_mul_lt.2 hsmall)]
      apply BitVec.eq_of_toNat_eq
      rw [BitVec.toNat_ushiftRight, Nat.shiftRight_eq_div_pow, Nat.div_eq_of_lt (by omega)]
      simp
    rw [hmask, BitVec.xor_zero, hshift, Nat.mod_eq_of_lt hsmall, if_pos hsmall, if_pos (by omega)]
    omega
  · have hmask : x.sshiftRight (w - 1) = BitVec.allOnes w := by
      rw [BitVec.sshiftRight_eq_of_msb_true (BitVec.msb_eq_true_iff_two_mul_ge.2 (by omega))]
      have h0 : (~~~x) >>> (w - 1) = 0#w := by
        apply BitVec.eq_of_toNat_eq
        rw [BitVec.toNat_ushiftRight, BitVec.toNat_not, Nat.shiftRight_eq_div_pow, Nat.div_eq_of_lt (by omega)]
        simp
      rw [h0, BitVec.not_zero]
    have hmod : 2 * x.toNat % 2 ^ w = 2 * x.toNat - 2 ^ w := by
      rw [Nat.mod_eq_sub_mod (by omega), Nat.mod_eq_of_lt (by omega)]
    rw [hmask, BitVec.xor_allOnes, BitVec.toNat_not, hshift, hmod, if_neg hsmall, if_neg (by omega)]
    omega

theorem toNat_int64Zigzag (v : Int64) : ((v <<< 1) ^^^ (v >>> 63)).toUInt64.toNat = zigzagEncode v.toInt :=
  zigzag_toNat (w := 64) (by decide) v.toBitVec

theorem toNat_int32Zigzag (v : Int32) : ((v <<< 1) ^^^ (v >>> 31)).toUInt32.toNat = zigzagEncode v.toInt :=
  zigzag_toNat (w := 32) (by decide) v.toBitVec

theorem int64_roundTrips (v : Int64) : RoundTrips int64Serialize int64Unserialize v := by
  intro stream hs
  obtain ⟨bytes, stream', hrun, hwrote, hread⟩ :=
    uint64_roundTrips ((v <<< 1) ^^^ (v >>> 63)).toUInt64 stream hs
  refine ⟨bytes, stream', hrun, hwrote, fun data trailing => ?_⟩
  rw [int64Unserialize, hread]
  dsimp only
  congr 1
  apply Int64.toInt_inj.1
  have hdec := zigzag_toInt (w := 64) (by decide) ((v <<< 1) ^^^ (v >>> 63)).toUInt64.toBitVec
  rw [UInt64.toNat_toBitVec, toNat_int64Zigzag, zigzagDecode_encode] at hdec
  exact hdec

theorem int32_roundTrips (v : Int32) : RoundTrips int32Serialize int32Unserialize v := by
  intro stream hs
  obtain ⟨bytes, stream', hrun, hwrote, hread⟩ :=
    uint32_roundTrips ((v <<< 1) ^^^ (v >>> 31)).toUInt32 stream hs
  refine ⟨bytes, stream', hrun, hwrote, fun data trailing => ?_⟩
  rw [int32Unserialize, hread]
  dsimp only
  congr 1
  apply Int32.toInt_inj.1
  have hdec := zigzag_toInt (w := 32) (by decide) ((v <<< 1) ^^^ (v >>> 31)).toUInt32.toBitVec
  rw [UInt32.toNat_toBitVec, toNat_int32Zigzag, zigzagDecode_encode] at hdec
  exact hdec

/-! ## The length of an encoding -/

/-- The octets that an encoder makes of a value: it hands them to the stream in one write. -/
def Emits {α : Type} (serialize : α → OutStream → Except Fault (FfResult × OutStream)) (v : α) (os : List UInt8) : Prop :=
  ∀ stream, serialize v stream = .ok (ffStreamWrite stream os)

theorem eq_of_ffStreamWrite {os os' : List UInt8}
    (h : Except.ok (ε := Fault) (ffStreamWrite ⟨[], []⟩ os) = .ok (ffStreamWrite ⟨[], []⟩ os')) : os = os' := by
  simpa [ffStreamWrite] using h

theorem wellTerminated.pos {os : List UInt8} (h : wellTerminated os) : 0 < os.length := by
  obtain ⟨init, last, rfl, -, -⟩ := h
  simp

/-- **Every word is emitted as one terminated number**, in no more octets than its bits need. -/
theorem uint64_emits (x : UInt64) :
    ∃ os, Emits uint64Serialize x os ∧ wellTerminated os ∧ os.length ≤ 10 ∧
      ∀ k, 0 < k → (os.length ≤ k ↔ x.toNat < 2 ^ (7 * k)) := by
  obtain ⟨os, hrun, hwt, hsum, hlen⟩ := uint64SerializeLoop_spec 10 10 x [] (by decide) (Nat.le_refl 10)
    (Nat.lt_of_lt_of_le x.toNat_lt (by decide))
  have hemits : Emits uint64Serialize x os := fun stream => by
    rw [uint64Serialize, hrun]
    rfl
  refine ⟨os, hemits, hwt, hlen, fun k hk => ⟨fun hle => ?_, fun hlt => ?_⟩⟩
  · rw [← hsum]
    exact Nat.lt_of_lt_of_le (octetSum_lt os) (Nat.pow_le_pow_right (by decide) (by omega))
  · obtain ⟨os', hrun', -, -, -, hlen'⟩ := uint64Serialize_spec x hk hlt ⟨[], []⟩
    rw [hemits] at hrun'
    rwa [eq_of_ffStreamWrite hrun']

theorem Emits.spec {x : UInt64} {os : List UInt8} (h : Emits uint64Serialize x os) :
    wellTerminated os ∧ os.length ≤ 10 ∧ ∀ k, 0 < k → (os.length ≤ k ↔ x.toNat < 2 ^ (7 * k)) := by
  obtain ⟨os', h', hspec⟩ := uint64_emits x
  rwa [eq_of_ffStreamWrite ((h _).symm.trans (h' _))]

/-- **A larger word is emitted in no fewer octets.** -/
theorem Emits.length_le {x y : UInt64} {os os' : List UInt8} (h : Emits uint64Serialize x os)
    (h' : Emits uint64Serialize y os') (hle : x.toNat ≤ y.toNat) : os.length ≤ os'.length := by
  obtain ⟨-, -, hlen⟩ := h.spec
  obtain ⟨hwt', -, hlen'⟩ := h'.spec
  rw [hlen _ hwt'.pos]
  exact Nat.lt_of_le_of_lt hle ((hlen' _ hwt'.pos).1 (Nat.le_refl _))

theorem zigzagEncode_eq_max (i : Int) : (zigzagEncode i : Int) = max (2 * i) (-2 * i - 1) := by
  unfold zigzagEncode
  split <;> omega

/-- **A signed encoder that emits the zigzag of its value as a word** emits no fewer octets for a larger zigzag. -/
theorem length_le_of_zigzag {α : Type} {serialize : α → OutStream → Except Fault (FfResult × OutStream)} (word : α → UInt64)
    (toInt : α → Int) (hserialize : ∀ v, serialize v = uint64Serialize (word v))
    (hword : ∀ v, (word v).toNat = zigzagEncode (toInt v)) {v w : α} {os os' : List UInt8} (h : Emits serialize v os)
    (h' : Emits serialize w os')
    (hle : max (2 * toInt v) (-2 * toInt v - 1) ≤ max (2 * toInt w) (-2 * toInt w - 1)) : os.length ≤ os'.length := by
  have hv : Emits uint64Serialize (word v) os := fun stream => by rw [← hserialize]; exact h stream
  have hw : Emits uint64Serialize (word w) os' := fun stream => by rw [← hserialize]; exact h' stream
  refine hv.length_le hw ?_
  rw [hword, hword]
  rw [← zigzagEncode_eq_max, ← zigzagEncode_eq_max] at hle
  omega

/-- **The integer encodings are shortest.** -/
structure ShortestEncoding : Prop where
  uint64 : ∀ x, ∃ os, Emits uint64Serialize x os ∧ 1 ≤ os.length ∧ os.length ≤ 10 ∧ wellTerminated os ∧
    (x.toNat < 2 ^ 14 → os.length ≤ 2) ∧
    ∀ data bs, uint64Unserialize data bs = ⟨.success, x, []⟩ → os.length ≤ bs.length
  uint64_mono : ∀ x y os os', Emits uint64Serialize x os → Emits uint64Serialize y os' → x ≤ y → os.length ≤ os'.length
  int64 : ∀ v, ∃ os, Emits int64Serialize v os
  int64_mono : ∀ v w os os', Emits int64Serialize v os → Emits int64Serialize w os' →
    max (2 * v.toInt) (-2 * v.toInt - 1) ≤ max (2 * w.toInt) (-2 * w.toInt - 1) → os.length ≤ os'.length
  int32 : ∀ v, ∃ os, Emits int32Serialize v os
  int32_mono : ∀ v w os os', Emits int32Serialize v os → Emits int32Serialize w os' →
    max (2 * v.toInt) (-2 * v.toInt - 1) ≤ max (2 * w.toInt) (-2 * w.toInt - 1) → os.length ≤ os'.length

/-- **What is accepted in full as a word spells it in as many octets as its bits need at least.** -/
theorem lt_of_uint64Unserialize {x data : UInt64} {bs : List UInt8} (h : uint64Unserialize data bs = ⟨.success, x, []⟩) :
    0 < bs.length ∧ x.toNat < 2 ^ (7 * bs.length) := by
  obtain ⟨os, hos, -, hsucc, -⟩ := uint64Unserialize_spec data bs
  rw [h] at hos hsucc
  obtain ⟨hwt, hval⟩ := hsucc rfl
  rw [List.append_nil] at hos
  subst hos
  refine ⟨hwt.pos, ?_⟩
  rw [hval]
  exact Nat.lt_of_le_of_lt (Nat.mod_le _ _) (octetSum_lt bs)

theorem shortestEncoding : ShortestEncoding where
  uint64 := fun x => by
    obtain ⟨os, hemits, hwt, h10, hlen⟩ := uint64_emits x
    refine ⟨os, hemits, hwt.pos, h10, hwt, (hlen 2 (by decide)).2, fun data bs h => ?_⟩
    obtain ⟨hpos, hlt⟩ := lt_of_uint64Unserialize h
    exact (hlen bs.length hpos).2 hlt
  uint64_mono := fun x y os os' h h' hle => h.length_le h' (UInt64.le_iff_toNat_le.1 hle)
  int64 := fun v => (uint64_emits ((v <<< 1) ^^^ (v >>> 63)).toUInt64).imp fun os h => h.1
  int64_mono := fun v w os os' h h' hle =>
    length_le_of_zigzag (fun v : Int64 => ((v <<< 1) ^^^ (v >>> 63)).toUInt64) Int64.toInt (fun _ => rfl)
      toNat_int64Zigzag h h' hle
  int32 := fun v => (uint64_emits ((v <<< 1) ^^^ (v >>> 31)).toUInt32.toUInt64).imp fun os h => h.1
  int32_mono := fun v w os os' h h' hle =>
    length_le_of_zigzag (fun v : Int32 => ((v <<< 1) ^^^ (v >>> 31)).toUInt32.toUInt64) Int32.toInt (fun _ => rfl)
      (fun v => (UInt32.toNat_toUInt64 _).trans (toNat_int32Zigzag v)) h h' hle

end Mrpc
