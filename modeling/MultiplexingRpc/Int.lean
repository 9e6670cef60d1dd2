import MultiplexingRpc.Common
/-!
# Int — the variable-length integers (`mrpc_int.c`)

An unsigned integer travels as octets of seven bits, the low group first, every octet but the last with the
continuation bit.  The decoders read untrusted octets, so each is modelled with everything it touches: the result, the
output variable (which a failure must leave alone) and the octets left in the stream.  A transport failure at some
octet is a stream that ends there.
-/
namespace Mrpc

/-- What a call `mrpc_T_unserialize(&data, stream)` leaves behind: its result, `*data`, and the rest of the stream. -/
structure Unserialized (α : Type) where
  result : FfResult
  data : α
  stream : List UInt8
  deriving DecidableEq, Repr

/-! ## The decoders -/

/-- The `do … while` loop of `mrpc_uint64_unserialize`, from the local `u_data` and `bits_len` on.  The shift count is
below 64 whenever the shift is reached. -/
def uint64UnserializeLoop (uData : UInt64) (bitsLen : Nat) : List UInt8 → Unserialized UInt64
  | [] => ⟨.failure, uData, []⟩
  | octet :: rest =>
    if 64 ≤ bitsLen then ⟨.failure, uData, octet :: rest⟩
    else
      let uData' := uData ||| ((octet &&& 0x7f).toUInt64 <<< UInt64.ofNat bitsLen)
      if octet &&& 0x80 ≠ 0 then uint64UnserializeLoop uData' (bitsLen + 7) rest
      else ⟨.success, uData', rest⟩

/-- `mrpc_uint64_unserialize`. -/
def uint64Unserialize (data : UInt64) (stream : List UInt8) : Unserialized UInt64 :=
  match uint64UnserializeLoop 0 0 stream with
  | ⟨.success, uData, rest⟩ => ⟨.success, uData, rest⟩
  | ⟨.failure, _, rest⟩ => ⟨.failure, data, rest⟩

/-- `mrpc_int64_unserialize`.  The callee's own output variable is a local that starts uninitialised. -/
def int64Unserialize (data : Int64) (stream : List UInt8) : Unserialized Int64 :=
  match uint64Unserialize 0 stream with
  | ⟨.success, uData, rest⟩ => ⟨.success, ((uData >>> 1) ^^^ (0 - (uData &&& 1))).toInt64, rest⟩
  | ⟨.failure, _, rest⟩ => ⟨.failure, data, rest⟩

/-- `mrpc_uint32_unserialize`. -/
def uint32Unserialize (data : UInt32) (stream : List UInt8) : Unserialized UInt32 :=
  match uint64Unserialize 0 stream with
  | ⟨.success, uData, rest⟩ =>
    if uData ≤ 0xffffffff then ⟨.success, uData.toUInt32, rest⟩ else ⟨.failure, data, rest⟩
  | ⟨.failure, _, rest⟩ => ⟨.failure, data, rest⟩

/-- `mrpc_int32_unserialize`. -/
def int32Unserialize (data : Int32) (stream : List UInt8) : Unserialized Int32 :=
  match uint32Unserialize 0 stream with
  | ⟨.success, uData, rest⟩ => ⟨.success, ((uData >>> 1) ^^^ (0 - (uData &&& 1))).toInt32, rest⟩
  | ⟨.failure, _, rest⟩ => ⟨.failure, data, rest⟩

/-! ## One octet -/

/-- The continuation bit. -/
def continues (octet : UInt8) : Bool := decide (128 ≤ octet.toNat)

/-- The number a list of octets spells: the sum of `(oᵢ mod 128) * 2^(7 i)`. -/
def octetSum (os : List UInt8) : Nat := Nat.ofDigits 128 (os.map (fun o => o.toNat % 128))

theorem and_0x80_ne_zero (octet : UInt8) : octet &&& 0x80 ≠ 0 ↔ continues octet = true := by
  revert octet; decide +kernel

theorem toNat_and_0x7f (octet : UInt8) : (octet &&& 0x7f).toNat = octet.toNat % 128 := by
  revert octet; decide +kernel

theorem octetSum_nil : octetSum [] = 0 := rfl

theorem octetSum_cons (o : UInt8) (os : List UInt8) : octetSum (o :: os) = o.toNat % 128 + 128 * octetSum os := by
  simp [octetSum, Nat.ofDigits_cons]

theorem octetSum_append (xs ys : List UInt8) :
    octetSum (xs ++ ys) = octetSum xs + 2 ^ (7 * xs.length) * octetSum ys := by
  unfold octetSum
  rw [List.map_append, Nat.ofDigits_append, List.length_map, Nat.pow_mul]

theorem octetSum_lt (os : List UInt8) : octetSum os < 2 ^ (7 * os.length) := by
  have h := Nat.ofDigits_lt_base_pow_length (b := 128) (l := os.map (fun o => o.toNat % 128)) (by decide)
    (fun x hx => by
      obtain ⟨o, -, rfl⟩ := List.mem_map.1 hx
      exact Nat.mod_lt _ (by decide))
  rwa [List.length_map, show (128 : Nat) = 2 ^ 7 from rfl, ← Nat.pow_mul] at h

/-- **One turn of the loop adds its seven bits**, less what falls off the word. -/
theorem or_shift_toNat (uData : UInt64) (octet : UInt8) (n : Nat) (hn : n < 64) (hu : uData.toNat < 2 ^ n) :
    (uData ||| ((octet &&& 0x7f).toUInt64 <<< UInt64.ofNat n)).toNat
      = uData.toNat + octet.toNat % 128 * 2 ^ n % 2 ^ 64 := by
  have hsplit : octet.toNat % 128 * 2 ^ n % 2 ^ 64 = 2 ^ n * (octet.toNat % 128 % 2 ^ (64 - n)) := by
    rw [Nat.mul_comm, show (2 : Nat) ^ 64 = 2 ^ n * 2 ^ (64 - n) by rw [← Nat.pow_add]; congr 1; omega,
      Nat.mul_mod_mul_left]
  rw [UInt64.toNat_or, UInt64.toNat_shiftLeft, UInt8.toNat_toUInt64, toNat_and_0x7f, UInt64.toNat_ofNat',
    Nat.mod_eq_of_lt (show n < 2 ^ 64 by omega), Nat.mod_eq_of_lt hn, Nat.shiftLeft_eq, hsplit, Nat.or_comm,
    ← Nat.two_pow_add_eq_or_of_lt hu, Nat.add_comm]

/-! ## The loop -/

/-- Octets that form one number: every octet but the last carries the continuation bit. -/
def wellTerminated (os : List UInt8) : Prop :=
  ∃ init last, os = init ++ [last] ∧ (∀ o ∈ init, continues o = true) ∧ continues last = false

theorem wellTerminated_cons {o : UInt8} {os : List UInt8} (ho : continues o = true) (h : wellTerminated os) :
    wellTerminated (o :: os) := by
  obtain ⟨init, last, rfl, hinit, hlast⟩ := h
  refine ⟨o :: init, last, rfl, fun x hx => ?_, hlast⟩
  rcases List.mem_cons.1 hx with rfl | hx
  · exact ho
  · exact hinit x hx

/-- **The loop's outcome**, entered for the `k`-th octet: it takes at most the `10 - k` octets that are left to a
64-bit word, and on success these are one terminated number whose bits are added, modulo the word, at `7 k`. -/
theorem uint64UnserializeLoop_spec : ∀ (stream : List UInt8) (uData : UInt64) (k : Nat), k ≤ 10 →
    uData.toNat < 2 ^ (7 * k) →
    ∃ os, stream = os ++ (uint64UnserializeLoop uData (7 * k) stream).stream ∧ os.length + k ≤ 10 ∧
      ((uint64UnserializeLoop uData (7 * k) stream).result = .success → wellTerminated os ∧
        (uint64UnserializeLoop uData (7 * k) stream).data.toNat
          = (uData.toNat + 2 ^ (7 * k) * octetSum os) % 2 ^ 64)
  | [], uData, k, hk, _ => ⟨[], rfl, by simpa using hk, fun h => by cases h⟩
  | octet :: rest, uData, k, hk, hu => by
    rw [uint64UnserializeLoop]
    by_cases h64 : 64 ≤ 7 * k
    · rw [if_pos h64]
      exact ⟨[], rfl, by simpa using hk, fun h => by cases h⟩
    rw [if_neg h64]
    have hor := or_shift_toNat uData octet (7 * k) (by omega) hu
    generalize uData ||| ((octet &&& 0x7f).toUInt64 <<< UInt64.ofNat (7 * k)) = uData' at hor ⊢
    dsimp only
    by_cases hc : octet &&& 0x80 ≠ 0
    · -- the number goes on: the bits gathered so far still fit below the next group's position
      rw [if_pos hc, show 7 * k + 7 = 7 * (k + 1) by omega]
      have hu' : uData'.toNat < 2 ^ (7 * (k + 1)) := by
        have h1 : octet.toNat % 128 * 2 ^ (7 * k) % 2 ^ 64 ≤ octet.toNat % 128 * 2 ^ (7 * k) := Nat.mod_le _ _
        have h2 : octet.toNat % 128 * 2 ^ (7 * k) ≤ 127 * 2 ^ (7 * k) := Nat.mul_le_mul_right _ (by omega)
        have h3 : 2 ^ (7 * (k + 1)) = 128 * 2 ^ (7 * k) := by
          rw [show 7 * (k + 1) = 7 + 7 * k by omega, Nat.pow_add]
        omega
      obtain ⟨os, hos, hlen, hsucc⟩ := uint64UnserializeLoop_spec rest uData' (k + 1) (by omega) hu'
      refine ⟨octet :: os, by rw [List.cons_append, ← hos], by rw [List.length_cons]; omega, fun h => ?_⟩
      obtain ⟨hwt, hval⟩ := hsucc h
      refine ⟨wellTerminated_cons ((and_0x80_ne_zero octet).1 hc) hwt, ?_⟩
      rw [hval, hor, octetSum_cons, show 7 * (k + 1) = 7 * k + 7 by omega, Nat.pow_add, Nat.mul_add,
        Nat.add_right_comm, Nat.mul_comm (octet.toNat % 128), Nat.add_comm _ (_ % 2 ^ 64), Nat.mod_add_mod]
      congr 1
      ring
    · rw [if_neg hc]
      refine ⟨[octet], rfl, by rw [List.length_singleton]; omega, fun _ => ⟨⟨[], octet, rfl, by simp, ?_⟩, ?_⟩⟩
      · simpa [and_0x80_ne_zero] using hc
      · dsimp only
        have hlt := uData'.toNat_lt
        rw [octetSum_cons, octetSum_nil, Nat.mul_zero, Nat.add_zero, ← Nat.mod_eq_of_lt hlt, hor,
          Nat.add_mod_mod, Nat.mul_comm]

/-- **A terminated number that ends in time is accepted.** -/
theorem uint64UnserializeLoop_success (last : UInt8) (rest : List UInt8) (hlast : continues last = false) :
    ∀ (init : List UInt8) (uData : UInt64) (k : Nat), (∀ o ∈ init, continues o = true) → init.length + k ≤ 9 →
      (uint64UnserializeLoop uData (7 * k) (init ++ last :: rest)).result = .success
  | [], uData, k, _, hk => by
    have hc : ¬ (last &&& 0x80 ≠ 0) := by rw [and_0x80_ne_zero, hlast]; simp
    rw [List.length_nil] at hk
    rw [List.nil_append, uint64UnserializeLoop, if_neg (by omega)]
    dsimp only
    rw [if_neg hc]
  | o :: init, uData, k, hinit, hk => by
    have hc : o &&& 0x80 ≠ 0 := (and_0x80_ne_zero o).2 (hinit o List.mem_cons_self)
    rw [List.length_cons] at hk
    rw [List.cons_append, uint64UnserializeLoop, if_neg (by omega)]
    dsimp only
    rw [if_pos hc, show 7 * k + 7 = 7 * (k + 1) by omega]
    exact uint64UnserializeLoop_success last rest hlast init _ (k + 1)
      (fun x hx => hinit x (List.mem_cons_of_mem _ hx)) (by omega)

/-- **`mrpc_uint64_unserialize`, on every stream**: at most ten octets are read; a success returns the number they
spell modulo the word; a failure leaves the output variable. -/
theorem uint64Unserialize_spec (data : UInt64) (stream : List UInt8) :
    ∃ os, stream = os ++ (uint64Unserialize data stream).stream ∧ os.length ≤ 10 ∧
      ((uint64Unserialize data stream).result = .success → wellTerminated os ∧
        (uint64Unserialize data stream).data.toNat = octetSum os % 2 ^ 64) ∧
      ((uint64Unserialize data stream).result = .failure → (uint64Unserialize data stream).data = data) := by
  obtain ⟨os, hos, hlen, hsucc⟩ := uint64UnserializeLoop_spec stream 0 0 (by decide) (by decide)
  rw [Nat.mul_zero] at hos hsucc
  unfold uint64Unserialize
  generalize uint64UnserializeLoop 0 0 stream = u at hos hsucc
  obtain ⟨result, uData, rest⟩ := u
  cases result with
  | success =>
    obtain ⟨hwt, hval⟩ := hsucc rfl
    exact ⟨os, hos, hlen, fun _ => ⟨hwt, by simpa using hval⟩, fun h => by cases h⟩
  | failure => exact ⟨os, hos, hlen, (fun h => by cases h), fun _ => rfl⟩

/-! ## When a word holds the number -/

/-- The tenth octet ends a number and has bits beyond the first: they do not fit the 64-bit word. -/
def tenthOctetOverflows (stream : List UInt8) : Bool :=
  (stream.take 9).length == 9 && (stream.take 9).all continues &&
    (stream[9]?).any (fun o => !continues o && decide (2 ≤ o.toNat))

theorem tenthOctetOverflows_split {stream : List UInt8} (h : tenthOctetOverflows stream = true) :
    ∃ init last rest, stream = init ++ last :: rest ∧ init.length = 9 ∧ (∀ o ∈ init, continues o = true) ∧
      continues last = false := by
  unfold tenthOctetOverflows at h
  simp only [Bool.and_eq_true, beq_iff_eq, List.all_eq_true, Option.any_eq_true, decide_eq_true_eq,
    Bool.not_eq_true'] at h
  obtain ⟨⟨hlen, hall⟩, last, hget, hlast, -⟩ := h
  obtain ⟨hlt, hget⟩ := List.getElem?_eq_some_iff.1 hget
  refine ⟨stream.take 9, last, stream.drop 10, ?_, hlen, hall, hlast⟩
  rw [← hget, List.cons_getElem_drop_succ, List.take_append_drop]

/-- **A terminated number of at most ten octets fits the word unless its tenth octet overflows.** -/
theorem octetSum_lt_word_iff {os : List UInt8} (rest : List UInt8) (h : wellTerminated os) (hlen : os.length ≤ 10) :
    octetSum os < 2 ^ 64 ↔ tenthOctetOverflows (os ++ rest) = false := by
  obtain ⟨init, last, rfl, hinit, hlast⟩ := h
  rw [List.length_append, List.length_singleton] at hlen
  by_cases h9 : init.length = 9
  · -- ten octets: the first nine hold 63 bits, so the last one has room for one more
    have htake : ((init ++ [last]) ++ rest).take 9 = init := by
      rw [List.append_assoc, ← h9, List.take_left]
    have hget : ((init ++ [last]) ++ rest)[9]? = some last := by
      rw [List.append_assoc, ← h9, List.getElem?_append_right (Nat.le_refl _), Nat.sub_self]
      rfl
    have hall : init.all continues = true := List.all_eq_true.2 hinit
    have hinitlt := octetSum_lt init
    have hlast128 : last.toNat < 128 := by simpa [continues] using hlast
    unfold tenthOctetOverflows
    rw [htake, hget, hall, h9, octetSum_append, octetSum_cons, octetSum_nil, h9, Nat.mod_eq_of_lt hlast128]
    rw [h9] at hinitlt
    simp only [beq_self_eq_true, Bool.and_self, Option.any_some, hlast, Bool.not_false, Bool.true_and,
      decide_eq_false_iff_not, not_le]
    omega
  · have hlt := octetSum_lt (init ++ [last])
    rw [List.length_append, List.length_singleton] at hlt
    have hfit : octetSum (init ++ [last]) < 2 ^ 64 :=
      Nat.lt_of_lt_of_le hlt (Nat.pow_le_pow_right (by decide) (by omega))
    refine ⟨fun _ => ?_, fun _ => hfit⟩
    -- a shorter number ends inside the first nine octets, one of which then lacks the bit
    unfold tenthOctetOverflows
    have hmem : last ∈ ((init ++ [last]) ++ rest).take 9 := by
      rw [List.append_assoc, List.take_append]
      refine List.mem_append_right _ ?_
      rw [show 9 - init.length = (8 - init.length) + 1 by omega]
      simp
    have hall : (((init ++ [last]) ++ rest).take 9).all continues = false := by
      rw [List.all_eq_false]
      exact ⟨last, hmem, by simp [hlast]⟩
    rw [hall]
    simp

/-! ## The signed decoders -/

/-- Zigzag decoding: `0, 1, 2, 3, …` stand for `0, -1, 1, -2, …`. -/
def zigzagDecode (n : Nat) : Int := if n % 2 = 0 then (n / 2 : Nat) else -((n + 1) / 2 : Nat)

/-- **The bit trick of both signed decoders is zigzag decoding**, at every width. -/
theorem zigzag_toInt {w : Nat} (hw : 0 < w) (x : BitVec w) :
    ((x >>> 1) ^^^ (0#w - (x &&& 1#w))).toInt = zigzagDecode x.toNat := by
  have hpow : 2 ^ w = 2 * 2 ^ (w - 1) := by rw [← Nat.pow_succ']; congr 1; omega
  have h1 : (1#w).toNat = 1 := by simp [BitVec.toNat_ofNat]; omega
  have hand : (x &&& 1#w).toNat = x.toNat % 2 := by rw [BitVec.toNat_and, h1, Nat.and_one_is_mod]
  have hx := x.isLt
  have hshift : (x >>> 1).toNat = x.toNat / 2 := by
    rw [BitVec.toNat_ushiftRight, Nat.shiftRight_eq_div_pow, Nat.pow_one]
  unfold zigzagDecode
  by_cases heven : x.toNat % 2 = 0
  · have h0 : x &&& 1#w = 0#w := BitVec.eq_of_toNat_eq (by rw [hand, heven]; simp)
    rw [h0, BitVec.sub_zero, BitVec.xor_zero, if_pos heven, BitVec.toInt_eq_toNat_cond, hshift, if_pos (by omega)]
  · have h0 : x &&& 1#w = 1#w := BitVec.eq_of_toNat_eq (by rw [hand, h1]; omega)
    rw [h0, BitVec.zero_sub, BitVec.neg_one_eq_allOnes, BitVec.xor_allOnes, if_neg heven, BitVec.toInt_eq_toNat_cond,
      BitVec.toNat_not, hshift, if_neg (by omega)]
    omega

theorem toInt32_neg_iff (l : UInt32) : l.toInt32.toInt < 0 ↔ 2 ^ 31 ≤ l.toNat := by
  have hl := l.toNat_lt
  have h : l.toInt32.toInt = l.toBitVec.toInt := rfl
  rw [h, BitVec.toInt_eq_toNat_cond, UInt32.toNat_toBitVec]
  split <;> omega

theorem toInt32_of_lt {l : UInt32} (hl : l.toNat < 2 ^ 31) : l.toInt32.toInt = l.toNat := by
  have h : l.toInt32.toInt = l.toBitVec.toInt := rfl
  rw [h, BitVec.toInt_eq_toNat_cond, UInt32.toNat_toBitVec, if_pos (by omega)]

/-! ## Exactness -/

/-- A decoder is exact at `stream`, on every value of the output variable: it reads at most ten octets; a success read
one terminated number and returned `P` of the number it spells; a failure leaves the variable. -/
def exactAt {α : Type} (unserialize : α → List UInt8 → Unserialized α) (P : α → Nat → Prop)
    (stream : List UInt8) : Prop :=
  ∀ data, ∃ os, stream = os ++ (unserialize data stream).stream ∧ os.length ≤ 10 ∧
    ((unserialize data stream).result = .success →
      wellTerminated os ∧ P (unserialize data stream).data (octetSum os)) ∧
    ((unserialize data stream).result = .failure → (unserialize data stream).data = data)

/-- **Exact integer decoding of a stream**, by all four decoders. -/
structure ExactDecoding (stream : List UInt8) : Prop where
  uint64 : exactAt uint64Unserialize (fun v n => v.toNat = n) stream
  uint32 : exactAt uint32Unserialize (fun v n => n ≤ 2 ^ 32 - 1 ∧ v.toNat = n) stream
  int64 : exactAt int64Unserialize (fun v n => v.toInt = zigzagDecode n) stream
  int32 : exactAt int32Unserialize (fun v n => v.toInt = zigzagDecode n) stream

theorem exactAt_uint64 (stream : List UInt8) (h : tenthOctetOverflows stream = false) :
    exactAt uint64Unserialize (fun v n => v.toNat = n) stream := by
  intro data
  obtain ⟨os, hos, hlen, hsucc, hfail⟩ := uint64Unserialize_spec data stream
  refine ⟨os, hos, hlen, fun hr => ?_, hfail⟩
  obtain ⟨hwt, hval⟩ := hsucc hr
  rw [hos] at h
  exact ⟨hwt, hval.trans (Nat.mod_eq_of_lt ((octetSum_lt_word_iff _ hwt hlen).2 h))⟩

/-- **A decoder built on an exact one is exact**: it rejects, or converts, what the inner one returned. -/
theorem exactAt_of_inner {α β : Type} {inner : α → List UInt8 → Unserialized α}
    {outer : β → List UInt8 → Unserialized β} {P : α → Nat → Prop} {Q : β → Nat → Prop} {stream : List UInt8} (data₀ : α)
    (h : exactAt inner P stream)
    (hout : ∀ d, outer d stream = ⟨.failure, d, (inner data₀ stream).stream⟩ ∨
      (inner data₀ stream).result = .success ∧ ∃ b, outer d stream = ⟨.success, b, (inner data₀ stream).stream⟩ ∧
        ∀ n, P (inner data₀ stream).data n → Q b n) : exactAt outer Q stream := by
  intro d
  obtain ⟨os, hos, hlen, hs, -⟩ := h data₀
  rcases hout d with hd | ⟨hr, b, hd, hQ⟩
  · rw [hd]
    exact ⟨os, hos, hlen, (fun hr => by cases hr), fun _ => rfl⟩
  · rw [hd]
    obtain ⟨hwt, hP⟩ := hs hr
    exact ⟨os, hos, hlen, fun _ => ⟨hwt, hQ _ hP⟩, fun hr => by cases hr⟩

theorem exactAt_uint32 (stream : List UInt8) (h : tenthOctetOverflows stream = false) :
    exactAt uint32Unserialize (fun v n => n ≤ 2 ^ 32 - 1 ∧ v.toNat = n) stream := by
  refine exactAt_of_inner 0 (exactAt_uint64 stream h) (fun d => ?_)
  unfold uint32Unserialize
  generalize uint64Unserialize 0 stream = u
  obtain ⟨result, uData, rest⟩ := u
  cases result with
  | failure => exact Or.inl rfl
  | success =>
    dsimp only
    by_cases hle : uData ≤ 0xffffffff
    · rw [if_pos hle]
      refine Or.inr ⟨rfl, uData.toUInt32, rfl, fun n hn => ?_⟩
      have hle' : uData.toNat ≤ 4294967295 := by simpa [UInt64.le_iff_toNat_le] using hle
      have hmod : uData.toUInt32.toNat = uData.toNat % 2 ^ 32 := UInt64.toNat_toUInt32 uData
      omega
    · rw [if_neg hle]
      exact Or.inl rfl

theorem exactAt_int64 (stream : List UInt8) (h : tenthOctetOverflows stream = false) :
    exactAt int64Unserialize (fun v n => v.toInt = zigzagDecode n) stream := by
  refine exactAt_of_inner 0 (exactAt_uint64 stream h) (fun d => ?_)
  unfold int64Unserialize
  generalize uint64Unserialize 0 stream = u
  obtain ⟨result, uData, rest⟩ := u
  cases result with
  | failure => exact Or.inl rfl
  | success =>
    refine Or.inr ⟨rfl, _, rfl, fun n hn => ?_⟩
    rw [← hn]
    exact zigzag_toInt (w := 64) (by decide) uData.toBitVec

theorem exactAt_int32 (stream : List UInt8) (h : tenthOctetOverflows stream = false) :
    exactAt int32Unserialize (fun v n => v.toInt = zigzagDecode n) stream := by
  refine exactAt_of_inner 0 (exactAt_uint32 stream h) (fun d => ?_)
  unfold int32Unserialize
  generalize uint32Unserialize 0 stream = u
  obtain ⟨result, uData, rest⟩ := u
  cases result with
  | failure => exact Or.inl rfl
  | success =>
    refine Or.inr ⟨rfl, _, rfl, fun n hn => ?_⟩
    rw [← hn.2]
    exact zigzag_toInt (w := 32) (by decide) uData.toBitVec

/-- **Decoding is exact on a stream exactly when its tenth octet does not overflow the word.** -/
theorem exactDecoding_iff (stream : List UInt8) : ExactDecoding stream ↔ tenthOctetOverflows stream = false := by
  constructor
  · intro h
    by_contra ho
    rw [Bool.not_eq_false] at ho
    -- an overflowing number is accepted, and what is returned is below the word's size
    obtain ⟨init, last, rest, hs, hlen9, hinit, hlast⟩ := tenthOctetOverflows_split ho
    have hloop := uint64UnserializeLoop_success last rest hlast init 0 0 hinit (by omega)
    have hr : (uint64Unserialize 0 stream).result = .success := by
      rw [← hs] at hloop
      unfold uint64Unserialize
      generalize uint64UnserializeLoop 0 (7 * 0) stream = u at hloop ⊢
      obtain ⟨result, uData, rest'⟩ := u
      cases hloop
      rfl
    obtain ⟨os, hos, hlen, hsucc, -⟩ := h.uint64 0
    obtain ⟨hwt, hval⟩ := hsucc hr
    have hlt : octetSum os < 2 ^ 64 := hval ▸ (uint64Unserialize 0 stream).data.toNat_lt
    rw [octetSum_lt_word_iff _ hwt hlen, ← hos, ho] at hlt
    cases hlt
  · intro h
    exact ⟨exactAt_uint64 stream h, exactAt_uint32 stream h, exactAt_int64 stream h, exactAt_int32 stream h⟩

/-- Nine continued zeros and a `2` spell `2^64`, which both unsigned decoders accept as `0`. -/
theorem not_exactDecoding_two_pow_64 :
    ¬ ExactDecoding [0x80, 0x80, 0x80, 0x80, 0x80, 0x80, 0x80, 0x80, 0x80, 0x02] := by
  intro h
  obtain ⟨os, hos, -, hsucc, -⟩ := h.uint32 7
  have hu : uint32Unserialize 7 [0x80, 0x80, 0x80, 0x80, 0x80, 0x80, 0x80, 0x80, 0x80, 0x02] = ⟨.success, 0, []⟩ := by
    decide +kernel
  rw [hu, List.append_nil] at hos
  rw [hu] at hsucc
  have hle := (hsucc rfl).2.1
  rw [← hos] at hle
  revert hle
  decide +kernel

end Mrpc
