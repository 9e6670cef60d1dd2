import MultiplexingRpc.Common
import MultiplexingRpc.Lib.Run
/-!
# Bitmap — the allocator of small numbers (`mrpc_bitmap.c`)

The bits lie in words of 64; the search for a free one begins where the last one was found and goes around once.
`Holds` is what the words say; the padding of the last word is never touched.  The bits are natural numbers here: an
`int` holds every one that is computed as long as it holds the size and 63 more.

`Users` is a bitmap with the ids its users got and have yet to release (`allocates_of_exec`).
-/
namespace Mrpc

/-- `struct mrpc_bitmap`. -/
structure Bitmap where
  map : List UInt64
  size : Nat
  lastFreeBit : Nat
  deriving DecidableEq, Repr

namespace Bitmap

/-- `GET_BIT_U64`. -/
def getBitU64 (u64 : UInt64) (bitNum : Nat) : UInt64 := (u64 >>> UInt64.ofNat bitNum) &&& 1

/-- `SET_BIT_U64`. -/
def setBitU64 (u64 : UInt64) (bitNum : Nat) : UInt64 := u64 ||| (1 <<< UInt64.ofNat bitNum)

/-- `CLEAR_BIT_U64`. -/
def clearBitU64 (u64 : UInt64) (bitNum : Nat) : UInt64 := u64 &&& ~~~(1 <<< UInt64.ofNat bitNum)

/-- `U64_ARRAY_INDEX`. -/
def u64ArrayIndex (bitNum : Nat) : Nat := bitNum >>> 6

/-- `U64_BIT_NUM`. -/
def u64BitNum (bitNum : Nat) : Nat := bitNum &&& 0x3f

/-- `GET_U64_ARRAY_SIZE`. -/
def getU64ArraySize (bitsSize : Nat) : Nat := (bitsSize + 0x3f) >>> 6

/-- The word of a bit; none beyond the array's end. -/
def word (map : List UInt64) (bitNum : Nat) : Except Fault UInt64 :=
  match map[u64ArrayIndex bitNum]? with
  | some u64 => .ok u64
  | none => .error .outOfRange

/-- `GET_BIT`. -/
def getBit (map : List UInt64) (bitNum : Nat) : Except Fault UInt64 := do
  let u64 ← word map bitNum
  .ok (getBitU64 u64 (u64BitNum bitNum))

/-- `SET_BIT`. -/
def setBit (map : List UInt64) (bitNum : Nat) : Except Fault (List UInt64) := do
  let u64 ← word map bitNum
  .ok (map.set (u64ArrayIndex bitNum) (setBitU64 u64 (u64BitNum bitNum)))

/-- `CLEAR_BIT`. -/
def clearBit (map : List UInt64) (bitNum : Nat) : Except Fault (List UInt64) := do
  let u64 ← word map bitNum
  .ok (map.set (u64ArrayIndex bitNum) (clearBitU64 u64 (u64BitNum bitNum)))

/-- `mrpc_bitmap_create`. -/
def create (size : Nat) : Except Fault Bitmap := do
  ffAssert (0 < size)
  .ok ⟨List.replicate (getU64ArraySize size) 0, size, 0⟩

/-- The loop of `mrpc_bitmap_acquire_bit`, with `n` the next bit to look at and so many turns to go. -/
def acquireLoop (b : Bitmap) : Nat → Nat → Except Fault (Int × Bitmap)
  | 0, _ => .ok (-1, b)
  | turns + 1, n => do
    if (← getBit b.map n) = 0 then
      let map ← setBit b.map n
      .ok (n, { b with map := map, lastFreeBit := n })
    else acquireLoop b turns (if n + 1 = b.size then 0 else n + 1)

/-- `mrpc_bitmap_acquire_bit`. -/
def acquireBit (b : Bitmap) : Except Fault (Int × Bitmap) := do
  ffAssert (0 < b.size)
  ffAssert (b.lastFreeBit < b.size)
  acquireLoop b b.size b.lastFreeBit

/-- `mrpc_bitmap_release_bit`. -/
def releaseBit (b : Bitmap) (n : Nat) : Except Fault Bitmap := do
  ffAssert (0 < b.size)
  ffAssert (n < b.size)
  ffAssert ((← getBit b.map n) = 1)
  let map ← clearBit b.map n
  .ok { b with map := map }

/-! ## One word -/

theorem u64ArrayIndex_eq (n : Nat) : u64ArrayIndex n = n / 64 := Nat.shiftRight_eq_div_pow n 6

theorem u64BitNum_eq (n : Nat) : u64BitNum n = n % 64 := Nat.and_two_pow_sub_one_eq_mod n 6

theorem getU64ArraySize_eq (n : Nat) : getU64ArraySize n = (n + 63) / 64 := Nat.shiftRight_eq_div_pow (n + 63) 6

/-- Bit `i` of a word. -/
def bitAt (u64 : UInt64) (i : Nat) : Bool := u64.toNat.testBit i

variable {i k : Nat}

theorem toNat_ofNat_mod (hk : k < 64) : (UInt64.ofNat k).toNat % 64 = k := by
  rw [UInt64.toNat_ofNat', Nat.mod_eq_of_lt (Nat.lt_trans hk (by decide)), Nat.mod_eq_of_lt hk]

theorem toNat_one_shiftLeft (hk : k < 64) : ((1 : UInt64) <<< UInt64.ofNat k).toNat = 2 ^ k := by
  rw [UInt64.toNat_shiftLeft, toNat_ofNat_mod hk, UInt64.toNat_one, Nat.one_shiftLeft,
    Nat.mod_eq_of_lt (Nat.pow_lt_pow_right (by decide) hk)]

theorem bitAt_setBitU64 (u64 : UInt64) (hk : k < 64) (i : Nat) :
    bitAt (setBitU64 u64 k) i = (bitAt u64 i || decide (k = i)) := by
  rw [bitAt, setBitU64, UInt64.toNat_or, toNat_one_shiftLeft hk, Nat.testBit_or, Nat.testBit_two_pow]
  rfl

theorem bitAt_clearBitU64 (u64 : UInt64) (hk : k < 64) (hi : i < 64) :
    bitAt (clearBitU64 u64 k) i = (bitAt u64 i && !decide (k = i)) := by
  have hnot : (~~~((1 : UInt64) <<< UInt64.ofNat k)).toNat = 2 ^ 64 - (2 ^ k + 1) := by
    rw [UInt64.toNat_not, toNat_one_shiftLeft hk, Nat.sub_sub, Nat.add_comm 1]
    rfl
  rw [bitAt, clearBitU64, UInt64.toNat_and, hnot, Nat.testBit_and,
    Nat.testBit_two_pow_sub_succ (Nat.pow_lt_pow_right (by decide) hk), Nat.testBit_two_pow, decide_eq_true hi,
    Bool.true_and]
  rfl

theorem getBitU64_eq (u64 : UInt64) (hk : k < 64) : getBitU64 u64 k = if bitAt u64 k then 1 else 0 := by
  apply UInt64.toNat_inj.1
  rw [getBitU64, UInt64.toNat_and, UInt64.toNat_shiftRight, toNat_ofNat_mod hk, UInt64.toNat_one, Nat.and_one_is_mod,
    Nat.shiftRight_eq_div_pow, bitAt, Nat.testBit_eq_decide_div_mod_eq]
  rcases Nat.mod_two_eq_zero_or_one (u64.toNat / 2 ^ k) with h | h
  · rw [h]
    rfl
  · rw [h]
    rfl

/-! ## All words -/

/-- The bit is set. -/
def Holds (b : Bitmap) (n : Nat) : Prop := ∃ u64, b.map[n / 64]? = some u64 ∧ bitAt u64 (n % 64) = true

instance (b : Bitmap) (n : Nat) : Decidable (b.Holds n) :=
  decidable_of_iff (b.map[n / 64]?.any fun u64 => bitAt u64 (n % 64)) (by
    unfold Holds
    cases b.map[n / 64]? <;> simp)

/-- What holds between any two calls: the words suffice for the size, the search begins within it, and the padding is
clear. -/
structure WellFormed (b : Bitmap) : Prop where
  size : 0 < b.size
  map : b.map.length = (b.size + 63) / 64
  lastFreeBit : b.lastFreeBit < b.size
  padding : ∀ n, b.Holds n → n < b.size

variable {b : Bitmap} {n m : Nat}

theorem wellFormed_create {size : Nat} (h : 0 < size) :
    ∃ b, create size = .ok b ∧ b.WellFormed ∧ b.size = size ∧ ∀ n, ¬ b.Holds n := by
  have hclear : ∀ n, ¬ Holds ⟨List.replicate (getU64ArraySize size) 0, size, 0⟩ n := by
    rintro n ⟨u64, hu, hbit⟩
    have hzero := List.eq_of_mem_replicate (List.mem_of_getElem? hu)
    rw [hzero] at hbit
    simp [bitAt] at hbit
  refine ⟨⟨List.replicate (getU64ArraySize size) 0, size, 0⟩, ?_, ⟨h, ?_, h, fun n hn => absurd hn (hclear n)⟩, rfl, hclear⟩
  · rw [create, ffAssert_of h, ok_bind]
  · rw [List.length_replicate, getU64ArraySize_eq]

theorem WellFormed.index_lt (h : b.WellFormed) (hn : n < b.size) : n / 64 < b.map.length := by
  rw [h.map]
  omega

theorem WellFormed.word_eq (h : b.WellFormed) (hn : n < b.size) :
    ∃ u64, b.map[n / 64]? = some u64 ∧ word b.map n = .ok u64 := by
  have hlt := h.index_lt hn
  refine ⟨b.map[n / 64], List.getElem?_eq_getElem hlt, ?_⟩
  rw [word, u64ArrayIndex_eq, List.getElem?_eq_getElem hlt]

/-- **The bit that is read is the bit that is meant.** -/
theorem WellFormed.getBit_eq (h : b.WellFormed) (hn : n < b.size) :
    getBit b.map n = .ok (if b.Holds n then 1 else 0) := by
  obtain ⟨u64, hu, hword⟩ := h.word_eq hn
  rw [getBit, hword, ok_bind, u64BitNum_eq, getBitU64_eq _ (Nat.mod_lt n (by decide))]
  have hiff : b.Holds n ↔ bitAt u64 (n % 64) = true := by
    unfold Holds
    rw [hu]
    simp
  by_cases hbit : bitAt u64 (n % 64) = true
  · rw [if_pos hbit, if_pos (hiff.2 hbit)]
  · rw [if_neg hbit, if_neg (mt hiff.1 hbit)]

/-- Another bit lies in another word or at another place of the same one. -/
theorem eq_of_div_mod (hdiv : n / 64 = m / 64) (hmod : n % 64 = m % 64) : n = m := by
  rw [← Nat.div_add_mod n 64, hdiv, hmod, Nat.div_add_mod]

/-- **A word changed at one bit**: every other bit stays. -/
theorem holds_set {u64 : UInt64} (new : UInt64) (last : Nat) (hlt : n / 64 < b.map.length) (hu : b.map[n / 64]? = some u64)
    (hnew : ∀ i < 64, i ≠ n % 64 → bitAt new i = bitAt u64 i) :
    Holds { b with map := b.map.set (n / 64) new, lastFreeBit := last } m ↔
      if m = n then bitAt new (n % 64) = true else b.Holds m := by
  unfold Holds
  dsimp only
  by_cases hdiv : n / 64 = m / 64
  · rw [← hdiv, List.getElem?_set_self hlt, hu]
    by_cases hm : m = n
    · subst hm
      simp
    · rw [if_neg hm]
      have hmod : m % 64 ≠ n % 64 := fun hmod => hm (eq_of_div_mod hdiv.symm hmod)
      simp [hnew _ (Nat.mod_lt m (by decide)) hmod]
  · rw [List.getElem?_set_ne hdiv, if_neg (fun hm => hdiv (by rw [hm]))]

/-- **Setting a bit sets that bit.** -/
theorem WellFormed.setBit_spec (h : b.WellFormed) (hn : n < b.size) :
    ∃ map, setBit b.map n = .ok map ∧ WellFormed { b with map := map, lastFreeBit := n } ∧
      ∀ m, Holds { b with map := map, lastFreeBit := n } m ↔ m = n ∨ b.Holds m := by
  obtain ⟨u64, hu, hword⟩ := h.word_eq hn
  have hmod : n % 64 < 64 := Nat.mod_lt n (by decide)
  have hholds : ∀ m, Holds { b with map := b.map.set (n / 64) (setBitU64 u64 (n % 64)), lastFreeBit := n } m ↔
      m = n ∨ b.Holds m := fun m => by
    rw [holds_set _ _ (h.index_lt hn) hu (fun i _ hne => by rw [bitAt_setBitU64 _ hmod]; simp [Ne.symm hne])]
    split
    · rename_i hm
      rw [bitAt_setBitU64 _ hmod]
      simp [hm]
    · rename_i hm
      simp [hm]
  refine ⟨b.map.set (n / 64) (setBitU64 u64 (n % 64)), ?_, ⟨h.size, ?_, hn, fun m hm => ?_⟩, hholds⟩
  · rw [setBit, hword, ok_bind, u64ArrayIndex_eq, u64BitNum_eq]
  · rw [List.length_set]
    exact h.map
  · rcases (hholds m).1 hm with rfl | hm
    · exact hn
    · exact h.padding m hm

/-- The call returns the clear bit `k`, which is set in `b'`; nothing else changes. -/
structure Acquired (b b' : Bitmap) (k : Nat) : Prop where
  wellFormed : b'.WellFormed
  size : b'.size = b.size
  lastFreeBit : b'.lastFreeBit = k
  lt : k < b.size
  clear : ¬ b.Holds k
  holds : ∀ m, b'.Holds m ↔ m = k ∨ b.Holds m

/-- **The search**: the first clear bit that it comes to, or none of those it looks at is clear. -/
theorem WellFormed.acquireLoop_spec (h : b.WellFormed) : ∀ (turns : Nat) {n : Nat}, n < b.size →
    (∃ j b', acquireLoop b turns n = .ok (((n + j) % b.size : Nat), b') ∧ b.Acquired b' ((n + j) % b.size) ∧
      ∀ i < j, b.Holds ((n + i) % b.size)) ∨
    (acquireLoop b turns n = .ok (-1, b) ∧ ∀ j < turns, b.Holds ((n + j) % b.size))
  | 0, n, _ => Or.inr ⟨rfl, fun j hj => absurd hj (Nat.not_lt_zero j)⟩
  | turns + 1, n, hn => by
    rw [acquireLoop, h.getBit_eq hn, ok_bind]
    by_cases hheld : b.Holds n
    · rw [if_pos hheld, if_neg (by decide)]
      have hnext : (if n + 1 = b.size then 0 else n + 1) = (n + 1) % b.size := by
        split
        · rename_i hwrap
          rw [hwrap, Nat.mod_self]
        · rw [Nat.mod_eq_of_lt (by omega)]
      rw [hnext]
      have hshift : ∀ j, ((n + 1) % b.size + j) % b.size = (n + (j + 1)) % b.size := fun j => by
        rw [Nat.mod_add_mod, Nat.add_assoc, Nat.add_comm 1 j]
      have hcons : ∀ {j}, (∀ i < j, b.Holds (((n + 1) % b.size + i) % b.size)) →
          ∀ i < j + 1, b.Holds ((n + i) % b.size) := fun hall i hi => by
        cases i with
        | zero => rwa [Nat.add_zero, Nat.mod_eq_of_lt hn]
        | succ i => exact hshift i ▸ hall i (by omega)
      rcases h.acquireLoop_spec turns (Nat.mod_lt (n + 1) h.size) with ⟨j, b', hrun, hacq, hall⟩ | ⟨hnone, hall⟩
      · rw [hshift] at hrun hacq
        exact Or.inl ⟨j + 1, b', hrun, hacq, hcons hall⟩
      · exact Or.inr ⟨hnone, hcons hall⟩
    · rw [if_neg hheld, if_pos rfl]
      obtain ⟨map, hset, hwf, hholds⟩ := h.setBit_spec hn
      have hself : (n + 0) % b.size = n := by rw [Nat.add_zero, Nat.mod_eq_of_lt hn]
      rw [hset, ok_bind]
      exact Or.inl ⟨0, _, by rw [hself], by rw [hself]; exact ⟨hwf, rfl, rfl, hn, hheld, hholds⟩,
        fun i hi => absurd hi (Nat.not_lt_zero i)⟩

/-- **An acquisition**: the first clear bit from the last one on, around the end; if all are set nothing changes. -/
theorem WellFormed.acquireBit_spec (h : b.WellFormed) :
    (∃ j b', b.acquireBit = .ok (((b.lastFreeBit + j) % b.size : Nat), b') ∧
      b.Acquired b' ((b.lastFreeBit + j) % b.size) ∧ ∀ i < j, b.Holds ((b.lastFreeBit + i) % b.size)) ∨
    (b.acquireBit = .ok (-1, b) ∧ ∀ m < b.size, b.Holds m) := by
  rw [acquireBit, ffAssert_of h.size, ok_bind, ffAssert_of h.lastFreeBit, ok_bind]
  refine (h.acquireLoop_spec b.size h.lastFreeBit).imp id fun ⟨hnone, hall⟩ => ⟨hnone, fun m hm => ?_⟩
  -- a full turn comes to every bit
  have hlast := h.lastFreeBit
  by_cases hle : b.lastFreeBit ≤ m
  · have := hall (m - b.lastFreeBit) (by omega)
    rwa [Nat.add_sub_cancel' hle, Nat.mod_eq_of_lt hm] at this
  · have := hall (m + b.size - b.lastFreeBit) (by omega)
    rwa [Nat.add_sub_cancel' (by omega), Nat.add_mod_right, Nat.mod_eq_of_lt hm] at this

/-- **A release clears that bit.** -/
theorem WellFormed.releaseBit_spec (h : b.WellFormed) (hn : b.Holds n) :
    ∃ b', b.releaseBit n = .ok b' ∧ b'.WellFormed ∧ b'.size = b.size ∧ b'.lastFreeBit = b.lastFreeBit ∧
      ∀ m, b'.Holds m ↔ m ≠ n ∧ b.Holds m := by
  have hlt := h.padding n hn
  obtain ⟨u64, hu, hword⟩ := h.word_eq hlt
  have hmod : n % 64 < 64 := Nat.mod_lt n (by decide)
  have hholds : ∀ m, Holds { b with map := b.map.set (n / 64) (clearBitU64 u64 (n % 64)) } m ↔ m ≠ n ∧ b.Holds m :=
    fun m => by
      have hset := holds_set (m := m) (clearBitU64 u64 (n % 64)) b.lastFreeBit (h.index_lt hlt) hu
        (fun i hi hne => by rw [bitAt_clearBitU64 _ hmod hi]; simp [Ne.symm hne])
      refine hset.trans ?_
      split
      · rename_i hm
        rw [bitAt_clearBitU64 _ hmod hmod]
        simp [hm]
      · rename_i hm
        simp [hm]
  refine ⟨{ b with map := b.map.set (n / 64) (clearBitU64 u64 (n % 64)) }, ?_, ⟨h.size, ?_, h.lastFreeBit, fun m hm => ?_⟩,
    rfl, rfl, hholds⟩
  · rw [releaseBit, ffAssert_of h.size, ok_bind, ffAssert_of hlt, ok_bind, h.getBit_eq hlt, ok_bind, if_pos hn,
      ffAssert_of rfl, ok_bind, clearBit, hword, ok_bind, ok_bind, u64ArrayIndex_eq, u64BitNum_eq]
  · rw [List.length_set]
    exact h.map
  · exact h.padding m ((hholds m).1 hm).2

/-! ## The users of a bitmap -/

inductive Call where
  | acquireBit
  | releaseBit (n : Nat)
  deriving DecidableEq, Repr

/-- A bitmap and the ids acquired and not released. -/
structure Users where
  bitmap : Bitmap
  held : List Nat
  deriving DecidableEq, Repr

namespace Users

/-- A call; a user releases only what is held. -/
def step (s : Users) : Call → Option Users
  | .acquireBit =>
    match s.bitmap.acquireBit with
    | .ok (n, bitmap) => some ⟨bitmap, if n = -1 then s.held else n.toNat :: s.held⟩
    | .error _ => none
  | .releaseBit n =>
    if n ∈ s.held then
      match s.bitmap.releaseBit n with
      | .ok bitmap => some ⟨bitmap, s.held.erase n⟩
      | .error _ => none
    else none

variable {s s' : Users}

/-- The set bits are the ids held, each by one user. -/
structure Sound (s : Users) : Prop where
  wellFormed : s.bitmap.WellFormed
  holds : ∀ n, s.bitmap.Holds n ↔ n ∈ s.held
  nodup : s.held.Nodup

/-- The outcome of every call. -/
inductive Outcome (s : Users) : Call → Users → Prop where
  | acquired {k b'} (hcall : s.bitmap.acquireBit = .ok ((k : Nat), b')) (hacq : s.bitmap.Acquired b' k) (hk : k ∉ s.held) :
    Outcome s .acquireBit ⟨b', k :: s.held⟩
  | full (hcall : s.bitmap.acquireBit = .ok (-1, s.bitmap)) (hall : ∀ n < s.bitmap.size, n ∈ s.held) :
    Outcome s .acquireBit s
  | released {n b'} (hcall : s.bitmap.releaseBit n = .ok b') (hn : n ∈ s.held) (hwf : b'.WellFormed)
    (hsize : b'.size = s.bitmap.size) (hholds : ∀ m, b'.Holds m ↔ m ≠ n ∧ s.bitmap.Holds m) :
    Outcome s (.releaseBit n) ⟨b', s.held.erase n⟩

/-- **Every call succeeds**: no assertion fails, and a release of what is held clears its bit. -/
theorem Sound.progress (h : s.Sound) {c : Call} (hc : ∀ n, c = .releaseBit n → n ∈ s.held) :
    ∃ s', s.step c = some s' ∧ Outcome s c s' := by
  cases c with
  | acquireBit =>
    rcases h.wellFormed.acquireBit_spec with ⟨j, b', hcall, hacq, -⟩ | ⟨hcall, hall⟩
    · generalize (s.bitmap.lastFreeBit + j) % s.bitmap.size = k at hcall hacq
      refine ⟨_, ?_, .acquired hcall hacq (mt (h.holds k).2 hacq.clear)⟩
      rw [step, hcall]
      dsimp only
      rw [if_neg (by omega), Int.toNat_natCast]
    · refine ⟨s, ?_, .full hcall fun n hn => (h.holds n).1 (hall n hn)⟩
      rw [step, hcall]
      rfl
  | releaseBit n =>
    have hn := hc n rfl
    obtain ⟨b', hcall, hwf, hsize, -, hholds⟩ := h.wellFormed.releaseBit_spec ((h.holds n).2 hn)
    refine ⟨_, ?_, .released hcall hn hwf hsize hholds⟩
    rw [step, if_pos hn, hcall]

theorem Sound.outcome (h : s.Sound) {c : Call} (hs : s.step c = some s') : Outcome s c s' := by
  have hc : ∀ n, c = .releaseBit n → n ∈ s.held := fun n hc => by
    subst hc
    by_contra hn
    rw [step, if_neg hn] at hs
    cases hs
  obtain ⟨t, ht, hout⟩ := h.progress hc
  rw [hs] at ht
  cases ht
  exact hout

theorem Sound.step (h : s.Sound) {c : Call} (hs : s.step c = some s') : s'.Sound ∧ s'.bitmap.size = s.bitmap.size := by
  cases h.outcome hs with
  | acquired hcall hacq hk =>
    refine ⟨⟨hacq.wellFormed, fun n => ?_, List.nodup_cons.2 ⟨hk, h.nodup⟩⟩, hacq.size⟩
    rw [hacq.holds, h.holds, List.mem_cons]
  | full => exact ⟨h, rfl⟩
  | released hcall hn hwf hsize hholds =>
    refine ⟨⟨hwf, fun m => ?_, h.nodup.erase _⟩, hsize⟩
    rw [hholds, h.holds, h.nodup.mem_erase_iff]

/-- What a bitmap of so many bits does for its users. -/
structure Allocates (s : Users) (size : Nat) : Prop where
  holds : ∀ n, s.bitmap.Holds n ↔ n ∈ s.held
  lt : ∀ n ∈ s.held, n < size
  padding : ∀ n, size ≤ n → ¬ s.bitmap.Holds n
  nodup : s.held.Nodup
  lastFreeBit : s.bitmap.lastFreeBit < size
  acquire : ∃ r b', s.bitmap.acquireBit = .ok (r, b') ∧ (r = -1 ↔ ∀ n < size, n ∈ s.held) ∧ (r = -1 → b' = s.bitmap) ∧
    (r ≠ -1 → ∃ k : Nat, r = k ∧ k < size ∧ k ∉ s.held ∧ ∀ m, b'.Holds m ↔ m = k ∨ s.bitmap.Holds m)
  release : ∀ n ∈ s.held, ∃ b', s.bitmap.releaseBit n = .ok b' ∧ ∀ m, b'.Holds m ↔ m ≠ n ∧ s.bitmap.Holds m

theorem Sound.allocates (h : s.Sound) : s.Allocates s.bitmap.size := by
  have hlt : ∀ n ∈ s.held, n < s.bitmap.size := fun n hn => h.wellFormed.padding n ((h.holds n).2 hn)
  refine ⟨h.holds, hlt, fun n hle hn => absurd (h.wellFormed.padding n hn) (by omega), h.nodup, h.wellFormed.lastFreeBit, ?_,
    fun n hn => ?_⟩
  · obtain ⟨s', -, hout⟩ := h.progress (c := .acquireBit) nofun
    cases hout with
    | @acquired k b' hcall hacq hk =>
      have hne : (k : Int) ≠ -1 := by omega
      exact ⟨k, b', hcall, iff_of_false hne fun hall => hk (hall k hacq.lt), fun he => absurd he hne,
        fun _ => ⟨k, rfl, hacq.lt, hk, hacq.holds⟩⟩
    | full hcall hall => exact ⟨-1, s.bitmap, hcall, iff_of_true rfl hall, fun _ => rfl, fun hne => absurd rfl hne⟩
  · obtain ⟨s', -, hout⟩ := h.progress (c := .releaseBit n) fun m hm => by cases hm; exact hn
    cases hout with
    | released hcall _ _ _ hholds => exact ⟨_, hcall, hholds⟩

/-- **The bitmap allocates**, after any calls that release only what is held: the set bits are the ids held, every one
held once and below the size; an acquisition sets a clear bit and no other, and fails, changing nothing, exactly when all
ids are held; a release clears its bit and no other. -/
theorem allocates_of_exec (size : Nat) (hsize : 0 < size) (calls : List Call) :
    ∃ b, create size = .ok b ∧ ∀ s, Run.exec step ⟨b, []⟩ calls = some s → s.Allocates size := by
  obtain ⟨b, hcreate, hwf, hb, hclear⟩ := wellFormed_create hsize
  refine ⟨b, hcreate, fun s hrun => ?_⟩
  have h₀ : Sound ⟨b, []⟩ := ⟨hwf, fun n => iff_of_false (hclear n) List.not_mem_nil, List.nodup_nil⟩
  have hs : s.Sound ∧ s.bitmap.size = size :=
    Run.invariant (P := fun s => s.Sound ∧ s.bitmap.size = size) (C := fun _ _ => True)
      (fun s c s' h _ hstep => ⟨(h.1.step hstep).1, (h.1.step hstep).2.trans h.2⟩) calls ⟨h₀, hb⟩ (Run.meets_true _ _) hrun
  exact hs.2 ▸ hs.1.allocates

theorem allocates_of_exec_three :
    ∃ b, create 3 = .ok b ∧ ∀ s, Run.exec step ⟨b, []⟩ [.acquireBit, .acquireBit, .releaseBit 0] = some s → s.Allocates 3 :=
  allocates_of_exec 3 (by decide) _

end Users

end Bitmap
end Mrpc
