import MultiplexingRpc.ConsistentHash
/-!
# Buckets — which buckets the consistent hash touches (`mrpc_consistent_hash.c`)

`mrpc_consistent_hash_create` admits every order from `0` to `20`, and so does the header.  A key's bucket is its
leading `order` bits, taken by a shift of a 32-bit word by `32 - order`: at order `0` by the width of the word.  With any
other order no run of operations shifts too far or reaches past the buckets (`accessesInRange_iff`).
-/
namespace Mrpc
namespace ConsistentHash

variable {α : Type} (ffHashUint32 : UInt32 → List UInt32 → UInt32)

/-! ## The operations, with every access to the buckets -/

/-- The `for` loop of `mrpc_consistent_hash_remove_all_entries`, with the turns left, `i` and `entries_cnt`. -/
def removeAllEntriesLoop (ch : ConsistentHash α) : Nat → Nat → Int → Except Fault (ConsistentHash α × Int)
  | 0, _, entriesCnt => .ok (ch, entriesCnt)
  | turns + 1, i, entriesCnt => do
    let entries ← ch.bucket i
    let entriesCnt := entries.foldl (fun cnt _ => cnt - 1) entriesCnt
    removeAllEntriesLoop { ch with buckets := ch.buckets.set i [] } turns (i + 1) entriesCnt

/-- `mrpc_consistent_hash_remove_all_entries`, bucket by bucket. -/
def removeAllBuckets (ch : ConsistentHash α) : Except Fault (ConsistentHash α) := do
  let (ch, entriesCnt) ← ch.removeAllEntriesLoop (2 ^ ch.order) 0 ch.entriesCnt
  ffAssert (entriesCnt = 0)
  return { ch with entriesCnt := 0 }

inductive Operation (α : Type) where
  | addEntry (key : UInt32) (value : α)
  | removeEntry (key : UInt32)
  | removeAllEntries
  | getEntry (key : UInt32)

def operate (ch : ConsistentHash α) : Operation α → Except Fault (ConsistentHash α)
  | .addEntry key value => ch.addEntry ffHashUint32 key value
  | .removeEntry key => ch.removeEntry ffHashUint32 key
  | .removeAllEntries => ch.removeAllBuckets
  | .getEntry key => do
    let _ ← ch.getEntry ffHashUint32 key
    return ch

/-- A table of the given configuration after a list of operations. -/
def operations (order uniformFactor : Nat) (ops : List (Operation α)) : Except Fault (ConsistentHash α) := do
  let ch ← create order uniformFactor
  ops.foldlM (operate ffHashUint32) ch

/-- It does not stop at a shift by the width of the word or more, nor at a bucket that does not exist. -/
structure InRange {β : Type} (x : Except Fault β) : Prop where
  shift : x ≠ .error .shiftAmount
  index : x ≠ .error .outOfRange

/-- The run makes no shift by 32 or more and no access past the `2^order` buckets. -/
def AccessesInRange (order uniformFactor : Nat) (ops : List (Operation α)) : Prop :=
  InRange (operations ffHashUint32 order uniformFactor ops)

/-- The first operation that does not empty the table adds an entry. -/
def addsFirst : List (Operation α) → Bool
  | .addEntry _ _ :: _ => true
  | .removeAllEntries :: ops => addsFirst ops
  | _ => false

/-! ## The loop over all buckets -/

/-- **The loop empties the buckets from `i` on** and counts what was in them. -/
theorem removeAllEntriesLoop_eq : ∀ (todo done : List (List (Entry α))) (ch : ConsistentHash α) (cnt : Int),
    ch.buckets = done ++ todo →
    ch.removeAllEntriesLoop todo.length done.length cnt =
      .ok ({ ch with buckets := done ++ todo.map fun _ => [] },
        todo.foldl (fun cnt b => b.foldl (fun cnt _ => cnt - 1) cnt) cnt)
  | [], done, ch, cnt, h => by
    rw [List.append_nil] at h
    rw [List.length_nil, removeAllEntriesLoop, List.map_nil, List.append_nil, ← h]
    rfl
  | b :: todo, done, ch, cnt, h => by
    have hbucket : ch.bucket done.length = .ok b := by simp [bucket, h]
    have hset : ch.buckets.set done.length [] = (done ++ [[]]) ++ todo := by
      rw [h, set_append_cons, List.append_assoc]
      rfl
    have ih := removeAllEntriesLoop_eq todo (done ++ [[]]) { ch with buckets := ch.buckets.set done.length [] }
      (b.foldl (fun cnt _ => cnt - 1) cnt) hset
    rw [List.length_append, List.length_singleton] at ih
    rw [List.length_cons, removeAllEntriesLoop, hbucket, ok_bind, ih, List.append_assoc]
    rfl

/-- **Bucket by bucket or all at once**, the table is emptied alike. -/
theorem removeAllBuckets_eq {ch : ConsistentHash α} (h : ch.buckets.length = 2 ^ ch.order) :
    ch.removeAllBuckets = ch.removeAllEntries := by
  have hloop := removeAllEntriesLoop_eq ch.buckets [] ch ch.entriesCnt rfl
  rw [h, List.length_nil, List.nil_append] at hloop
  rw [removeAllBuckets, hloop, ok_bind]
  rfl

/-! ## In range, step by step -/

/-- It stays in range, and what it returns, if it returns, is `Q`. -/
structure Stays {β : Type} (x : Except Fault β) (Q : β → Prop) : Prop where
  inRange : InRange x
  ok : ∀ b, x = .ok b → Q b

section Stays

variable {β γ : Type} {x : Except Fault β} {Q : β → Prop} {R : γ → Prop}

theorem stays_ok {b : β} (hb : Q b) : Stays (.ok b) Q := by
  refine ⟨⟨nofun, nofun⟩, fun b' hb' => ?_⟩
  cases hb'
  exact hb

theorem stays_ffAssert (p : Prop) [Decidable p] : Stays (ffAssert p) fun _ => p := by
  refine ⟨⟨fun h => ?_, fun h => ?_⟩, fun _ => of_ffAssert⟩ <;>
  · unfold ffAssert at h
    split at h <;> cases h

theorem Stays.bind (hx : Stays x Q) {f : β → Except Fault γ} (hf : ∀ b, Q b → Stays (f b) R) : Stays (x >>= f) R := by
  cases hb : x with
  | ok b => exact hf b (hx.ok b hb)
  | error e =>
    subst hb
    refine ⟨⟨fun he => hx.inRange.shift ?_, fun he => hx.inRange.index ?_⟩, nofun⟩ <;>
    · cases he
      rfl

/-- A fold stays in range if each of its steps does. -/
theorem stays_foldlM {step : β → γ → Except Fault β} (hstep : ∀ b c, Q b → Stays (step b c) Q) :
    ∀ (cs : List γ) {b : β}, Q b → Stays (cs.foldlM step b) Q
  | [], _, hb => stays_ok hb
  | c :: cs, b, hb => by
    rw [List.foldlM_cons]
    exact (hstep b c hb).bind fun b' hb' => stays_foldlM hstep cs hb'

end Stays

/-! ## Any order but `0` -/

/-- The configuration admits its shifts, and every bucket number is one of a bucket. -/
structure Sized (ch : ConsistentHash α) : Prop where
  orderPos : 1 ≤ ch.order
  orderLe : ch.order ≤ 20
  length : ch.buckets.length = 2 ^ ch.order

variable {ch : ConsistentHash α}

theorem Sized.set (h : ch.Sized) (bucketNum : Nat) (b : List (Entry α)) (cnt : Int) :
    Sized { ch with buckets := ch.buckets.set bucketNum b, entriesCnt := cnt } :=
  ⟨h.orderPos, h.orderLe, by rw [List.length_set]; exact h.length⟩

/-- **The number of a bucket is one.** -/
theorem Sized.getBucketNum (h : ch.Sized) (key : UInt32) :
    Stays (getBucketNum ch.order key) fun bucketNum => bucketNum < 2 ^ ch.order := by
  rw [getBucketNum_of_pos h.orderPos]
  exact stays_ok (shiftRight_lt h.orderLe key)

theorem Sized.bucket (h : ch.Sized) {bucketNum : Nat} (hlt : bucketNum < 2 ^ ch.order) :
    Stays (ch.bucket bucketNum) fun _ => True := by
  rw [← h.length] at hlt
  rw [ConsistentHash.bucket, List.getElem?_eq_getElem hlt]
  exact stays_ok trivial

theorem Sized.addEntryWithKey (h : ch.Sized) (key : UInt32) (value : α) : Stays (ch.addEntryWithKey key value) Sized :=
  (h.getBucketNum key).bind fun bucketNum hlt => (h.bucket hlt).bind fun _ _ =>
    (stays_ffAssert _).bind fun _ _ => stays_ok (h.set bucketNum _ _)

theorem Sized.removeEntryWithKey (h : ch.Sized) (key : UInt32) : Stays (ch.removeEntryWithKey key) Sized := by
  refine (h.getBucketNum key).bind fun bucketNum hlt => (h.bucket hlt).bind fun _ _ => ?_
  split
  · exact ⟨⟨nofun, nofun⟩, nofun⟩
  · exact (stays_ffAssert _).bind fun _ _ => stays_ok (h.set bucketNum _ _)

/-- **The search goes around within the buckets.** -/
theorem Sized.getEntryLoop (h : ch.Sized) : ∀ (turns : Nat) {bucketNum : Nat} (key : Nat), bucketNum < 2 ^ ch.order →
    Stays (ch.getEntryLoop turns bucketNum key) fun _ => True
  | 0, _, _, _ => ⟨⟨nofun, nofun⟩, nofun⟩
  | turns + 1, bucketNum, key, hlt => by
    refine (h.bucket hlt).bind fun _ _ => ?_
    split
    · exact stays_ok trivial
    · split
      · exact h.getEntryLoop turns 0 (Nat.two_pow_pos _)
      · exact h.getEntryLoop turns key (by omega)

theorem Sized.getEntry (h : ch.Sized) (key : UInt32) : Stays (ch.getEntry ffHashUint32 key) fun _ => True :=
  (stays_ffAssert _).bind fun _ _ => (h.getBucketNum _).bind fun _ hlt => h.getEntryLoop _ _ hlt

theorem Sized.removeAllEntriesLoop : ∀ (turns : Nat) {ch : ConsistentHash α} {i : Nat} (cnt : Int), ch.Sized →
    i + turns ≤ 2 ^ ch.order → Stays (ch.removeAllEntriesLoop turns i cnt) fun r => r.1.Sized
  | 0, _, _, _, h, _ => stays_ok h
  | turns + 1, ch, i, cnt, h, hle =>
    (h.bucket (by omega)).bind fun _ _ => Sized.removeAllEntriesLoop turns _ (h.set i [] ch.entriesCnt)
      (show i + 1 + turns ≤ 2 ^ ch.order by omega)

theorem Sized.removeAllBuckets (h : ch.Sized) : Stays ch.removeAllBuckets Sized :=
  (Sized.removeAllEntriesLoop (2 ^ ch.order) ch.entriesCnt h (by omega)).bind fun r hr =>
    (stays_ffAssert _).bind fun _ _ => stays_ok ⟨hr.orderPos, hr.orderLe, hr.length⟩

theorem Sized.operate (h : ch.Sized) (op : Operation α) : Stays (ch.operate ffHashUint32 op) Sized := by
  cases op with
  | addEntry key value => exact stays_foldlM (fun ch p h => h.addEntryWithKey p value) _ h
  | removeEntry key =>
    exact (stays_ffAssert _).bind fun _ _ => stays_foldlM (fun ch p h => h.removeEntryWithKey p) _ h
  | removeAllEntries => exact h.removeAllBuckets
  | getEntry key => exact (h.getEntry ffHashUint32 key).bind fun _ _ => stays_ok h

/-! ## Order `0` -/

/-- The one bucket of order `0`, empty. -/
def noOrder (uniformFactor : Nat) : ConsistentHash α := ⟨[[]], 0, uniformFactor, 0⟩

/-- **The first addition shifts by the width of the word.** -/
theorem addEntry_noOrder {uniformFactor : Nat} (hfactor : 1 ≤ uniformFactor) (key : UInt32) (value : α) :
    (noOrder uniformFactor).addEntry ffHashUint32 key value = .error .shiftAmount := by
  obtain ⟨n, rfl⟩ := Nat.exists_eq_add_of_le' hfactor
  unfold ConsistentHash.addEntry points
  rw [show (noOrder (n + 1) : ConsistentHash α).uniformFactor = n + 1 from rfl, List.range_succ_eq_map, List.map_cons,
    List.foldlM_cons]
  rfl

/-- **An empty table of order `0` goes out of range at its first addition**, if nothing stops it before. -/
theorem inRange_noOrder {uniformFactor : Nat} (hfactor : 1 ≤ uniformFactor) : ∀ ops : List (Operation α),
    InRange (ops.foldlM (operate ffHashUint32) (noOrder uniformFactor)) ↔ addsFirst ops = false
  | [] => iff_of_true ⟨nofun, nofun⟩ rfl
  | .addEntry key value :: ops => by
    refine iff_of_false (fun h => h.shift ?_) (by simp [addsFirst])
    rw [List.foldlM_cons, operate, addEntry_noOrder ffHashUint32 hfactor]
    rfl
  | .removeEntry key :: ops => iff_of_true ⟨nofun, nofun⟩ rfl
  | .removeAllEntries :: ops => inRange_noOrder hfactor ops
  | .getEntry key :: ops => iff_of_true ⟨nofun, nofun⟩ rfl

/-- **Every access to the buckets is in range exactly when the order is not `0` or nothing is added**: a removal or a
lookup in the empty table stops at its assertion, so that no bucket number is computed before the first addition. -/
theorem accessesInRange_iff (order uniformFactor : Nat) (horder : order ≤ 20) (hfactor : 1 ≤ uniformFactor)
    (hfactor' : uniformFactor ≤ 255) (ops : List (Operation α)) :
    AccessesInRange ffHashUint32 order uniformFactor ops ↔ 1 ≤ order ∨ addsFirst ops = false := by
  rw [AccessesInRange, operations, create_eq horder hfactor hfactor', ok_bind]
  cases order with
  | zero =>
    refine (inRange_noOrder ffHashUint32 hfactor ops).trans ?_
    simp
  | succ n =>
    refine iff_of_true ?_ (Or.inl (Nat.le_add_left 1 n))
    have h₀ : Sized (⟨List.replicate (2 ^ (n + 1)) [], n + 1, uniformFactor, 0⟩ : ConsistentHash α) :=
      ⟨Nat.le_add_left 1 n, horder, List.length_replicate⟩
    exact (stays_foldlM (fun ch op h => h.operate ffHashUint32 op) ops h₀).inRange

theorem accessesInRange_order20 :
    AccessesInRange hashFiveSix 20 1 [.addEntry 7 70, .getEntry 8, .removeEntry 7] ↔
      1 ≤ 20 ∨ addsFirst [.addEntry 7 70, .getEntry 8, .removeEntry 7] = false :=
  accessesInRange_iff hashFiveSix 20 1 (by decide) (by decide) (by decide) [.addEntry 7 70, .getEntry 8, .removeEntry 7]

/-- Order `0` and one key: the number of its bucket is a shift by 32. -/
theorem not_accessesInRange_order0 : ¬ AccessesInRange hashFiveSix 0 1 [.addEntry 7 70] :=
  fun h => h.shift (by decide)

end ConsistentHash
end Mrpc
