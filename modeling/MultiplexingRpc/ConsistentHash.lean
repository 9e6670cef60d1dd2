import MultiplexingRpc.Common
import MultiplexingRpc.Lib.KeyedList
/-!
# ConsistentHash — the ring (`mrpc_consistent_hash.c`)

A table of `2^order` buckets, each a linked list sorted by 32-bit point; a point lies in the bucket of its leading bits,
so the buckets in index order are the ring.  An entry is added at `uniform_factor` points of its key and removed at
them again.  `ff_hash_uint32` belongs to the fiber framework and is an arbitrary function of its start value and words.
-/
namespace Mrpc

open KeyedList

/-- `struct consistent_hash_entry`, the link left to the list. -/
structure Entry (α : Type) where
  key : UInt32
  value : α
  deriving DecidableEq, Repr

/-- `struct mrpc_consistent_hash`. -/
structure ConsistentHash (α : Type) where
  buckets : List (List (Entry α))
  order : Nat
  uniformFactor : Nat
  entriesCnt : Int
  deriving DecidableEq, Repr

/-- The point of an entry, as a number. -/
def Entry.point {α : Type} (e : Entry α) : Nat := e.key.toNat

namespace ConsistentHash

variable {α : Type} (ffHashUint32 : UInt32 → List UInt32 → UInt32)

/-! ## The operations -/

/-- `mrpc_consistent_hash_create`. -/
def create (order uniformFactor : Nat) : Except Fault (ConsistentHash α) := do
  ffAssert (order ≤ 20)
  ffAssert (0 < uniformFactor)
  ffAssert (uniformFactor < 0x100)
  return ⟨List.replicate (2 ^ order) [], order, uniformFactor, 0⟩

/-- `get_bucket_num`. -/
def getBucketNum (order : Nat) (key : UInt32) : Except Fault Nat :=
  if 32 - order < 32 then .ok (key.toNat >>> (32 - order)) else .error .shiftAmount

/-- `buckets[bucket_num]`. -/
def bucket (ch : ConsistentHash α) (bucketNum : Nat) : Except Fault (List (Entry α)) :=
  match ch.buckets[bucketNum]? with
  | none => .error .outOfRange
  | some b => .ok b

/-- `add_entry_with_key`: the pointer loop stops before the first entry whose key is not smaller. -/
def addEntryWithKey (ch : ConsistentHash α) (key : UInt32) (value : α) : Except Fault (ConsistentHash α) := do
  let bucketNum ← getBucketNum ch.order key
  let entries ← ch.bucket bucketNum
  let entriesCnt := ch.entriesCnt + 1
  ffAssert (entriesCnt > 0)
  return { ch with buckets := ch.buckets.set bucketNum (insertFront Entry.point ⟨key, value⟩ entries),
                   entriesCnt := entriesCnt }

/-- `remove_entry_with_key`: the pointer loop stops at the first entry with the key, which is asserted to exist. -/
def removeEntryWithKey (ch : ConsistentHash α) (key : UInt32) : Except Fault (ConsistentHash α) := do
  let bucketNum ← getBucketNum ch.order key
  let entries ← ch.bucket bucketNum
  match removeFirst Entry.point key.toNat entries with
  | none => .error .assertion
  | some entries' =>
    let entriesCnt := ch.entriesCnt - 1
    ffAssert (entriesCnt ≥ 0)
    return { ch with buckets := ch.buckets.set bucketNum entries', entriesCnt := entriesCnt }

/-- The points `ff_hash_uint32(i, &key, 1)` of a key, `i < uniform_factor`. -/
def points (uniformFactor : Nat) (key : UInt32) : List UInt32 :=
  (List.range uniformFactor).map (fun i => ffHashUint32 (UInt32.ofNat i) [key])

/-- `mrpc_consistent_hash_add_entry`. -/
def addEntry (ch : ConsistentHash α) (key : UInt32) (value : α) : Except Fault (ConsistentHash α) :=
  (points ffHashUint32 ch.uniformFactor key).foldlM (fun ch hashValue => ch.addEntryWithKey hashValue value) ch

/-- `mrpc_consistent_hash_remove_entry`. -/
def removeEntry (ch : ConsistentHash α) (key : UInt32) : Except Fault (ConsistentHash α) := do
  ffAssert (ch.entriesCnt > 0)
  (points ffHashUint32 ch.uniformFactor key).foldlM (fun ch hashValue => ch.removeEntryWithKey hashValue) ch

/-- `mrpc_consistent_hash_remove_all_entries`. -/
def removeAllEntries (ch : ConsistentHash α) : Except Fault (ConsistentHash α) := do
  let entriesCnt := ch.buckets.foldl (fun cnt b => b.foldl (fun cnt _ => cnt - 1) cnt) ch.entriesCnt
  ffAssert (entriesCnt = 0)
  return { ch with buckets := ch.buckets.map (fun _ => []), entriesCnt := 0 }

/-- The `for` loop of `mrpc_consistent_hash_get_entry`, with the turns left, `bucket_num` and `key`.  Past the last
bucket the search goes on in the first, from key `0`. -/
def getEntryLoop (ch : ConsistentHash α) : Nat → Nat → Nat → Except Fault α
  | 0, _, _ => .error .assertion
  | turns + 1, bucketNum, key => do
    let entries ← ch.bucket bucketNum
    match entries.find? (fun e => decide (key ≤ e.point)) with
    | some e => return e.value
    | none =>
      if bucketNum + 1 = 2 ^ ch.order then ch.getEntryLoop turns 0 0 else ch.getEntryLoop turns (bucketNum + 1) key

/-- `mrpc_consistent_hash_get_entry`. -/
def getEntry (ch : ConsistentHash α) (key : UInt32) : Except Fault α := do
  ffAssert (ch.entriesCnt > 0)
  let key := ffHashUint32 0 [key]
  let bucketNum ← getBucketNum ch.order key
  ch.getEntryLoop (2 ^ ch.order) bucketNum key.toNat

/-- `mrpc_consistent_hash_is_empty`. -/
def isEmpty (ch : ConsistentHash α) : Bool := ch.entriesCnt == 0

/-! ## Well-formed tables -/

/-- The ring: the buckets in index order. -/
def entries (ch : ConsistentHash α) : List (Entry α) := ch.buckets.flatten

/-- Every entry lies in the bucket of its leading bits, every bucket is sorted, and the count is right. -/
structure WellFormed (ch : ConsistentHash α) : Prop where
  orderPos : 1 ≤ ch.order
  orderLe : ch.order ≤ 20
  length : ch.buckets.length = 2 ^ ch.order
  place : ∀ i b, ch.buckets[i]? = some b → ∀ e ∈ b, e.point >>> (32 - ch.order) = i
  sorted : ∀ b ∈ ch.buckets, SortedBy Entry.point b
  count : ch.entriesCnt = ch.entries.length

theorem getBucketNum_of_pos {order : Nat} (h : 1 ≤ order) (key : UInt32) :
    getBucketNum order key = .ok (key.toNat >>> (32 - order)) := if_pos (by omega)

theorem shiftRight_lt {order : Nat} (h : order ≤ 20) (key : UInt32) : key.toNat >>> (32 - order) < 2 ^ order := by
  rw [Nat.shiftRight_eq_div_pow, Nat.div_lt_iff_lt_mul (Nat.two_pow_pos _), ← Nat.pow_add,
    show order + (32 - order) = 32 by omega]
  exact key.toNat_lt

/-- The bucket of a key exists. -/
theorem WellFormed.bucket_eq {ch : ConsistentHash α} (h : ch.WellFormed) (key : UInt32) :
    ∃ pre b post, ch.buckets = pre ++ b :: post ∧ pre.length = key.toNat >>> (32 - ch.order) ∧
      ch.bucket (key.toNat >>> (32 - ch.order)) = .ok b := by
  have hlt : key.toNat >>> (32 - ch.order) < ch.buckets.length := by rw [h.length]; exact shiftRight_lt h.orderLe key
  generalize key.toNat >>> (32 - ch.order) = i at hlt ⊢
  refine ⟨ch.buckets.take i, ch.buckets[i], ch.buckets.drop (i + 1), ?_, ?_, ?_⟩
  · rw [List.cons_getElem_drop_succ, List.take_append_drop]
  · rw [List.length_take]; omega
  · rw [bucket, List.getElem?_eq_getElem hlt]

theorem set_append_cons {β : Type} (pre : List β) (b b' : β) (post : List β) :
    (pre ++ b :: post).set pre.length b' = pre ++ b' :: post := by
  rw [List.set_append_right _ _ (Nat.le_refl _), Nat.sub_self]
  rfl

theorem entries_split (ch : ConsistentHash α) {pre post : List (List (Entry α))} {b : List (Entry α)}
    (hb : ch.buckets = pre ++ b :: post) : ch.entries = pre.flatten ++ (b ++ post.flatten) := by
  rw [entries, hb, List.flatten_append, List.flatten_cons]

/-- Every entry of the ring lies in the bucket of its leading bits. -/
theorem WellFormed.index_of_mem {ch : ConsistentHash α} (h : ch.WellFormed) {pre post : List (List (Entry α))}
    {b : List (Entry α)} (hb : ch.buckets = pre ++ b :: post) :
    (∀ e ∈ pre.flatten, e.point >>> (32 - ch.order) < pre.length) ∧
    (∀ e ∈ b, e.point >>> (32 - ch.order) = pre.length) ∧
    (∀ e ∈ post.flatten, pre.length < e.point >>> (32 - ch.order)) := by
  refine ⟨fun e he => ?_, h.place pre.length b (by simp [hb]), fun e he => ?_⟩
  · obtain ⟨b', hb', he⟩ := List.mem_flatten.1 he
    obtain ⟨i, hi, rfl⟩ := List.getElem_of_mem hb'
    rw [h.place i pre[i] (by rw [hb, List.getElem?_append_left hi, List.getElem?_eq_getElem hi]) e he]
    exact hi
  · obtain ⟨b', hb', he⟩ := List.mem_flatten.1 he
    obtain ⟨i, hi, rfl⟩ := List.getElem_of_mem hb'
    rw [h.place (pre.length + (i + 1)) post[i] (by
      rw [hb, List.getElem?_append_right (by omega), Nat.add_sub_cancel_left, List.getElem?_cons_succ,
        List.getElem?_eq_getElem hi]) e he]
    omega

/-- **The ring is sorted by point.** -/
theorem WellFormed.sorted_entries {ch : ConsistentHash α} (h : ch.WellFormed) : SortedBy Entry.point ch.entries := by
  refine List.pairwise_flatten.2 ⟨h.sorted, ?_⟩
  rw [List.pairwise_iff_getElem]
  intro i j hi hj hij a ha b hb
  have hpa := h.place i _ (List.getElem?_eq_getElem hi) a ha
  have hpb := h.place j _ (List.getElem?_eq_getElem hj) b hb
  rw [Nat.shiftRight_eq_div_pow] at hpa hpb
  by_contra hlt
  rw [not_le] at hlt
  have hle := Nat.div_le_div_right (c := 2 ^ (32 - ch.order)) hlt.le
  omega

theorem atKey_eq_nil {l : List (Entry α)} {key : UInt32} (order : Nat)
    (h : ∀ e ∈ l, e.point >>> (32 - order) ≠ key.toNat >>> (32 - order)) : atKey Entry.point key.toNat l = [] :=
  List.filter_eq_nil_iff.2 (fun e he hk => h e he (by rw [of_decide_eq_true hk]))

/-- The entries at a point all lie in its bucket. -/
theorem WellFormed.atKey_entries {ch : ConsistentHash α} (h : ch.WellFormed) {pre post : List (List (Entry α))}
    {b : List (Entry α)} (hb : ch.buckets = pre ++ b :: post) {key : UInt32}
    (hpre : pre.length = key.toNat >>> (32 - ch.order)) :
    atKey Entry.point key.toNat ch.entries = atKey Entry.point key.toNat b := by
  obtain ⟨h1, -, h3⟩ := h.index_of_mem hb
  have hpre' : atKey Entry.point key.toNat pre.flatten = [] :=
    atKey_eq_nil ch.order (fun e he => by have := h1 e he; omega)
  have hpost : atKey Entry.point key.toNat post.flatten = [] :=
    atKey_eq_nil ch.order (fun e he => by have := h3 e he; omega)
  unfold atKey at hpre' hpost ⊢
  rw [entries_split ch hb, List.filter_append, List.filter_append, hpre', hpost, List.nil_append, List.append_nil]

/-- **Replacing the bucket of a key by a sorted list of entries of that bucket keeps the table well formed.** -/
theorem WellFormed.setBucket {ch : ConsistentHash α} (h : ch.WellFormed) {pre post : List (List (Entry α))}
    {b b' : List (Entry α)} (hb : ch.buckets = pre ++ b :: post) (hs : SortedBy Entry.point b')
    (hplace : ∀ e ∈ b', e.point >>> (32 - ch.order) = pre.length) (cnt : Int)
    (hcnt : cnt = ch.entriesCnt - b.length + b'.length) :
    ({ ch with buckets := pre ++ b' :: post, entriesCnt := cnt } : ConsistentHash α).WellFormed where
  orderPos := h.orderPos
  orderLe := h.orderLe
  length := by
    have := h.length
    rw [hb, List.length_append, List.length_cons] at this
    rw [List.length_append, List.length_cons]
    exact this
  place := by
    intro i b₁ hi e he
    rcases Nat.lt_trichotomy i pre.length with hlt | rfl | hgt
    · rw [List.getElem?_append_left hlt] at hi
      exact h.place i b₁ (by rw [hb, List.getElem?_append_left hlt]; exact hi) e he
    · rw [List.getElem?_append_right (Nat.le_refl _), Nat.sub_self, List.getElem?_cons_zero] at hi
      cases hi
      exact hplace e he
    · obtain ⟨j, rfl⟩ := Nat.exists_eq_add_of_lt hgt
      rw [List.getElem?_append_right (by omega), show pre.length + j + 1 - pre.length = j + 1 by omega,
        List.getElem?_cons_succ] at hi
      refine h.place _ b₁ ?_ e he
      rw [hb, List.getElem?_append_right (by omega), show pre.length + j + 1 - pre.length = j + 1 by omega,
        List.getElem?_cons_succ]
      exact hi
  sorted := by
    intro b₁ hb₁
    rcases List.mem_append.1 hb₁ with hm | hm
    · exact h.sorted b₁ (by rw [hb]; exact List.mem_append_left _ hm)
    · rcases List.mem_cons.1 hm with rfl | hm
      · exact hs
      · exact h.sorted b₁ (by rw [hb]; exact List.mem_append_right _ (List.mem_cons_of_mem _ hm))
  count := by
    have h0 := h.count
    rw [entries_split ch hb] at h0
    rw [hcnt, h0, entries, List.flatten_append, List.flatten_cons]
    simp only [List.length_append]
    push_cast
    ring

/-! ## One point -/

/-- **`add_entry_with_key` succeeds and pushes on its point's stack**, leaving the others. -/
theorem WellFormed.addEntryWithKey {ch : ConsistentHash α} (h : ch.WellFormed) (key : UInt32) (value : α) :
    ∃ ch', ch.addEntryWithKey key value = .ok ch' ∧ ch'.WellFormed ∧ ch'.uniformFactor = ch.uniformFactor ∧
      ch'.order = ch.order ∧ ∀ p : UInt32, atKey Entry.point p.toNat ch'.entries =
        (if p = key then [⟨key, value⟩] else []) ++ atKey Entry.point p.toNat ch.entries := by
  obtain ⟨pre, b, post, hb, hpre, hbucket⟩ := h.bucket_eq key
  have hsb : SortedBy Entry.point b := h.sorted b (by rw [hb]; simp)
  have hperm := insertFront_perm Entry.point ⟨key, value⟩ b
  have hcnt := h.count
  let b' := insertFront Entry.point ⟨key, value⟩ b
  let ch' : ConsistentHash α := { ch with buckets := pre ++ b' :: post, entriesCnt := ch.entriesCnt + 1 }
  have hwf : ch'.WellFormed := h.setBucket hb (sortedBy_insertFront _ _ b hsb) (fun e he => by
    rcases (mem_insertFront _).1 he with rfl | he
    · exact hpre.symm
    · exact (h.index_of_mem hb).2.1 e he) _ (by rw [hperm.length_eq, List.length_cons]; push_cast; ring)
  refine ⟨ch', ?_, hwf, rfl, rfl, fun p => ?_⟩
  · rw [ConsistentHash.addEntryWithKey, getBucketNum_of_pos h.orderPos, ok_bind, hbucket, ok_bind]
    dsimp only
    rw [ffAssert_of (by omega), hb, ← hpre, set_append_cons]
    rfl
  · by_cases hp : p = key
    · subst hp
      rw [if_pos rfl, hwf.atKey_entries rfl hpre, h.atKey_entries hb hpre]
      exact atKey_insertFront_self Entry.point ⟨p, value⟩ b hsb
    · have hne : Entry.point (⟨key, value⟩ : Entry α) ≠ p.toNat := fun he => hp (UInt32.toNat_inj.1 he.symm)
      have hins := atKey_insertFront_ne Entry.point hne b
      unfold atKey at hins ⊢
      rw [if_neg hp, List.nil_append, entries_split ch hb, entries_split ch' rfl]
      simp only [List.filter_append]
      rw [hins]

/-- **`remove_entry_with_key` succeeds when something lies at its point, and pops it**, leaving the others. -/
theorem WellFormed.removeEntryWithKey {ch : ConsistentHash α} (h : ch.WellFormed) (key : UInt32)
    (hmem : atKey Entry.point key.toNat ch.entries ≠ []) :
    ∃ ch', ch.removeEntryWithKey key = .ok ch' ∧ ch'.WellFormed ∧ ch'.uniformFactor = ch.uniformFactor ∧
      ch'.order = ch.order ∧ ∀ p : UInt32, atKey Entry.point p.toNat ch'.entries =
        (atKey Entry.point p.toNat ch.entries).drop (if p = key then 1 else 0) := by
  obtain ⟨pre, b, post, hb, hpre, hbucket⟩ := h.bucket_eq key
  have hsb : SortedBy Entry.point b := h.sorted b (by rw [hb]; simp)
  rw [h.atKey_entries hb hpre] at hmem
  obtain ⟨e, he⟩ := List.exists_mem_of_ne_nil _ hmem
  obtain ⟨heb, hek⟩ := List.mem_filter.1 he
  obtain ⟨b', hb'⟩ := removeFirst_isSome Entry.point (of_decide_eq_true hek) heb
  have hlen := length_removeFirst Entry.point hb'
  have hcnt := h.count
  rw [entries_split ch hb] at hcnt
  simp only [List.length_append] at hcnt
  let ch' : ConsistentHash α := { ch with buckets := pre ++ b' :: post, entriesCnt := ch.entriesCnt - 1 }
  have hwf : ch'.WellFormed := h.setBucket hb (sortedBy_removeFirst _ hb' hsb) (fun e he =>
    (h.index_of_mem hb).2.1 e ((removeFirst_sublist _ hb').subset he)) _ (by rw [hlen]; push_cast; ring)
  refine ⟨ch', ?_, hwf, rfl, rfl, fun p => ?_⟩
  · rw [ConsistentHash.removeEntryWithKey, getBucketNum_of_pos h.orderPos, ok_bind, hbucket, ok_bind, hb']
    dsimp only
    rw [ffAssert_of (by omega), hb, ← hpre, set_append_cons]
    rfl
  · by_cases hp : p = key
    · subst hp
      rw [if_pos rfl, hwf.atKey_entries rfl hpre, h.atKey_entries hb hpre, List.drop_one]
      exact atKey_removeFirst_self Entry.point hb'
    · have hne : p.toNat ≠ key.toNat := fun he => hp (UInt32.toNat_inj.1 he)
      have hrem := atKey_removeFirst_ne Entry.point hne hb'
      unfold atKey at hrem ⊢
      rw [if_neg hp, List.drop_zero, entries_split ch hb, entries_split ch' rfl]
      simp only [List.filter_append]
      rw [hrem]

/-! ## The points of a key -/

/-- **Adding at a list of points** pushes the value on each stack as often as its point occurs. -/
theorem WellFormed.addPoints (value : α) : ∀ (ps : List UInt32) {ch : ConsistentHash α}, ch.WellFormed →
    ∃ ch', ps.foldlM (fun ch p => ch.addEntryWithKey p value) ch = .ok ch' ∧ ch'.WellFormed ∧
      ch'.uniformFactor = ch.uniformFactor ∧ ch'.order = ch.order ∧
      ∀ p : UInt32, atKey Entry.point p.toNat ch'.entries =
        List.replicate (ps.count p) ⟨p, value⟩ ++ atKey Entry.point p.toNat ch.entries
  | [], ch, h => ⟨ch, rfl, h, rfl, rfl, fun p => rfl⟩
  | p₀ :: ps, ch, h => by
    obtain ⟨ch₁, h₁, hwf₁, huf₁, hor₁, hst₁⟩ := h.addEntryWithKey p₀ value
    obtain ⟨ch₂, h₂, hwf₂, huf₂, hor₂, hst₂⟩ := WellFormed.addPoints value ps hwf₁
    refine ⟨ch₂, ?_, hwf₂, huf₂.trans huf₁, hor₂.trans hor₁, fun p => ?_⟩
    · rw [List.foldlM_cons, h₁, ok_bind, h₂]
    · rw [hst₂ p, hst₁ p, ← List.append_assoc]
      by_cases hp : p = p₀
      · subst hp
        rw [if_pos rfl, List.count_cons_self, List.replicate_succ']
      · rw [if_neg hp, List.append_nil, List.count_cons_of_ne (Ne.symm hp)]

/-- **Removing at a list of points** succeeds when each stack is high enough, and pops each stack as often as its
point occurs. -/
theorem WellFormed.removePoints : ∀ (ps : List UInt32) {ch : ConsistentHash α}, ch.WellFormed →
    (∀ p : UInt32, ps.count p ≤ (atKey Entry.point p.toNat ch.entries).length) →
    ∃ ch', ps.foldlM (fun ch p => ch.removeEntryWithKey p) ch = .ok ch' ∧ ch'.WellFormed ∧
      ch'.uniformFactor = ch.uniformFactor ∧ ch'.order = ch.order ∧
      ∀ p : UInt32, atKey Entry.point p.toNat ch'.entries = (atKey Entry.point p.toNat ch.entries).drop (ps.count p)
  | [], ch, h, _ => ⟨ch, rfl, h, rfl, rfl, fun p => rfl⟩
  | p₀ :: ps, ch, h, hcnt => by
    have h0 : atKey Entry.point p₀.toNat ch.entries ≠ [] := by
      intro hnil
      have := hcnt p₀
      rw [hnil, List.count_cons_self, List.length_nil] at this
      omega
    obtain ⟨ch₁, h₁, hwf₁, huf₁, hor₁, hst₁⟩ := h.removeEntryWithKey p₀ h0
    obtain ⟨ch₂, h₂, hwf₂, huf₂, hor₂, hst₂⟩ := WellFormed.removePoints ps hwf₁ (fun p => by
      have := hcnt p
      rw [hst₁ p, List.length_drop]
      by_cases hp : p = p₀
      · subst hp; rw [List.count_cons_self] at this; rw [if_pos rfl]; omega
      · rw [List.count_cons_of_ne (Ne.symm hp)] at this; rw [if_neg hp]; omega)
    refine ⟨ch₂, ?_, hwf₂, huf₂.trans huf₁, hor₂.trans hor₁, fun p => ?_⟩
    · rw [List.foldlM_cons, h₁, ok_bind, h₂]
    · rw [hst₂ p, hst₁ p, List.drop_drop]
      by_cases hp : p = p₀
      · subst hp; rw [if_pos rfl, List.count_cons_self, Nat.add_comm]
      · rw [if_neg hp, List.count_cons_of_ne (Ne.symm hp), Nat.zero_add]

/-- A removal that succeeds found something at its point. -/
theorem WellFormed.atKey_ne_nil {ch ch' : ConsistentHash α} (h : ch.WellFormed) {key : UInt32}
    (hr : ch.removeEntryWithKey key = .ok ch') : atKey Entry.point key.toNat ch.entries ≠ [] := by
  intro h0
  obtain ⟨pre, b, post, hb, hpre, hbucket⟩ := h.bucket_eq key
  rw [h.atKey_entries hb hpre] at h0
  rw [ConsistentHash.removeEntryWithKey, getBucketNum_of_pos h.orderPos, ok_bind, hbucket, ok_bind] at hr
  cases hrem : removeFirst Entry.point key.toNat b with
  | none => rw [hrem] at hr; cases hr
  | some b' =>
    obtain ⟨pre', y, post', rfl, -, hy, -⟩ := removeFirst_eq_some Entry.point hrem
    simp [atKey, hy] at h0

/-- A removal at points that succeeds keeps the table well formed, whatever it removed. -/
theorem WellFormed.of_removePoints : ∀ (ps : List UInt32) {ch ch' : ConsistentHash α}, ch.WellFormed →
    ps.foldlM (fun ch p => ch.removeEntryWithKey p) ch = .ok ch' → ch'.WellFormed
  | [], ch, ch', h, hr => by cases hr; exact h
  | p₀ :: ps, ch, ch', h, hr => by
    rw [List.foldlM_cons] at hr
    obtain ⟨ch₁, h₁, hr⟩ := bind_eq_ok hr
    obtain ⟨ch₁', h₁', hwf₁, -⟩ := h.removeEntryWithKey p₀ (h.atKey_ne_nil h₁)
    rw [h₁] at h₁'
    cases h₁'
    exact WellFormed.of_removePoints ps hwf₁ hr

theorem foldl_pred {β : Type} : ∀ (l : List β) (n : Int), l.foldl (fun cnt _ => cnt - 1) n = n - l.length
  | [], n => by simp
  | _ :: l, n => by rw [List.foldl_cons, foldl_pred l]; push_cast [List.length_cons]; ring

theorem foldl_flatten_pred {β : Type} : ∀ (L : List (List β)) (n : Int),
    L.foldl (fun cnt b => b.foldl (fun cnt _ => cnt - 1) cnt) n = n - L.flatten.length
  | [], n => by simp
  | b :: L, n => by
    rw [List.foldl_cons, foldl_flatten_pred L, foldl_pred, List.flatten_cons, List.length_append]
    push_cast
    ring

theorem flatten_map_nil {β γ : Type} (L : List β) : (L.map (fun _ => ([] : List γ))).flatten = [] :=
  List.flatten_eq_nil_iff.2 (fun l hl => by obtain ⟨-, -, rfl⟩ := List.mem_map.1 hl; rfl)

/-- **`mrpc_consistent_hash_remove_all_entries` succeeds and leaves no entry.** -/
theorem WellFormed.removeAllEntries {ch : ConsistentHash α} (h : ch.WellFormed) :
    ∃ ch', ch.removeAllEntries = .ok ch' ∧ ch'.WellFormed ∧ ch'.uniformFactor = ch.uniformFactor ∧
      ch'.order = ch.order ∧ ch'.entries = [] := by
  refine ⟨{ ch with buckets := ch.buckets.map (fun _ => []), entriesCnt := 0 }, ?_,
    ⟨h.orderPos, h.orderLe, ?_, ?_, ?_, ?_⟩, rfl, rfl, flatten_map_nil ch.buckets⟩
  · unfold ConsistentHash.removeAllEntries
    dsimp only
    rw [ffAssert_of (by rw [foldl_flatten_pred, h.count, entries, sub_self])]
    rfl
  · rw [List.length_map]; exact h.length
  · intro i b hi e he
    rw [List.getElem?_map] at hi
    obtain ⟨-, -, rfl⟩ := Option.map_eq_some_iff.1 hi
    cases he
  · intro b hb
    obtain ⟨-, -, rfl⟩ := List.mem_map.1 hb
    exact List.Pairwise.nil
  · rw [entries, flatten_map_nil]; rfl

/-- **Every configuration of the documented ranges is admitted.** -/
theorem create_eq {order uniformFactor : Nat} (horder : order ≤ 20) (hfactor : 1 ≤ uniformFactor)
    (hfactor' : uniformFactor ≤ 255) :
    create order uniformFactor =
      .ok (⟨List.replicate (2 ^ order) [], order, uniformFactor, 0⟩ : ConsistentHash α) := by
  unfold create
  rw [ffAssert_of horder, ok_bind, ffAssert_of (show 0 < uniformFactor by omega), ok_bind,
    ffAssert_of (show uniformFactor < 0x100 by omega), ok_bind]
  rfl

theorem wellFormed_create {order uniformFactor : Nat} (horder : 1 ≤ order) {ch : ConsistentHash α}
    (h : create order uniformFactor = .ok ch) :
    ch.WellFormed ∧ ch.order = order ∧ ch.uniformFactor = uniformFactor ∧ ch.entries = [] := by
  unfold create at h
  obtain ⟨_, h1, h⟩ := bind_eq_ok h
  obtain ⟨_, _, h⟩ := bind_eq_ok h
  obtain ⟨_, _, h⟩ := bind_eq_ok h
  cases h
  have hent : (⟨List.replicate (2 ^ order) [], order, uniformFactor, 0⟩ : ConsistentHash α).entries = [] :=
    List.flatten_eq_nil_iff.2 (fun l hl => (List.mem_replicate.1 hl).2)
  refine ⟨⟨horder, of_ffAssert h1, List.length_replicate, ?_, ?_, by rw [hent]; rfl⟩, rfl, rfl, hent⟩
  · intro i b hi e he
    rw [(List.mem_replicate.1 (List.mem_of_getElem? hi)).2] at he
    cases he
  · intro b hb
    rw [(List.mem_replicate.1 hb).2]
    exact List.Pairwise.nil

/-! ## Runs -/

/-- A change of the table by its owner. -/
inductive Change (α : Type) where
  | addEntry (key : UInt32) (value : α)
  | removeEntry (key : UInt32)
  | removeAllEntries

def apply (ch : ConsistentHash α) : Change α → Except Fault (ConsistentHash α)
  | .addEntry key value => ch.addEntry ffHashUint32 key value
  | .removeEntry key => ch.removeEntry ffHashUint32 key
  | .removeAllEntries => ch.removeAllEntries

/-- A table of the given configuration after a list of changes. -/
def run (order uniformFactor : Nat) (changes : List (Change α)) : Except Fault (ConsistentHash α) := do
  let ch ← create order uniformFactor
  changes.foldlM (apply ffHashUint32) ch

theorem WellFormed.apply {ch ch' : ConsistentHash α} (h : ch.WellFormed) (c : Change α)
    (hc : ch.apply ffHashUint32 c = .ok ch') : ch'.WellFormed := by
  cases c with
  | addEntry key value =>
    obtain ⟨ch₁, h₁, hwf, -⟩ := h.addPoints value (points ffHashUint32 ch.uniformFactor key)
    have he : Except.ok ch₁ = Except.ok ch' := h₁.symm.trans hc
    cases he
    exact hwf
  | removeEntry key =>
    obtain ⟨_, _, hc⟩ := bind_eq_ok (show _ >>= _ = _ from hc)
    exact h.of_removePoints _ hc
  | removeAllEntries =>
    obtain ⟨ch₁, h₁, hwf, -⟩ := h.removeAllEntries
    have he : Except.ok ch₁ = Except.ok ch' := h₁.symm.trans hc
    cases he
    exact hwf

theorem WellFormed.foldlM_apply : ∀ (changes : List (Change α)) {ch ch' : ConsistentHash α}, ch.WellFormed →
    changes.foldlM (ConsistentHash.apply ffHashUint32) ch = .ok ch' → ch'.WellFormed
  | [], ch, ch', h, hr => by cases hr; exact h
  | c :: changes, ch, ch', h, hr => by
    rw [List.foldlM_cons] at hr
    obtain ⟨ch₁, h₁, hr⟩ := bind_eq_ok hr
    exact WellFormed.foldlM_apply changes (h.apply ffHashUint32 c h₁) hr

/-- **Every table a run reaches is well formed.** -/
theorem wellFormed_run {order uniformFactor : Nat} (horder : 1 ≤ order) (changes : List (Change α))
    {ch : ConsistentHash α} (h : run ffHashUint32 order uniformFactor changes = .ok ch) : ch.WellFormed := by
  obtain ⟨ch₀, h₀, hr⟩ := bind_eq_ok h
  exact (wellFormed_create horder h₀).1.foldlM_apply ffHashUint32 changes hr

/-! ## Lookup -/

/-- **The search over a stretch of buckets** finds the first entry at or after the key there, or goes on behind it. -/
theorem getEntryLoop_stretch {ch : ConsistentHash α} (hlen : ch.buckets.length = 2 ^ ch.order) (key : Nat) :
    ∀ (seg pre post : List (List (Entry α))) (turns : Nat), ch.buckets = pre ++ (seg ++ post) →
      ch.getEntryLoop (turns + seg.length) pre.length key =
        match seg.flatten.find? (fun e => decide (key ≤ e.point)) with
        | some e => .ok e.value
        | none => if seg ≠ [] ∧ post = [] then ch.getEntryLoop turns 0 0
          else ch.getEntryLoop turns (pre.length + seg.length) key
  | [], pre, post, turns, _ => by simp
  | b :: seg, pre, post, turns, hb => by
    have hbucket : ch.bucket pre.length = .ok b := by simp [bucket, hb]
    have hbl := congrArg List.length hb
    simp only [List.length_append, List.length_cons, hlen] at hbl
    rw [List.length_cons, ← Nat.add_assoc, getEntryLoop, hbucket, ok_bind, List.flatten_cons, List.find?_append]
    cases hf : b.find? (fun e => decide (key ≤ e.point)) with
    | some e => rfl
    | none =>
      dsimp only
      rw [Option.none_or]
      by_cases hlast : pre.length + 1 = 2 ^ ch.order
      · have hs : seg = [] := List.eq_nil_of_length_eq_zero (by omega)
        have hp : post = [] := List.eq_nil_of_length_eq_zero (by omega)
        subst hs hp
        simp [hlast]
      · have ih := getEntryLoop_stretch hlen key seg (pre ++ [b]) post turns (by rw [hb]; simp)
        rw [List.length_append, List.length_singleton] at ih
        rw [if_neg hlast, ih]
        cases seg with
        | nil =>
          have hp : post ≠ [] := by rintro rfl; simp at hbl; omega
          simp [hp]
        | cons b' seg => simp [Nat.add_assoc, Nat.add_comm 1]

theorem find?_zero_le (l : List (Entry α)) : l.find? (fun e => decide (0 ≤ e.point)) = l.head? := by
  cases l <;> simp

/-- **What `mrpc_consistent_hash_get_entry` returns**: the first entry of the ring at or after the hashed key; else the
first entry before the bucket of the hashed key; else the run ends in `ff_assert(0)`. -/
theorem WellFormed.getEntry_eq {ch : ConsistentHash α} (h : ch.WellFormed) (hpos : ch.entriesCnt > 0) (key : UInt32) :
    ch.getEntry ffHashUint32 key =
      match ch.entries.find? (fun e => decide ((ffHashUint32 0 [key]).toNat ≤ e.point)) with
      | some e => .ok e.value
      | none => match (ch.buckets.take ((ffHashUint32 0 [key]).toNat >>> (32 - ch.order))).flatten.head? with
        | some e => .ok e.value
        | none => .error .assertion := by
  unfold getEntry
  rw [ffAssert_of hpos, ok_bind]
  dsimp only
  generalize ffHashUint32 0 [key] = hkey
  rw [getBucketNum_of_pos h.orderPos, ok_bind]
  obtain ⟨pre, b, post, hb, hpre, -⟩ := h.bucket_eq hkey
  have htake : ch.buckets.take pre.length = pre := by rw [hb, List.take_left]
  have hturns : 2 ^ ch.order = pre.length + (b :: post).length := by
    rw [← h.length, hb, List.length_append]
  -- the first stretch runs from the key's bucket to the last, the second from bucket 0 up to the key's bucket
  have h1 := getEntryLoop_stretch h.length hkey.toNat (b :: post) pre [] pre.length (by rw [hb, List.append_nil])
  have h2 := getEntryLoop_stretch h.length 0 pre [] (b :: post) 0 (by rw [hb, List.nil_append])
  rw [Nat.zero_add, List.length_nil, find?_zero_le] at h2
  rw [← hpre, hturns, h1, htake, entries, hb, List.flatten_append, List.find?_append]
  have hnone : pre.flatten.find? (fun e => decide (hkey.toNat ≤ e.point)) = none := by
    rw [List.find?_eq_none]
    intro e he hle
    have hlt := (h.index_of_mem hb).1 e he
    have hle' := Nat.div_le_div_right (c := 2 ^ (32 - ch.order)) (of_decide_eq_true hle)
    rw [hpre, Nat.shiftRight_eq_div_pow, Nat.shiftRight_eq_div_pow] at hlt
    omega
  rw [hnone, Option.none_or]
  cases (b :: post).flatten.find? (fun e => decide (hkey.toNat ≤ e.point)) with
  | some e => rfl
  | none =>
    simp only [ne_eq, reduceCtorEq, not_false_eq_true, and_self, if_true]
    rw [h2]
    cases pre.flatten.head? with
    | some e => rfl
    | none => simp [getEntryLoop]

/-- A lookup that returns returns the value of an entry. -/
theorem WellFormed.mem_of_getEntry {ch : ConsistentHash α} (h : ch.WellFormed) (hpos : ch.entriesCnt > 0)
    {key : UInt32} {value : α} (hget : ch.getEntry ffHashUint32 key = .ok value) :
    ∃ e ∈ ch.entries, e.value = value := by
  rw [h.getEntry_eq ffHashUint32 hpos key] at hget
  split at hget
  · rename_i e he
    cases hget
    exact ⟨e, List.mem_of_find?_eq_some he, rfl⟩
  · split at hget
    · rename_i e he
      cases hget
      obtain ⟨b, hb, he⟩ := List.mem_flatten.1 (List.mem_of_head? he)
      exact ⟨e, List.mem_flatten.2 ⟨b, List.mem_of_mem_take hb, he⟩, rfl⟩
    · cases hget

/-- The lookup of `key` finds the cyclic successor of its hash, and so never reaches `ff_assert(0)`. -/
def findsSuccessor (ch : ConsistentHash α) (key : UInt32) : Prop :=
  ∃ e, IsCyclicSuccessor Entry.point ch.entries (ffHashUint32 0 [key]).toNat e ∧
    ch.getEntry ffHashUint32 key = .ok e.value

/-- Some entry lies at or after the hashed key, or in another bucket than the hashed key's. -/
def outsideStart (ch : ConsistentHash α) (key : UInt32) : Prop :=
  ∃ e ∈ ch.entries, (ffHashUint32 0 [key]).toNat ≤ e.point ∨
    e.point >>> (32 - ch.order) ≠ (ffHashUint32 0 [key]).toNat >>> (32 - ch.order)

/-- **In every table a run reaches, the lookup finds the cyclic successor exactly when not every entry lies before the
hashed key in its own bucket**: the search does not come back to the bucket it started in. -/
theorem findsSuccessor_iff (order uniformFactor : Nat) (horder : 1 ≤ order) (changes : List (Change α))
    (ch : ConsistentHash α) (hrun : run ffHashUint32 order uniformFactor changes = .ok ch) (hpos : ch.entriesCnt > 0)
    (key : UInt32) : ch.findsSuccessor ffHashUint32 key ↔ ch.outsideStart ffHashUint32 key := by
  have h := wellFormed_run ffHashUint32 horder changes hrun
  have hget := h.getEntry_eq ffHashUint32 hpos key
  unfold findsSuccessor outsideStart
  generalize ffHashUint32 0 [key] = hkey at hget ⊢
  obtain ⟨pre, b, post, hb, hpre, -⟩ := h.bucket_eq hkey
  rw [← hpre, hb, List.take_left] at hget
  obtain ⟨hin, -, -⟩ := h.index_of_mem hb
  cases hf : ch.entries.find? (fun e => decide (hkey.toNat ≤ e.point)) with
  | some e =>
    rw [hf] at hget
    have hle : hkey.toNat ≤ e.point := by simpa using List.find?_some hf
    exact iff_of_true ⟨e, isCyclicSuccessor_of_find _ h.sorted_entries hf, hget⟩
      ⟨e, List.mem_of_find?_eq_some hf, Or.inl hle⟩
  | none =>
    rw [hf] at hget
    have hlt : ∀ e ∈ ch.entries, e.point < hkey.toNat := fun e he => by
      simpa using List.find?_eq_none.1 hf e he
    cases hh : pre.flatten.head? with
    | some e =>
      rw [hh] at hget
      have hmem : e ∈ pre.flatten := List.mem_of_head? hh
      have hhead : ch.entries.head? = some e := by rw [entries_split ch hb, List.head?_append, hh]; rfl
      refine iff_of_true ⟨e, isCyclicSuccessor_of_head _ h.sorted_entries hlt hhead, hget⟩
        ⟨e, List.mem_of_head? hhead, Or.inr ?_⟩
      have := hin e hmem
      omega
    | none =>
      rw [hh] at hget
      refine iff_of_false (fun ⟨e, _, he⟩ => by rw [hget] at he; cases he) ?_
      -- nothing lies before the starting bucket and nothing at or after the key: all is in the starting bucket
      rintro ⟨e, he, hle | hne⟩
      · exact absurd hle (not_le.2 (hlt e he))
      · have hle' := Nat.div_le_div_right (c := 2 ^ (32 - ch.order)) (hlt e he).le
        rw [← Nat.shiftRight_eq_div_pow, ← Nat.shiftRight_eq_div_pow] at hle'
        rw [List.head?_eq_none_iff] at hh
        rw [entries_split ch hb, hh, List.nil_append] at he
        obtain ⟨-, hb2, hb3⟩ := h.index_of_mem hb
        rcases List.mem_append.1 he with he | he
        · exact hne (by rw [hb2 e he, hpre])
        · have := hb3 e he
          omega

/-- A hash that sends the word `7` to the point `5` and every other word to the point `6`. -/
def hashFiveSix : UInt32 → List UInt32 → UInt32 := fun _ words => if words = [7] then 5 else 6

/-- The table of order 1 with the key `7` alone, at the point `5`. -/
def loneEntry : ConsistentHash Nat := ⟨[[⟨5, 70⟩], []], 1, 1, 1⟩

theorem findsSuccessor_loneEntry :
    loneEntry.findsSuccessor hashFiveSix 7 ↔ loneEntry.outsideStart hashFiveSix 7 :=
  findsSuccessor_iff hashFiveSix 1 1 (by decide) [.addEntry 7 70] loneEntry (by decide) (by decide) 7

/-- One entry at point `5` and a request that hashes to `6`, in the same bucket: the lookup ends in `ff_assert(0)`. -/
theorem not_findsSuccessor_loneEntry :
    run hashFiveSix 1 1 [.addEntry 7 70] = .ok loneEntry ∧ loneEntry.entriesCnt > 0 ∧
      loneEntry.getEntry hashFiveSix 8 = .error .assertion ∧ ¬ loneEntry.findsSuccessor hashFiveSix 8 := by
  have hget : loneEntry.getEntry hashFiveSix 8 = .error .assertion := by decide
  refine ⟨by decide, by decide, hget, ?_⟩
  rintro ⟨e, -, he⟩
  rw [hget] at he
  cases he

end ConsistentHash
end Mrpc
