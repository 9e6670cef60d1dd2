import MultiplexingRpc.ConsistentHash
import MultiplexingRpc.Lib.Run
/-!
# Ring — what a history of changes leaves on the ring

The owner of a consistent hash adds and removes keys and empties the table.  What is present after its changes is a list
of keys with their values (`note`); the ring holds one entry for each point of each key present
(`represents_of_exec`), a lookup is a search in the ring alone (`found`), and so a change moves only the requests of the
key it is about (`disruption_minimal`); removing the key added last restores the table (`removeEntry_addEntry`).
-/
namespace Mrpc
namespace ConsistentHash

open KeyedList

variable {α : Type} (ffHashUint32 : UInt32 → List UInt32 → UInt32)

/-! ## The keys present -/

/-- The keys present, with their values, the latest first.  A key is removed only while it has been added more often
than removed. -/
def note (present : List (UInt32 × α)) : Change α → Option (List (UInt32 × α))
  | .addEntry key value => some ((key, value) :: present)
  | .removeEntry key => if key ∈ present.map Prod.fst then some (present.eraseP (fun c => c.1 == key)) else none
  | .removeAllEntries => some []

/-- The points of the keys present, each as often as its key is present and yields it. -/
def pointsOf (uniformFactor : Nat) (present : List (UInt32 × α)) : List UInt32 :=
  present.flatMap (fun c => points ffHashUint32 uniformFactor c.1)

/-- **The representation invariant**, for the keys present. -/
structure Represents (ch : ConsistentHash α) (order uniformFactor : Nat) (present : List (UInt32 × α)) : Prop where
  place : ∀ i b, ch.buckets[i]? = some b → ∀ e ∈ b, e.key.toNat >>> (32 - order) = i
  sorted : ch.buckets.flatten.Pairwise (fun a b => a.key ≤ b.key)
  count : ch.entriesCnt = ch.buckets.flatten.length
  points : (ch.buckets.flatten.map Entry.key).Perm (pointsOf ffHashUint32 uniformFactor present)

/-- The removed key splits the list of those present at its latest addition. -/
theorem note_removeEntry {present present' : List (UInt32 × α)} {key : UInt32}
    (h : note present (.removeEntry key) = some present') :
    ∃ newer value older, present = newer ++ (key, value) :: older ∧ present' = newer ++ older ∧
      ∀ c ∈ newer, c.1 ≠ key := by
  dsimp only [note] at h
  split at h
  · rename_i hmem
    cases h
    obtain ⟨c, hc, hkey⟩ := List.mem_map.1 hmem
    obtain ⟨⟨k, v⟩, newer, older, hnewer, hk, h1, h2⟩ := List.exists_of_eraseP (p := fun c => c.1 == key) hc
      (beq_iff_eq.2 hkey)
    have hk : k = key := eq_of_beq hk
    subst hk
    exact ⟨newer, v, older, h1, h2, fun c hc heq => hnewer c hc (beq_iff_eq.2 heq)⟩
  · cases h

theorem pointsOf_append_cons (uniformFactor : Nat) (newer older : List (UInt32 × α)) (c : UInt32 × α) :
    (pointsOf ffHashUint32 uniformFactor (newer ++ c :: older)).Perm
      (points ffHashUint32 uniformFactor c.1 ++ pointsOf ffHashUint32 uniformFactor (newer ++ older)) := by
  unfold pointsOf
  rw [List.flatMap_append, List.flatMap_append, List.flatMap_cons, ← List.append_assoc, ← List.append_assoc]
  exact List.perm_append_comm.append_right _

/-! ## Stacks -/

/-- The stack at a point is as high as the point occurs among the entries' keys. -/
theorem count_key (l : List (Entry α)) (p : UInt32) :
    (l.map Entry.key).count p = (atKey Entry.point p.toNat l).length := by
  rw [List.count_eq_countP, List.countP_map, atKey, List.countP_eq_length_filter]
  congr 1
  refine List.filter_congr (fun e _ => ?_)
  simp only [Function.comp_apply, Entry.point, UInt32.toNat_inj, beq_eq_decide]

/-- A ring is determined by its stacks. -/
theorem WellFormed.entries_eq {ch : ConsistentHash α} (h : ch.WellFormed) {l : List (Entry α)}
    (hs : SortedBy Entry.point l)
    (hst : ∀ p : UInt32, atKey Entry.point p.toNat ch.entries = atKey Entry.point p.toNat l) :
    ch.entries = l := by
  refine eq_of_atKey Entry.point h.sorted_entries hs (fun k => ?_)
  by_cases hk : k < 2 ^ 32
  · have hp := hst (UInt32.ofNat k)
    rwa [UInt32.toNat_ofNat_of_lt' hk] at hp
  · -- no entry has so large a point
    have hnil : ∀ l : List (Entry α), atKey Entry.point k l = [] := fun l =>
      List.filter_eq_nil_iff.2 (fun e _ he => hk (of_decide_eq_true he ▸ e.key.toNat_lt))
    rw [hnil, hnil]

/-- The stack that keys with the given points leave at a point, the latest key's entries first. -/
def stack {κ : Type} (pts : κ → List UInt32) (present : List (κ × α)) (p : UInt32) : List (Entry α) :=
  present.flatMap (fun c => List.replicate ((pts c.1).count p) ⟨p, c.2⟩)

section
variable {κ : Type} (pts : κ → List UInt32)

theorem stack_cons (c : κ × α) (present : List (κ × α)) (p : UInt32) :
    stack pts (c :: present) p = List.replicate ((pts c.1).count p) ⟨p, c.2⟩ ++ stack pts present p := List.flatMap_cons

theorem stack_append (l₁ l₂ : List (κ × α)) (p : UInt32) : stack pts (l₁ ++ l₂) p = stack pts l₁ p ++ stack pts l₂ p :=
  List.flatMap_append

/-- Only a key with the point puts entries there. -/
theorem stack_eq_nil {present : List (κ × α)} {p : UInt32} (h : ∀ c ∈ present, p ∉ pts c.1) :
    stack pts present p = [] := by
  refine List.flatMap_eq_nil_iff.2 (fun c hc => ?_)
  rw [List.count_eq_zero.2 (h c hc)]
  rfl

/-- Dropping a key's entries from the stacks it is on top of. -/
theorem drop_stack {newer older : List (κ × α)} {key : κ} {value : α} (p : UInt32)
    (happart : ∀ c ∈ newer, List.Disjoint (pts key) (pts c.1)) :
    (stack pts (newer ++ (key, value) :: older) p).drop ((pts key).count p) = stack pts (newer ++ older) p := by
  rw [stack_append, stack_append, stack_cons]
  by_cases hp : p ∈ pts key
  · -- a point of the key: no later key has entries there
    have hnil := stack_eq_nil pts (fun c hc hpc => happart c hc hp hpc)
    rw [hnil, List.nil_append, List.nil_append, List.drop_left' List.length_replicate]
  · rw [List.count_eq_zero.2 hp]
    rfl

end

theorem WellFormed.entries_addEntryWithKey {ch ch' : ConsistentHash α} (h : ch.WellFormed) {p : UInt32} {value : α}
    (ha : ch.addEntryWithKey p value = .ok ch') :
    ch'.WellFormed ∧ ch'.order = ch.order ∧ ch'.entries = insertFront Entry.point ⟨p, value⟩ ch.entries := by
  obtain ⟨ch₁, h₁, hwf, -, hor, hst⟩ := h.addEntryWithKey p value
  rw [ha] at h₁
  cases h₁
  refine ⟨hwf, hor, hwf.entries_eq (sortedBy_insertFront _ _ _ h.sorted_entries) (fun p' => ?_)⟩
  rw [hst p']
  by_cases hp : p' = p
  · subst hp
    rw [if_pos rfl]
    exact (atKey_insertFront_self Entry.point ⟨p', value⟩ _ h.sorted_entries).symm
  · have hne : Entry.point (⟨p, value⟩ : Entry α) ≠ p'.toNat := fun he => hp (UInt32.toNat_inj.1 he.symm)
    rw [if_neg hp, atKey_insertFront_ne Entry.point hne]
    rfl

theorem WellFormed.entries_removeEntryWithKey {ch ch' : ConsistentHash α} (h : ch.WellFormed) {p : UInt32}
    (hr : ch.removeEntryWithKey p = .ok ch') :
    ch'.WellFormed ∧ ch'.order = ch.order ∧ removeFirst Entry.point p.toNat ch.entries = some ch'.entries := by
  have hmem := h.atKey_ne_nil hr
  obtain ⟨ch₁, h₁, hwf, -, hor, hst⟩ := h.removeEntryWithKey p hmem
  rw [hr] at h₁
  cases h₁
  obtain ⟨e, he⟩ := List.exists_mem_of_ne_nil _ hmem
  obtain ⟨hel, hek⟩ := List.mem_filter.1 he
  obtain ⟨l, hl⟩ := removeFirst_isSome Entry.point (of_decide_eq_true hek) hel
  have hent : ch'.entries = l := hwf.entries_eq (sortedBy_removeFirst _ hl h.sorted_entries) (fun p' => by
    rw [hst p']
    by_cases hp : p' = p
    · subst hp
      rw [if_pos rfl, atKey_removeFirst_self Entry.point hl, List.drop_one]
    · rw [if_neg hp, atKey_removeFirst_ne Entry.point (fun he => hp (UInt32.toNat_inj.1 he)) hl, List.drop_zero])
  exact ⟨hwf, hor, by rw [hl, hent]⟩

/-- A table with an entry at some point is not empty. -/
theorem WellFormed.entriesCnt_pos {ch : ConsistentHash α} (h : ch.WellFormed) {p : UInt32}
    (hp : 0 < (atKey Entry.point p.toNat ch.entries).length) : ch.entriesCnt > 0 := by
  have hle := List.length_filter_le (fun e : Entry α => e.point = p.toNat) ch.entries
  have hcnt := h.count
  unfold atKey at hp
  omega

/-- Every key has a point. -/
theorem mem_points {uniformFactor : Nat} (hfactor : 1 ≤ uniformFactor) (key : UInt32) :
    ffHashUint32 (UInt32.ofNat 0) [key] ∈ points ffHashUint32 uniformFactor key :=
  List.mem_map.2 ⟨0, List.mem_range.2 hfactor, rfl⟩

/-! ## The representation invariant -/

/-- What the invariant says, in terms of stacks, with what the operations need. -/
structure Reflects (ch : ConsistentHash α) (order uniformFactor : Nat) (present : List (UInt32 × α)) : Prop where
  wellFormed : ch.WellFormed
  order_eq : ch.order = order
  uniformFactor_eq : ch.uniformFactor = uniformFactor
  height : ∀ p : UInt32,
    (atKey Entry.point p.toNat ch.entries).length = (pointsOf ffHashUint32 uniformFactor present).count p

theorem Reflects.represents {ch : ConsistentHash α} {order uniformFactor : Nat} {present : List (UInt32 × α)}
    (h : ch.Reflects ffHashUint32 order uniformFactor present) :
    ch.Represents ffHashUint32 order uniformFactor present where
  place := by
    intro i b hi e he
    have hp := h.wellFormed.place i b hi e he
    rwa [h.order_eq] at hp
  sorted := h.wellFormed.sorted_entries
  count := h.wellFormed.count
  points := List.perm_iff_count.2 (fun p => (count_key _ p).trans (h.height p))

theorem reflects_create {order uniformFactor : Nat} (horder : 1 ≤ order) (horder' : order ≤ 20)
    (hfactor : 1 ≤ uniformFactor) (hfactor' : uniformFactor ≤ 255) :
    ∃ ch : ConsistentHash α, create order uniformFactor = .ok ch ∧ ch.Reflects ffHashUint32 order uniformFactor [] := by
  have hcreate := create_eq (α := α) horder' hfactor hfactor'
  obtain ⟨hwf, hor, huf, hent⟩ := wellFormed_create horder hcreate
  exact ⟨_, hcreate, hwf, hor, huf, fun p => by rw [hent]; rfl⟩

/-- **One change keeps the invariant**, and none of its assertions fails. -/
theorem Reflects.apply {ch : ConsistentHash α} {order uniformFactor : Nat} {present present' : List (UInt32 × α)}
    (h : ch.Reflects ffHashUint32 order uniformFactor present) (hfactor : 1 ≤ uniformFactor) {c : Change α}
    (hc : note present c = some present') :
    ∃ ch', ch.apply ffHashUint32 c = .ok ch' ∧ ch'.Reflects ffHashUint32 order uniformFactor present' := by
  obtain ⟨hwf, hor, huf, hheight⟩ := h
  cases c with
  | addEntry key value =>
    cases hc
    obtain ⟨ch', h', hwf', huf', hor', hst⟩ := hwf.addPoints value (points ffHashUint32 ch.uniformFactor key)
    refine ⟨ch', h', hwf', hor'.trans hor, huf'.trans huf, fun p => ?_⟩
    rw [hst p, List.length_append, List.length_replicate, hheight p, huf, pointsOf, pointsOf, List.flatMap_cons,
      List.count_append]
  | removeEntry key =>
    obtain ⟨newer, value, older, rfl, rfl, -⟩ := note_removeEntry hc
    have hcount : ∀ p, (pointsOf ffHashUint32 uniformFactor (newer ++ (key, value) :: older)).count p =
        (points ffHashUint32 uniformFactor key).count p + (pointsOf ffHashUint32 uniformFactor (newer ++ older)).count p :=
      fun p => by
        rw [(pointsOf_append_cons ffHashUint32 uniformFactor newer older (key, value)).count_eq, List.count_append]
    obtain ⟨ch', h', hwf', huf', hor', hst⟩ := hwf.removePoints (points ffHashUint32 ch.uniformFactor key) (fun p => by
      rw [huf, hheight p, hcount p]
      exact Nat.le_add_right _ _)
    refine ⟨ch', ?_, hwf', hor'.trans hor, huf'.trans huf, fun p => ?_⟩
    · -- the key has a point, so the table is not empty
      have hpos : ch.entriesCnt > 0 := by
        have hmem := List.count_pos_iff.2 (mem_points ffHashUint32 hfactor key)
        refine hwf.entriesCnt_pos (p := ffHashUint32 (UInt32.ofNat 0) [key]) ?_
        rw [hheight, hcount]
        omega
      unfold ConsistentHash.apply ConsistentHash.removeEntry
      dsimp only
      rw [ffAssert_of hpos, ok_bind, h']
    · rw [hst p, List.length_drop, hheight p, hcount p, huf, Nat.add_sub_cancel_left]
  | removeAllEntries =>
    cases hc
    obtain ⟨ch', h', hwf', huf', hor', hent⟩ := hwf.removeAllEntries
    exact ⟨ch', h', hwf', hor'.trans hor, huf'.trans huf, fun p => by rw [hent]; rfl⟩

theorem Reflects.foldlM_apply {order uniformFactor : Nat} (hfactor : 1 ≤ uniformFactor) :
    ∀ (changes : List (Change α)) {ch : ConsistentHash α} {present present' : List (UInt32 × α)},
      ch.Reflects ffHashUint32 order uniformFactor present → Run.exec note present changes = some present' →
      ∃ ch', changes.foldlM (ConsistentHash.apply ffHashUint32) ch = .ok ch' ∧
        ch'.Reflects ffHashUint32 order uniformFactor present'
  | [], ch, present, present', h, hr => by cases hr; exact ⟨ch, rfl, h⟩
  | c :: changes, ch, present, present', h, hr => by
    obtain ⟨present₁, hn, hr⟩ := Run.exec_cons.1 hr
    obtain ⟨ch₁, h₁, hrefl₁⟩ := h.apply ffHashUint32 hfactor hn
    obtain ⟨ch₂, h₂, hrefl₂⟩ := Reflects.foldlM_apply hfactor changes hrefl₁ hr
    exact ⟨ch₂, by rw [List.foldlM_cons, h₁, ok_bind, h₂], hrefl₂⟩

theorem reflects_of_exec (order uniformFactor : Nat) (horder : 1 ≤ order) (horder' : order ≤ 20)
    (hfactor : 1 ≤ uniformFactor) (hfactor' : uniformFactor ≤ 255) (changes : List (Change α))
    (present : List (UInt32 × α)) (hp : Run.exec note [] changes = some present) :
    ∃ ch, run ffHashUint32 order uniformFactor changes = .ok ch ∧ ch.Reflects ffHashUint32 order uniformFactor present := by
  obtain ⟨ch₀, h₀, hrefl₀⟩ := reflects_create (α := α) ffHashUint32 horder horder' hfactor hfactor'
  obtain ⟨ch, hr, hrefl⟩ := hrefl₀.foldlM_apply ffHashUint32 hfactor changes hp
  exact ⟨ch, by rw [run, h₀, ok_bind, hr], hrefl⟩

/-- **Every history of changes succeeds and leaves the entries of the keys present**: no assertion fails, each entry is
in its bucket, the ring is sorted and the count is right. -/
theorem represents_of_exec (order uniformFactor : Nat) (horder : 1 ≤ order) (horder' : order ≤ 20)
    (hfactor : 1 ≤ uniformFactor) (hfactor' : uniformFactor ≤ 255) (changes : List (Change α))
    (present : List (UInt32 × α)) (hp : Run.exec note [] changes = some present) :
    ∃ ch, run ffHashUint32 order uniformFactor changes = .ok ch ∧
      ch.Represents ffHashUint32 order uniformFactor present := by
  obtain ⟨ch, hr, hrefl⟩ := reflects_of_exec ffHashUint32 order uniformFactor horder horder' hfactor hfactor' changes
    present hp
  exact ⟨ch, hr, hrefl.represents⟩

/-- Two keys that share the point `6`, one of them added twice. -/
theorem represents_addAddRemove : ∃ ch, run hashFiveSix 2 3
      [.addEntry 8 80, .addEntry 9 90, .addEntry 8 81, .removeEntry 9] = .ok ch ∧
    ch.Represents hashFiveSix 2 3 [(8, 81), (8, 80)] :=
  represents_of_exec hashFiveSix 2 3 (by decide) (by decide) (by decide) (by decide) _ _ (by decide)

/-! ## Lookups -/

/-- The entry at which `mrpc_consistent_hash_get_entry` stops: the first of the ring at or after the hashed key, else
the first in a bucket before the hashed key's. -/
def found (ch : ConsistentHash α) (key : UInt32) : Option (Entry α) :=
  let hkey := (ffHashUint32 0 [key]).toNat
  (ch.entries.find? (fun e => decide (hkey ≤ e.point))).or
    (ch.entries.find? (fun e => decide (e.point >>> (32 - ch.order) < hkey >>> (32 - ch.order))))

/-- The buckets before a key's hold the entries of smaller leading bits. -/
theorem WellFormed.head?_take {ch : ConsistentHash α} (h : ch.WellFormed) (key : UInt32) :
    (ch.buckets.take (key.toNat >>> (32 - ch.order))).flatten.head? =
      ch.entries.find? (fun e => decide (e.point >>> (32 - ch.order) < key.toNat >>> (32 - ch.order))) := by
  obtain ⟨pre, b, post, hb, hpre, -⟩ := h.bucket_eq key
  obtain ⟨h1, h2, h3⟩ := h.index_of_mem hb
  have hrest : (b ++ post.flatten).find? (fun e => decide (e.point >>> (32 - ch.order) < pre.length)) = none := by
    rw [List.find?_eq_none]
    intro e he
    rw [decide_eq_true_eq, not_lt]
    rcases List.mem_append.1 he with he | he
    · exact (h2 e he).ge
    · exact (h3 e he).le
  have hfirst : pre.flatten.find? (fun e => decide (e.point >>> (32 - ch.order) < pre.length)) = pre.flatten.head? := by
    cases hp : pre.flatten with
    | nil => rfl
    | cons e l =>
      have he := h1 e (by rw [hp]; exact List.mem_cons_self)
      rw [List.find?_cons, decide_eq_true he, List.head?_cons]
  rw [← hpre, entries_split ch hb, List.find?_append, hrest, Option.or_none, hfirst, hb, List.take_left]

/-- **A lookup returns the value of the entry it stops at.** -/
theorem WellFormed.getEntry_eq_ok {ch : ConsistentHash α} (h : ch.WellFormed) {key : UInt32} {w : α} :
    ch.getEntry ffHashUint32 key = .ok w ↔ ∃ e, ch.found ffHashUint32 key = some e ∧ e.value = w := by
  by_cases hpos : ch.entriesCnt > 0
  · rw [h.getEntry_eq ffHashUint32 hpos key, h.head?_take, found]
    cases ch.entries.find? (fun e => decide ((ffHashUint32 0 [key]).toNat ≤ e.point)) with
    | some e => simp
    | none =>
      rw [Option.none_or]
      cases ch.entries.find? _ with
      | some e => simp
      | none => simp
  · -- an empty table
    have hnil : ch.entries = [] := List.eq_nil_of_length_eq_zero (by have := h.count; omega)
    refine iff_of_false (fun hget => ?_) (fun ⟨e, he, _⟩ => ?_)
    · obtain ⟨_, ha, -⟩ := bind_eq_ok (show _ >>= _ = _ from hget)
      exact hpos (of_ffAssert ha)
    · simp [found, hnil] at he

theorem WellFormed.found_addEntryWithKey {ch ch' : ConsistentHash α} (h : ch.WellFormed) {p : UInt32} {value : α}
    (ha : ch.addEntryWithKey p value = .ok ch') (q : UInt32) :
    ch'.found ffHashUint32 q = some ⟨p, value⟩ ∨ ch'.found ffHashUint32 q = ch.found ffHashUint32 q := by
  obtain ⟨-, hor, hent⟩ := h.entries_addEntryWithKey ha
  unfold found
  dsimp only
  rw [hor, hent]
  rcases find?_insertFront Entry.point (fun e => decide ((ffHashUint32 0 [q]).toNat ≤ e.point)) ⟨p, value⟩
    ch.entries with h1 | h1
  · exact Or.inl (by rw [h1]; rfl)
  · rw [h1]
    cases ch.entries.find? (fun e => decide ((ffHashUint32 0 [q]).toNat ≤ e.point)) with
    | some e => exact Or.inr rfl
    | none =>
      rw [Option.none_or, Option.none_or]
      exact find?_insertFront Entry.point _ ⟨p, value⟩ ch.entries

theorem WellFormed.found_removeEntryWithKey {ch ch' : ConsistentHash α} (h : ch.WellFormed) {p : UInt32}
    (hr : ch.removeEntryWithKey p = .ok ch') {q : UInt32} (hq : ∀ e, ch.found ffHashUint32 q = some e → e.key ≠ p) :
    ch'.found ffHashUint32 q = ch.found ffHashUint32 q := by
  obtain ⟨-, hor, hent⟩ := h.entries_removeEntryWithKey hr
  have hne : ∀ e, ch.found ffHashUint32 q = some e → e.point ≠ p.toNat := fun e he hp =>
    hq e he (UInt32.toNat_inj.1 hp)
  unfold found at hne ⊢
  dsimp only at hne ⊢
  rw [hor]
  rw [find?_removeFirst Entry.point hent (fun e he => hne e (by rw [he]; rfl))]
  cases hf : ch.entries.find? (fun e => decide ((ffHashUint32 0 [q]).toNat ≤ e.point)) with
  | some e => rfl
  | none =>
    rw [hf, Option.none_or] at hne
    rw [Option.none_or, Option.none_or, find?_removeFirst Entry.point hent hne]

/-- **Adding at points**: a lookup goes where it went or to the new value. -/
theorem WellFormed.found_addPoints (value : α) (q : UInt32) :
    ∀ (ps : List UInt32) {ch ch' : ConsistentHash α}, ch.WellFormed →
      ps.foldlM (fun ch p => ch.addEntryWithKey p value) ch = .ok ch' →
      (∃ e, ch'.found ffHashUint32 q = some e ∧ e.value = value) ∨ ch'.found ffHashUint32 q = ch.found ffHashUint32 q
  | [], ch, ch', _, ha => by cases ha; exact Or.inr rfl
  | p :: ps, ch, ch', h, ha => by
    rw [List.foldlM_cons] at ha
    obtain ⟨ch₁, h₁, ha⟩ := bind_eq_ok ha
    have hwf₁ := (h.entries_addEntryWithKey h₁).1
    rcases WellFormed.found_addPoints value q ps hwf₁ ha with hv | hsame
    · exact Or.inl hv
    · rw [hsame]
      rcases h.found_addEntryWithKey ffHashUint32 h₁ q with hp | hsame₁
      · exact Or.inl ⟨⟨p, value⟩, hp, rfl⟩
      · exact Or.inr hsame₁

/-- **Removing at points**: a lookup that stops at none of them goes where it went. -/
theorem WellFormed.found_removePoints {q : UInt32} :
    ∀ (ps : List UInt32) {ch ch' : ConsistentHash α}, ch.WellFormed →
      ps.foldlM (fun ch p => ch.removeEntryWithKey p) ch = .ok ch' →
      (∀ e, ch.found ffHashUint32 q = some e → e.key ∉ ps) → ch'.found ffHashUint32 q = ch.found ffHashUint32 q
  | [], ch, ch', _, hr, _ => by cases hr; rfl
  | p :: ps, ch, ch', h, hr, hq => by
    rw [List.foldlM_cons] at hr
    obtain ⟨ch₁, h₁, hr⟩ := bind_eq_ok hr
    have hsame : ch₁.found ffHashUint32 q = ch.found ffHashUint32 q :=
      h.found_removeEntryWithKey ffHashUint32 h₁ (fun e he hp => hq e he (by rw [hp]; exact List.mem_cons_self))
    have hwf₁ := (h.entries_removeEntryWithKey h₁).1
    rw [WellFormed.found_removePoints ps hwf₁ hr (fun e he hp => hq e (hsame ▸ he) (List.mem_cons_of_mem p hp)), hsame]

/-- The lookup of `q` stops at an entry of `key`, one at a point of `key`. -/
def FoundThrough (ch : ConsistentHash α) (q key : UInt32) : Prop :=
  ∃ e, ch.found ffHashUint32 q = some e ∧ e.key ∈ points ffHashUint32 ch.uniformFactor key

theorem of_create {order uniformFactor : Nat} {ch : ConsistentHash α} (h : create order uniformFactor = .ok ch) :
    order ≤ 20 ∧ 1 ≤ uniformFactor ∧ uniformFactor ≤ 255 := by
  unfold create at h
  obtain ⟨_, h1, h⟩ := bind_eq_ok h
  obtain ⟨_, h2, h⟩ := bind_eq_ok h
  obtain ⟨_, h3, _⟩ := bind_eq_ok h
  have := of_ffAssert h3
  exact ⟨of_ffAssert h1, of_ffAssert h2, by omega⟩

/-- **Minimal disruption**: adding a key moves a lookup to the key's value or not at all; removing a key moves no lookup
that was not found through the key, and a key that is present can be removed.  No other key need keep away from the
removed key's points: that makes the entries at these points the key's own, and one at another point stays. -/
theorem disruption_minimal (order uniformFactor : Nat) (horder : 1 ≤ order) (changes : List (Change α))
    (ch : ConsistentHash α) (hrun : run ffHashUint32 order uniformFactor changes = .ok ch) (key q : UInt32) (w : α)
    (hget : ch.getEntry ffHashUint32 q = .ok w) :
    (∀ v, ∃ ch', ch.addEntry ffHashUint32 key v = .ok ch' ∧
      (ch'.getEntry ffHashUint32 q = .ok w ∨ ch'.getEntry ffHashUint32 q = .ok v)) ∧
    (¬ ch.FoundThrough ffHashUint32 q key →
      ∀ ch', ch.removeEntry ffHashUint32 key = .ok ch' → ch'.getEntry ffHashUint32 q = .ok w) ∧
    (∀ present, Run.exec note [] changes = some present → key ∈ present.map Prod.fst →
      ∃ ch', ch.removeEntry ffHashUint32 key = .ok ch') := by
  have hwf := wellFormed_run ffHashUint32 horder changes hrun
  obtain ⟨e, he, rfl⟩ := (hwf.getEntry_eq_ok ffHashUint32).1 hget
  refine ⟨fun v => ?_, fun hnot ch' h' => ?_, fun present hp hkey => ?_⟩
  · obtain ⟨ch', h', hwf', -⟩ := hwf.addPoints v (points ffHashUint32 ch.uniformFactor key)
    refine ⟨ch', h', ?_⟩
    rw [hwf'.getEntry_eq_ok, hwf'.getEntry_eq_ok]
    rcases hwf.found_addPoints ffHashUint32 v q _ h' with hv | hsame
    · exact Or.inr hv
    · exact Or.inl ⟨e, by rw [hsame, he], rfl⟩
  · obtain ⟨_, _, hfold⟩ := bind_eq_ok (show _ >>= _ = _ from h')
    rw [(hwf.of_removePoints _ hfold).getEntry_eq_ok]
    refine ⟨e, ?_, rfl⟩
    rw [hwf.found_removePoints ffHashUint32 _ hfold (fun e' he' hmem => hnot ⟨e', he', hmem⟩), he]
  · obtain ⟨ch₀, hcreate, -⟩ := bind_eq_ok (show _ >>= _ = _ from hrun)
    obtain ⟨horder', hfactor, hfactor'⟩ := of_create hcreate
    obtain ⟨ch₁, hrun₁, hrefl⟩ := reflects_of_exec ffHashUint32 order uniformFactor horder horder' hfactor hfactor'
      changes present hp
    rw [hrun] at hrun₁
    cases hrun₁
    obtain ⟨ch', h', -⟩ := hrefl.apply ffHashUint32 hfactor (c := .removeEntry key) (if_pos hkey)
    exact ⟨ch', h'⟩

/-- A hash that keeps words apart, with the start value in the last bits. -/
def hashSpread : UInt32 → List UInt32 → UInt32 := fun start words => words.headD 0 * 0x10000000 + start

/-- The table of order 2 with the keys `1` and `2`, at two points each. -/
def twoKeys : ConsistentHash Nat :=
  ⟨[[⟨0x10000000, 10⟩, ⟨0x10000001, 10⟩, ⟨0x20000000, 20⟩, ⟨0x20000001, 20⟩], [], [], []], 2, 2, 4⟩

theorem disruption_minimal_twoKeys :
    (∃ ch', twoKeys.addEntry hashSpread 3 30 = .ok ch' ∧
      (ch'.getEntry hashSpread 2 = .ok 20 ∨ ch'.getEntry hashSpread 2 = .ok 30)) ∧
    ∃ ch', twoKeys.removeEntry hashSpread 1 = .ok ch' ∧ ch'.getEntry hashSpread 2 = .ok 20 := by
  have hrun : run hashSpread 2 2 [.addEntry 1 10, .addEntry 2 20] = .ok twoKeys := by decide
  have hget : twoKeys.getEntry hashSpread 2 = .ok 20 := by decide
  have hnot : ¬ twoKeys.FoundThrough hashSpread 2 1 := by
    rintro ⟨e, he, hmem⟩
    have hfound : twoKeys.found hashSpread 2 = some ⟨0x20000000, 20⟩ := by decide
    rw [hfound] at he
    cases he
    exact absurd hmem (by decide)
  obtain ⟨hadd, -, -⟩ := disruption_minimal hashSpread 2 2 (by decide) _ twoKeys hrun 3 2 20 hget
  obtain ⟨-, hrem, hok⟩ := disruption_minimal hashSpread 2 2 (by decide) _ twoKeys hrun 1 2 20 hget
  obtain ⟨ch', h'⟩ := hok [(2, 20), (1, 10)] (by decide) (by decide)
  exact ⟨hadd 30, ch', h', hrem hnot ch' h'⟩

/-! ## Histories -/

/-- A key is added only while it is not present. -/
def Once (present : List (UInt32 × α)) : Change α → Prop
  | .addEntry key _ => key ∉ present.map Prod.fst
  | _ => True

instance (present : List (UInt32 × α)) : ∀ c : Change α, Decidable (Once present c)
  | .addEntry key _ => inferInstanceAs (Decidable (key ∉ present.map Prod.fst))
  | .removeEntry _ => .isTrue trivial
  | .removeAllEntries => .isTrue trivial

/-- The keys a history adds. -/
def addedKeys (changes : List (Change α)) : List UInt32 :=
  changes.filterMap (fun c => match c with
    | .addEntry key _ => some key
    | _ => none)

/-- Distinct keys have distinct points. -/
def Apart (uniformFactor : Nat) (keys : List UInt32) : Prop :=
  ∀ k ∈ keys, ∀ k' ∈ keys, k ≠ k' →
    List.Disjoint (points ffHashUint32 uniformFactor k) (points ffHashUint32 uniformFactor k')

/-- The table holds exactly what the keys present put there, and each of them is present once. -/
structure Mirrors (ch : ConsistentHash α) (order uniformFactor : Nat) (present : List (UInt32 × α)) : Prop where
  reflects : ch.Reflects ffHashUint32 order uniformFactor present
  nodup : (present.map Prod.fst).Nodup
  stacked : ∀ p : UInt32, atKey Entry.point p.toNat ch.entries = stack (points ffHashUint32 uniformFactor) present p

theorem addedKeys_cons (c : Change α) (changes : List (Change α)) :
    addedKeys (c :: changes) = addedKeys [c] ++ addedKeys changes := by
  cases c <;> rfl

/-- **One change keeps the mirror**, if its key was not present and keeps apart from those present. -/
theorem Mirrors.apply {ch : ConsistentHash α} {order uniformFactor : Nat} {present present' : List (UInt32 × α)}
    (h : ch.Mirrors ffHashUint32 order uniformFactor present) (hfactor : 1 ≤ uniformFactor) {c : Change α}
    (hc : note present c = some present') (honce : Once present c)
    (hapart : Apart ffHashUint32 uniformFactor (present.map Prod.fst)) :
    ∃ ch', ch.apply ffHashUint32 c = .ok ch' ∧ ch'.Mirrors ffHashUint32 order uniformFactor present' := by
  obtain ⟨hrefl, hnodup, hst⟩ := h
  obtain ⟨ch', h', hrefl'⟩ := hrefl.apply ffHashUint32 hfactor hc
  refine ⟨ch', h', hrefl', ?_, fun p => ?_⟩
  · cases c with
    | addEntry key value => cases hc; exact List.nodup_cons.2 ⟨honce, hnodup⟩
    | removeEntry key =>
      obtain ⟨newer, value, older, rfl, rfl, -⟩ := note_removeEntry hc
      exact hnodup.sublist ((List.Sublist.append_left (List.sublist_cons_self _ _) _).map Prod.fst)
    | removeAllEntries => cases hc; exact List.nodup_nil
  · cases c with
    | addEntry key value =>
      cases hc
      obtain ⟨ch₁, h₁, -, -, -, hst₁⟩ := hrefl.wellFormed.addPoints value (points ffHashUint32 ch.uniformFactor key)
      have he : Except.ok ch₁ = Except.ok ch' := h₁.symm.trans h'
      cases he
      rw [hst₁ p, hst p, hrefl.uniformFactor_eq, stack_cons]
    | removeEntry key =>
      obtain ⟨newer, value, older, rfl, rfl, hnewer⟩ := note_removeEntry hc
      obtain ⟨_, _, hfold⟩ := bind_eq_ok (show _ >>= _ = _ from h')
      obtain ⟨ch₁, h₁, -, -, -, hst₁⟩ := hrefl.wellFormed.removePoints (points ffHashUint32 ch.uniformFactor key) (fun p => by
        rw [hst p, hrefl.uniformFactor_eq, stack_append, stack_cons, List.length_append, List.length_append,
          List.length_replicate]
        dsimp only
        omega)
      rw [hfold] at h₁
      cases h₁
      rw [hst₁ p, hst p, hrefl.uniformFactor_eq]
      refine drop_stack _ p (fun c hcn => hapart key ?_ c.1 ?_ (hnewer c hcn).symm)
      · simp
      · exact List.mem_map_of_mem (List.mem_append_left _ hcn)
    | removeAllEntries =>
      cases hc
      obtain ⟨ch₁, h₁, -, -, -, hent⟩ := hrefl.wellFormed.removeAllEntries
      have he : Except.ok ch₁ = Except.ok ch' := h₁.symm.trans h'
      cases he
      rw [hent]
      rfl

theorem Apart.mono {uniformFactor : Nat} {keys keys' : List UInt32} (h : Apart ffHashUint32 uniformFactor keys')
    (hsub : ∀ k ∈ keys, k ∈ keys') : Apart ffHashUint32 uniformFactor keys :=
  fun k hk k' hk' => h k (hsub k hk) k' (hsub k' hk')

/-- The keys present after a change were present before or came with it. -/
theorem mem_note {present present' : List (UInt32 × α)} {c : Change α} (hc : note present c = some present') {k : UInt32}
    (hk : k ∈ present'.map Prod.fst) : k ∈ present.map Prod.fst ∨ k ∈ addedKeys [c] := by
  cases c with
  | addEntry key value =>
    cases hc
    rcases List.mem_cons.1 hk with rfl | hk
    · exact Or.inr (by simp [addedKeys])
    · exact Or.inl hk
  | removeEntry key =>
    obtain ⟨newer, value, older, rfl, rfl, -⟩ := note_removeEntry hc
    exact Or.inl (((List.Sublist.append_left (List.sublist_cons_self _ _) _).map Prod.fst).subset hk)
  | removeAllEntries => cases hc; cases hk

theorem Mirrors.foldlM_apply {order uniformFactor : Nat} (hfactor : 1 ≤ uniformFactor) {keys : List UInt32}
    (hapart : Apart ffHashUint32 uniformFactor keys) :
    ∀ (changes : List (Change α)) {ch : ConsistentHash α} {present present' : List (UInt32 × α)},
      ch.Mirrors ffHashUint32 order uniformFactor present → Run.exec note present changes = some present' →
      Run.Meets note Once present changes → (∀ k ∈ present.map Prod.fst, k ∈ keys) → (∀ k ∈ addedKeys changes, k ∈ keys) →
      ∃ ch', changes.foldlM (ConsistentHash.apply ffHashUint32) ch = .ok ch' ∧
        ch'.Mirrors ffHashUint32 order uniformFactor present' ∧ ∀ k ∈ present'.map Prod.fst, k ∈ keys
  | [], ch, present, present', h, hr, _, hpk, _ => by cases hr; exact ⟨ch, rfl, h, hpk⟩
  | c :: changes, ch, present, present', h, hr, honce, hpk, hck => by
    obtain ⟨present₁, hn, hr⟩ := Run.exec_cons.1 hr
    rw [addedKeys_cons] at hck
    obtain ⟨ch₁, h₁, hmir₁⟩ := h.apply ffHashUint32 hfactor hn honce.1 (hapart.mono ffHashUint32 hpk)
    have hpk₁ : ∀ k ∈ present₁.map Prod.fst, k ∈ keys := fun k hk =>
      (mem_note hn hk).elim (hpk k) (fun ha => hck k (List.mem_append_left _ ha))
    obtain ⟨ch₂, h₂, hmir₂, hpk₂⟩ := Mirrors.foldlM_apply hfactor hapart changes hmir₁ hr (honce.2 present₁ hn) hpk₁
      (fun k hk => hck k (List.mem_append_right _ hk))
    exact ⟨ch₂, by rw [List.foldlM_cons, h₁, ok_bind, h₂], hmir₂, hpk₂⟩

/-- Where keys keep apart, a key with the point has its stack alone. -/
theorem stack_of_mem {uniformFactor : Nat} {present : List (UInt32 × α)} (hnodup : (present.map Prod.fst).Nodup)
    (hapart : Apart ffHashUint32 uniformFactor (present.map Prod.fst)) {c : UInt32 × α} (hc : c ∈ present) {p : UInt32}
    (hp : p ∈ points ffHashUint32 uniformFactor c.1) :
    stack (points ffHashUint32 uniformFactor) present p =
      List.replicate ((points ffHashUint32 uniformFactor c.1).count p) ⟨p, c.2⟩ := by
  obtain ⟨newer, older, rfl⟩ := List.append_of_mem hc
  rw [List.map_append, List.map_cons] at hnodup hapart
  have hne := List.nodup_middle.1 hnodup
  rw [← List.map_append] at hne
  have hother : ∀ c' ∈ newer ++ older, p ∉ points ffHashUint32 uniformFactor c'.1 := fun c' hc' hp' => by
    have hmem : c'.1 ∈ (newer ++ older).map Prod.fst := List.mem_map_of_mem hc'
    have hkey : c.1 ≠ c'.1 := fun he => (List.nodup_cons.1 hne).1 (he ▸ hmem)
    refine hapart c.1 (by simp) c'.1 ?_ hkey hp hp'
    rw [List.map_append] at hmem
    rcases List.mem_append.1 hmem with hm | hm
    · exact List.mem_append_left _ hm
    · exact List.mem_append_right _ (List.mem_cons_of_mem _ hm)
  rw [stack_append, stack_cons, stack_eq_nil _ (fun c' hc' => hother c' (List.mem_append_left _ hc')),
    stack_eq_nil _ (fun c' hc' => hother c' (List.mem_append_right _ hc')), List.nil_append, List.append_nil]

/-- The stacks depend on which keys are present, not on their order. -/
theorem stack_congr {uniformFactor : Nat} {present₁ present₂ : List (UInt32 × α)}
    (hnodup₁ : (present₁.map Prod.fst).Nodup) (hnodup₂ : (present₂.map Prod.fst).Nodup)
    (hapart₁ : Apart ffHashUint32 uniformFactor (present₁.map Prod.fst))
    (hapart₂ : Apart ffHashUint32 uniformFactor (present₂.map Prod.fst)) (hsame : ∀ c, c ∈ present₁ ↔ c ∈ present₂)
    (p : UInt32) :
    stack (points ffHashUint32 uniformFactor) present₁ p = stack (points ffHashUint32 uniformFactor) present₂ p := by
  by_cases hp : ∃ c ∈ present₁, p ∈ points ffHashUint32 uniformFactor c.1
  · obtain ⟨c, hc, hp⟩ := hp
    rw [stack_of_mem ffHashUint32 hnodup₁ hapart₁ hc hp, stack_of_mem ffHashUint32 hnodup₂ hapart₂ ((hsame c).1 hc) hp]
  · have hnone : ∀ c ∈ present₁, p ∉ points ffHashUint32 uniformFactor c.1 := fun c hc hpc => hp ⟨c, hc, hpc⟩
    rw [stack_eq_nil _ hnone, stack_eq_nil _ (fun c hc => hnone c ((hsame c).2 hc))]

/-- **The buckets are the ring, cut at the leading bits.** -/
theorem WellFormed.buckets_eq {ch : ConsistentHash α} (h : ch.WellFormed) :
    ch.buckets = (List.range (2 ^ ch.order)).map (fun i =>
      ch.entries.filter (fun e => decide (e.point >>> (32 - ch.order) = i))) := by
  refine List.ext_getElem (by rw [List.length_map, List.length_range, h.length]) (fun i hi _ => ?_)
  rw [List.getElem_map, List.getElem_range]
  have hb : ch.buckets = ch.buckets.take i ++ ch.buckets[i] :: ch.buckets.drop (i + 1) := by
    rw [List.cons_getElem_drop_succ, List.take_append_drop]
  have hlen : (ch.buckets.take i).length = i := by rw [List.length_take]; omega
  obtain ⟨h1, h2, h3⟩ := h.index_of_mem hb
  rw [hlen] at h1 h2 h3
  have hpre : (ch.buckets.take i).flatten.filter (fun e => decide (e.point >>> (32 - ch.order) = i)) = [] :=
    List.filter_eq_nil_iff.2 (fun e he heq => (h1 e he).ne (of_decide_eq_true heq))
  have hpost : (ch.buckets.drop (i + 1)).flatten.filter (fun e => decide (e.point >>> (32 - ch.order) = i)) = [] :=
    List.filter_eq_nil_iff.2 (fun e he heq => (h3 e he).ne' (of_decide_eq_true heq))
  have hall : ch.buckets[i].filter (fun e => decide (e.point >>> (32 - ch.order) = i)) = ch.buckets[i] :=
    List.filter_eq_self.2 (fun e he => decide_eq_true (h2 e he))
  rw [entries_split ch hb, List.filter_append, List.filter_append, hpre, hpost, hall, List.nil_append, List.append_nil]

/-- A well-formed table is determined by its configuration and its ring. -/
theorem WellFormed.eq_of_entries {ch₁ ch₂ : ConsistentHash α} (h₁ : ch₁.WellFormed) (h₂ : ch₂.WellFormed)
    (horder : ch₁.order = ch₂.order) (hfactor : ch₁.uniformFactor = ch₂.uniformFactor)
    (hentries : ch₁.entries = ch₂.entries) : ch₁ = ch₂ := by
  have hb : ch₁.buckets = ch₂.buckets := by rw [h₁.buckets_eq, h₂.buckets_eq, horder, hentries]
  have hc : ch₁.entriesCnt = ch₂.entriesCnt := by rw [h₁.count, h₂.count, hentries]
  obtain ⟨buckets, order, factor, cnt⟩ := ch₁
  obtain ⟨buckets₂, order₂, factor₂, cnt₂⟩ := ch₂
  cases hb
  cases hc
  cases horder
  cases hfactor
  rfl

theorem mirrors_of_exec (order uniformFactor : Nat) (horder : 1 ≤ order) (horder' : order ≤ 20)
    (hfactor : 1 ≤ uniformFactor) (hfactor' : uniformFactor ≤ 255) {keys : List UInt32}
    (hapart : Apart ffHashUint32 uniformFactor keys) {changes : List (Change α)} {present : List (UInt32 × α)}
    (hp : Run.exec note [] changes = some present) (honce : Run.Meets note Once [] changes)
    (hkeys : ∀ k ∈ addedKeys changes, k ∈ keys) :
    ∃ ch, run ffHashUint32 order uniformFactor changes = .ok ch ∧ ch.Mirrors ffHashUint32 order uniformFactor present ∧
      ∀ k ∈ present.map Prod.fst, k ∈ keys := by
  obtain ⟨ch₀, h₀, hrefl₀⟩ := reflects_create (α := α) ffHashUint32 horder horder' hfactor hfactor'
  have hmir₀ : ch₀.Mirrors ffHashUint32 order uniformFactor [] := by
    refine ⟨hrefl₀, List.nodup_nil, fun p => List.eq_nil_of_length_eq_zero ?_⟩
    rw [hrefl₀.height p]
    rfl
  obtain ⟨ch, hr, hmir, hpk⟩ := hmir₀.foldlM_apply ffHashUint32 hfactor hapart changes hp honce (by simp) hkeys
  exact ⟨ch, by rw [run, h₀, ok_bind, hr], hmir, hpk⟩

/-- **Routing does not depend on the history**: two histories that end with the same keys present, each present at most
once at a time and at points of its own, leave equal tables. -/
theorem routing_historyIndependent (order uniformFactor : Nat) (horder : 1 ≤ order) (horder' : order ≤ 20)
    (hfactor : 1 ≤ uniformFactor) (hfactor' : uniformFactor ≤ 255) (changes₁ changes₂ : List (Change α))
    (present₁ present₂ : List (UInt32 × α)) (hp₁ : Run.exec note [] changes₁ = some present₁)
    (hp₂ : Run.exec note [] changes₂ = some present₂) (honce₁ : Run.Meets note Once [] changes₁)
    (honce₂ : Run.Meets note Once [] changes₂)
    (hapart : Apart ffHashUint32 uniformFactor (addedKeys changes₁ ++ addedKeys changes₂))
    (hsame : ∀ c, c ∈ present₁ ↔ c ∈ present₂) :
    ∃ ch₁ ch₂, run ffHashUint32 order uniformFactor changes₁ = .ok ch₁ ∧
      run ffHashUint32 order uniformFactor changes₂ = .ok ch₂ ∧ ch₁.buckets = ch₂.buckets ∧
      ∀ key, ch₁.getEntry ffHashUint32 key = ch₂.getEntry ffHashUint32 key := by
  obtain ⟨ch₁, hr₁, hmir₁, hpk₁⟩ := mirrors_of_exec ffHashUint32 order uniformFactor horder horder' hfactor hfactor' hapart
    hp₁ honce₁ (fun k hk => List.mem_append_left _ hk)
  obtain ⟨ch₂, hr₂, hmir₂, hpk₂⟩ := mirrors_of_exec ffHashUint32 order uniformFactor horder horder' hfactor hfactor' hapart
    hp₂ honce₂ (fun k hk => List.mem_append_right _ hk)
  have hwf₂ := hmir₂.reflects.wellFormed
  have hentries : ch₁.entries = ch₂.entries := hmir₁.reflects.wellFormed.entries_eq hwf₂.sorted_entries (fun p => by
    rw [hmir₁.stacked p, hmir₂.stacked p]
    exact stack_congr ffHashUint32 hmir₁.nodup hmir₂.nodup (hapart.mono ffHashUint32 hpk₁) (hapart.mono ffHashUint32 hpk₂)
      hsame p)
  have heq : ch₁ = ch₂ := hmir₁.reflects.wellFormed.eq_of_entries hwf₂
    (hmir₁.reflects.order_eq.trans hmir₂.reflects.order_eq.symm)
    (hmir₁.reflects.uniformFactor_eq.trans hmir₂.reflects.uniformFactor_eq.symm) hentries
  subst heq
  exact ⟨ch₁, ch₁, hr₁, hr₂, rfl, fun _ => rfl⟩

theorem apart_spread : Apart hashSpread 2 [1, 3, 2, 2, 1] := by
  simp [Apart, points, hashSpread, List.range_succ]

theorem routing_historyIndependent_twoKeys : ∃ ch₁ ch₂,
    run hashSpread 2 2 [.addEntry 1 10, .addEntry 3 30, .addEntry 2 20, .removeEntry 3] = .ok ch₁ ∧
      run hashSpread 2 2 [.addEntry 2 20, .addEntry 1 10] = .ok ch₂ ∧ ch₁.buckets = ch₂.buckets ∧
      ∀ key, ch₁.getEntry hashSpread key = ch₂.getEntry hashSpread key :=
  routing_historyIndependent hashSpread 2 2 (by decide) (by decide) (by decide) (by decide)
    [.addEntry 1 10, .addEntry 3 30, .addEntry 2 20, .removeEntry 3] [.addEntry 2 20, .addEntry 1 10] [(2, 20), (1, 10)]
    [(1, 10), (2, 20)] (by decide) (by decide) (Run.meets_of_check _ (by decide)) (Run.meets_of_check _ (by decide))
    apart_spread (fun c => by simp [or_comm])

/-! ## Undoing an addition -/

/-- **A removal right after an addition of its key undoes it**: every bucket holds what it held, in the same order, and
the count is what it was, whoever else has entries at the key's points and however often these coincide. -/
theorem removeEntry_addEntry (ch : ConsistentHash α) (h : ch.WellFormed) (hfactor : 1 ≤ ch.uniformFactor) (key : UInt32)
    (value : α) :
    ∃ ch', ch.addEntry ffHashUint32 key value = .ok ch' ∧ ch'.removeEntry ffHashUint32 key = .ok ch := by
  obtain ⟨ch₁, h₁, hwf₁, huf₁, hor₁, hst₁⟩ := h.addPoints value (points ffHashUint32 ch.uniformFactor key)
  -- the removal finds the new entries on top of the stacks: as many at each point as the key yields it
  obtain ⟨ch₂, h₂, hwf₂, huf₂, hor₂, hst₂⟩ := hwf₁.removePoints (points ffHashUint32 ch.uniformFactor key) fun p => by
    rw [hst₁ p, List.length_append, List.length_replicate]
    exact Nat.le_add_right _ _
  have hentries : ch₂.entries = ch.entries := hwf₂.entries_eq h.sorted_entries fun p => by
    rw [hst₂ p, hst₁ p, List.drop_left' List.length_replicate]
  have heq : ch₂ = ch := hwf₂.eq_of_entries h (hor₂.trans hor₁) (huf₂.trans huf₁) hentries
  have hpos : ch₁.entriesCnt > 0 := by
    have hmem := List.count_pos_iff.2 (mem_points ffHashUint32 hfactor key)
    refine hwf₁.entriesCnt_pos (p := ffHashUint32 (UInt32.ofNat 0) [key]) ?_
    rw [hst₁, List.length_append, List.length_replicate]
    omega
  refine ⟨ch₁, h₁, ?_⟩
  rw [ConsistentHash.removeEntry, ffAssert_of hpos, ok_bind, huf₁, h₂, heq]

/-- The keys `8` and `9`, each with three entries at the point `6`. -/
def sharedPoint : ConsistentHash Nat :=
  ⟨[[⟨6, 90⟩, ⟨6, 90⟩, ⟨6, 90⟩, ⟨6, 80⟩, ⟨6, 80⟩, ⟨6, 80⟩], [], [], []], 2, 3, 6⟩

theorem removeEntry_addEntry_sharedPoint :
    ∃ ch', sharedPoint.addEntry hashFiveSix 8 81 = .ok ch' ∧ ch'.removeEntry hashFiveSix 8 = .ok sharedPoint :=
  removeEntry_addEntry hashFiveSix sharedPoint
    (wellFormed_run hashFiveSix (show 1 ≤ 2 by decide) [.addEntry 8 80, .addEntry 9 90]
      (show run hashFiveSix 2 3 _ = _ by decide))
    (by decide) 8 81

end ConsistentHash
end Mrpc
