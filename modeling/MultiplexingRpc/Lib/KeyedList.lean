import Mathlib
/-!
# KeyedList — lists sorted by a key, with repeated keys

A list sorted by a key in which several elements may share one is a family of stacks, one for each key (`atKey`):
`insertFront` pushes on the stack of its element's key and `removeFirst` pops the stack of its key, whatever lies there.
On a sorted list the first element at or after a key, with wrap-around, is the cyclic successor of the key
(`IsCyclicSuccessor`).
-/
namespace KeyedList

variable {β κ : Type} [LinearOrder κ] (key : β → κ)

/-- Insert before the first element whose key is not smaller. -/
def insertFront (x : β) : List β → List β
  | [] => [x]
  | y :: l => if key y < key x then y :: insertFront x l else x :: y :: l

/-- Remove the first element with the key, if there is one. -/
def removeFirst (k : κ) : List β → Option (List β)
  | [] => none
  | y :: l => if key y ≠ k then (removeFirst k l).map (y :: ·) else some l

/-- The elements with the key, in list order. -/
def atKey (k : κ) (l : List β) : List β := l.filter (fun y => key y = k)

/-- Sorted by key. -/
def SortedBy (l : List β) : Prop := l.Pairwise (fun a b => key a ≤ key b)

/-! ## Insertion -/

theorem insertFront_perm (x : β) : ∀ l : List β, (insertFront key x l).Perm (x :: l)
  | [] => List.Perm.refl _
  | y :: l => by
    rw [insertFront]
    split
    · exact ((insertFront_perm x l).cons y).trans (List.Perm.swap x y l)
    · exact List.Perm.refl _

theorem mem_insertFront {x y : β} {l : List β} : y ∈ insertFront key x l ↔ y = x ∨ y ∈ l := by
  rw [(insertFront_perm key x l).mem_iff, List.mem_cons]

theorem sortedBy_insertFront (x : β) : ∀ l : List β, SortedBy key l → SortedBy key (insertFront key x l)
  | [], _ => List.pairwise_singleton _ _
  | y :: l, h => by
    have hy := List.pairwise_cons.1 h
    rw [insertFront]
    split
    · rename_i hlt
      refine List.pairwise_cons.2 ⟨fun a ha => ?_, sortedBy_insertFront x l hy.2⟩
      rcases (mem_insertFront key).1 ha with rfl | ha
      · exact hlt.le
      · exact hy.1 a ha
    · rename_i hge
      rw [not_lt] at hge
      refine List.pairwise_cons.2 ⟨fun a ha => ?_, h⟩
      rcases List.mem_cons.1 ha with rfl | ha
      · exact hge
      · exact hge.trans (hy.1 a ha)

/-- **Insertion pushes on its key's stack.** -/
theorem atKey_insertFront_self (x : β) : ∀ l : List β, SortedBy key l →
    atKey key (key x) (insertFront key x l) = x :: atKey key (key x) l
  | [], _ => by simp [insertFront, atKey]
  | y :: l, h => by
    rw [insertFront]
    split
    · rename_i hlt
      have ih := atKey_insertFront_self x l (List.pairwise_cons.1 h).2
      unfold atKey at ih ⊢
      rw [List.filter_cons_of_neg (by simpa using hlt.ne), List.filter_cons_of_neg (by simpa using hlt.ne), ih]
    · simp [atKey]

/-- **Insertion leaves the other stacks.** -/
theorem atKey_insertFront_ne {x : β} {k : κ} (hk : key x ≠ k) : ∀ l : List β,
    atKey key k (insertFront key x l) = atKey key k l
  | [] => by simp [insertFront, atKey, hk]
  | y :: l => by
    rw [insertFront]
    split
    · have ih := atKey_insertFront_ne hk l
      unfold atKey at ih ⊢
      rw [List.filter_cons, List.filter_cons, ih]
    · simp [atKey, List.filter_cons, hk]

/-! ## Removal -/

/-- **What a removal took**: the first element with the key. -/
theorem removeFirst_eq_some {k : κ} : ∀ {l l' : List β}, removeFirst key k l = some l' →
    ∃ pre y post, l = pre ++ y :: post ∧ l' = pre ++ post ∧ key y = k ∧ ∀ x ∈ pre, key x ≠ k
  | [], _, h => by cases h
  | y :: l, l', h => by
    rw [removeFirst] at h
    split at h
    · rename_i hne
      obtain ⟨l₁, h₁, rfl⟩ := Option.map_eq_some_iff.1 h
      obtain ⟨pre, z, post, rfl, rfl, hz, hpre⟩ := removeFirst_eq_some h₁
      refine ⟨y :: pre, z, post, rfl, rfl, hz, fun x hx => ?_⟩
      rcases List.mem_cons.1 hx with rfl | hx
      · exact hne
      · exact hpre x hx
    · rename_i heq
      rw [not_not] at heq
      cases h
      exact ⟨[], y, l, rfl, rfl, heq, by simp⟩

theorem removeFirst_isSome {k : κ} {x : β} (hk : key x = k) : ∀ {l : List β}, x ∈ l →
    ∃ l', removeFirst key k l = some l'
  | y :: l, h => by
    rw [removeFirst]
    by_cases hy : key y = k
    · exact ⟨l, by simp [hy]⟩
    · have hx : x ∈ l := (List.mem_cons.1 h).resolve_left (fun he => hy (he ▸ hk))
      obtain ⟨l', h'⟩ := removeFirst_isSome hk hx
      exact ⟨y :: l', by simp [hy, h']⟩

theorem removeFirst_sublist {k : κ} {l l' : List β} (h : removeFirst key k l = some l') : l'.Sublist l := by
  obtain ⟨pre, y, post, rfl, rfl, -, -⟩ := removeFirst_eq_some key h
  exact List.Sublist.append_left (List.sublist_cons_self y post) pre

theorem sortedBy_removeFirst {k : κ} {l l' : List β} (h : removeFirst key k l = some l') (hs : SortedBy key l) :
    SortedBy key l' :=
  List.Pairwise.sublist (removeFirst_sublist key h) hs

theorem length_removeFirst {k : κ} {l l' : List β} (h : removeFirst key k l = some l') :
    l.length = l'.length + 1 := by
  obtain ⟨pre, y, post, rfl, rfl, -, -⟩ := removeFirst_eq_some key h
  rw [List.length_append, List.length_append, List.length_cons]
  omega

/-- **Removal pops its key's stack.** -/
theorem atKey_removeFirst_self {k : κ} {l l' : List β} (h : removeFirst key k l = some l') :
    atKey key k l' = (atKey key k l).tail := by
  obtain ⟨pre, y, post, rfl, rfl, hy, hpre⟩ := removeFirst_eq_some key h
  have hnil : pre.filter (fun x => key x = k) = [] :=
    List.filter_eq_nil_iff.2 (fun x hx => by simpa using hpre x hx)
  simp [atKey, hnil, hy]

/-- **Removal leaves the other stacks.** -/
theorem atKey_removeFirst_ne {k k' : κ} (hk : k' ≠ k) {l l' : List β} (h : removeFirst key k l = some l') :
    atKey key k' l' = atKey key k' l := by
  obtain ⟨pre, y, post, rfl, rfl, hy, -⟩ := removeFirst_eq_some key h
  have hne : ¬ key y = k' := fun he => hk (he.symm.trans hy)
  simp [atKey, hne]

/-! ## Searching -/

/-- **After an insertion a search finds the new element or what it found before.** -/
theorem find?_insertFront (q : β → Bool) (x : β) : ∀ l : List β,
    (insertFront key x l).find? q = some x ∨ (insertFront key x l).find? q = l.find? q
  | [] => by
    rw [insertFront, List.find?_cons]
    cases q x
    · exact Or.inr rfl
    · exact Or.inl rfl
  | y :: l => by
    rw [insertFront]
    split
    · rw [List.find?_cons, List.find?_cons]
      cases q y
      · exact find?_insertFront q x l
      · exact Or.inr rfl
    · rw [List.find?_cons]
      cases q x
      · exact Or.inr rfl
      · exact Or.inl rfl

/-- **After a removal a search finds what it found before**, unless that was at the key. -/
theorem find?_removeFirst {k : κ} {l l' : List β} (h : removeFirst key k l = some l') {q : β → Bool}
    (hq : ∀ e, l.find? q = some e → key e ≠ k) : l'.find? q = l.find? q := by
  obtain ⟨pre, y, post, rfl, rfl, hy, -⟩ := removeFirst_eq_some key h
  rw [List.find?_append, List.find?_cons] at hq
  rw [List.find?_append, List.find?_append, List.find?_cons]
  cases hpre : pre.find? q with
  | some e => rfl
  | none =>
    cases hqy : q y with
    | false => rfl
    | true =>
      rw [hpre, hqy] at hq
      exact absurd hy (hq y rfl)

/-- **A sorted list is determined by its stacks.** -/
theorem eq_of_atKey : ∀ {l₁ l₂ : List β}, SortedBy key l₁ → SortedBy key l₂ →
    (∀ k, atKey key k l₁ = atKey key k l₂) → l₁ = l₂
  | [], [], _, _, _ => rfl
  | [], y :: l₂, _, _, h => by simpa [atKey] using h (key y)
  | x :: l₁, [], _, _, h => by simpa [atKey] using h (key x)
  | x :: l₁, y :: l₂, h₁, h₂, h => by
    have hmem : ∀ z, z ∈ x :: l₁ ↔ z ∈ y :: l₂ := fun z => by
      have hz := congrArg (z ∈ ·) (h (key z))
      simpa [atKey] using hz
    have hxy : key x ≤ key y := by
      rcases List.mem_cons.1 ((hmem y).2 List.mem_cons_self) with rfl | hy
      · exact le_refl _
      · exact (List.pairwise_cons.1 h₁).1 y hy
    have hyx : key y ≤ key x := by
      rcases List.mem_cons.1 ((hmem x).1 List.mem_cons_self) with rfl | hx
      · exact le_refl _
      · exact (List.pairwise_cons.1 h₂).1 x hx
    have hkey := le_antisymm hxy hyx
    -- the heads are the tops of one stack
    have hhead := h (key x)
    simp only [atKey, List.filter_cons, hkey, decide_true, if_true, List.cons.injEq] at hhead
    obtain ⟨rfl, -⟩ := hhead
    have htail : ∀ k, atKey key k l₁ = atKey key k l₂ := fun k => by
      have hk := h k
      unfold atKey at hk ⊢
      rw [List.filter_cons, List.filter_cons] at hk
      split at hk
      · exact (List.cons.inj hk).2
      · exact hk
    rw [eq_of_atKey (List.pairwise_cons.1 h₁).2 (List.pairwise_cons.1 h₂).2 htail]

/-! ## The cyclic successor -/

/-- `e` is the element of `l` that follows `h` on the circle of keys: the one with the smallest key at or after `h`, or
with the smallest key at all if none is at or after `h`; the first of its key in list order. -/
structure IsCyclicSuccessor (l : List β) (h : κ) (e : β) : Prop where
  first : ∃ pre post, l = pre ++ e :: post ∧ ∀ x ∈ pre, key x ≠ key e
  least : h ≤ key e ∧ (∀ x ∈ l, h ≤ key x → key e ≤ key x) ∨ (∀ x ∈ l, key x < h) ∧ ∀ x ∈ l, key e ≤ key x

/-- **In a sorted list the first element at or after `h` is its successor.** -/
theorem isCyclicSuccessor_of_find {l : List β} {h : κ} {e : β} (hs : SortedBy key l)
    (hf : l.find? (fun x => decide (h ≤ key x)) = some e) : IsCyclicSuccessor key l h e := by
  obtain ⟨he, pre, post, rfl, hpre⟩ := List.find?_eq_some_iff_append.1 hf
  have he : h ≤ key e := by simpa using he
  have hpre : ∀ x ∈ pre, key x < h := fun x hx => by simpa using hpre x hx
  have hpost := (List.pairwise_cons.1 (List.pairwise_append.1 hs).2.1).1
  refine ⟨⟨pre, post, rfl, fun x hx => ((hpre x hx).trans_le he).ne⟩, Or.inl ⟨he, fun x hx hhx => ?_⟩⟩
  rcases List.mem_append.1 hx with hx | hx
  · exact absurd hhx (not_le.2 (hpre x hx))
  · rcases List.mem_cons.1 hx with rfl | hx
    · exact le_refl _
    · exact hpost x hx

/-- **Without such an element the successor is the head.** -/
theorem isCyclicSuccessor_of_head {l : List β} {h : κ} {e : β} (hs : SortedBy key l) (hlt : ∀ x ∈ l, key x < h)
    (hh : l.head? = some e) : IsCyclicSuccessor key l h e := by
  obtain ⟨post, rfl⟩ := List.head?_eq_some_iff.1 hh
  refine ⟨⟨[], post, rfl, by simp⟩, Or.inr ⟨hlt, fun x hx => ?_⟩⟩
  rcases List.mem_cons.1 hx with rfl | hx
  · exact le_refl _
  · exact (List.pairwise_cons.1 hs).1 x hx

end KeyedList
