import Mathlib
/-!
# Pool — a bounded pool that creates its entries on demand

Entries are made one by one, the `n`-th by `create n`, up to a capacity; a released entry is handed out again before a
new one is made.  Nothing is handed out when the capacity is reached and no entry is free: the caller waits.
`addr` names an entry; entries handed out are told apart from free ones by it (`InUse`).
-/

structure Pool (α : Type) where
  capacity : Nat
  created : Nat
  free : List α

namespace Pool

variable {α : Type}

def empty (capacity : Nat) : Pool α := ⟨capacity, 0, []⟩

def acquire (create : Nat → α) (p : Pool α) : Option (α × Pool α) :=
  match p.free with
  | a :: rest => some (a, { p with free := rest })
  | [] => if p.created < p.capacity then some (create p.created, { p with created := p.created + 1 }) else none

def release (p : Pool α) (a : α) : Pool α := { p with free := a :: p.free }

/-- The number of entries handed out. -/
def used (p : Pool α) : Nat := p.created - p.free.length

/-- Nothing is left to hand out. -/
def exhausted (p : Pool α) : Prop := p.free = [] ∧ p.capacity ≤ p.created

instance (p : Pool α) : Decidable p.exhausted :=
  decidable_of_iff (p.free.isEmpty = true ∧ p.capacity ≤ p.created) (and_congr_left' List.isEmpty_iff)

/-! ## Well-formed pools -/

structure WellFormed (addr : α → Nat) (p : Pool α) : Prop where
  nodup : (p.free.map addr).Nodup
  created : ∀ a ∈ p.free, addr a < p.created
  capacity : p.created ≤ p.capacity

/-- The entry named `n` was made and is not free. -/
def InUse (addr : α → Nat) (p : Pool α) (n : Nat) : Prop := n < p.created ∧ n ∉ p.free.map addr

theorem wellFormed_empty (addr : α → Nat) (capacity : Nat) : (empty capacity : Pool α).WellFormed addr :=
  ⟨List.nodup_nil, by simp [empty], Nat.zero_le _⟩

theorem not_inUse_empty (addr : α → Nat) (capacity n : Nat) : ¬ (empty capacity : Pool α).InUse addr n :=
  fun h => absurd h.1 (Nat.not_lt_zero n)

theorem acquire_eq_none {create : Nat → α} {p : Pool α} : p.acquire create = none ↔ p.exhausted := by
  unfold acquire exhausted
  cases p.free with
  | nil => simp
  | cons a rest => simp

/-- **The two ways of an acquisition**: a free entry, or a new one. -/
theorem acquire_cases {create : Nat → α} {p p' : Pool α} {a : α} (ha : p.acquire create = some (a, p')) :
    (∃ rest, p.free = a :: rest ∧ p' = { p with free := rest }) ∨
    (p.free = [] ∧ p.created < p.capacity ∧ a = create p.created ∧ p' = { p with created := p.created + 1 }) := by
  unfold acquire at ha
  cases hf : p.free with
  | cons b rest =>
    rw [hf] at ha
    cases ha
    exact Or.inl ⟨rest, rfl, rfl⟩
  | nil =>
    simp only [hf] at ha
    split at ha
    · rename_i hlt
      cases ha
      exact Or.inr ⟨rfl, hlt, rfl, rfl⟩
    · cases ha

/-- **An acquisition hands out an entry that was not in use**, and changes nothing else. -/
theorem acquire_spec {addr : α → Nat} {create : Nat → α} (hcreate : ∀ n, addr (create n) = n) {p p' : Pool α} {a : α}
    (h : p.WellFormed addr) (ha : p.acquire create = some (a, p')) :
    p'.WellFormed addr ∧ p'.capacity = p.capacity ∧ ¬ p.InUse addr (addr a) ∧
      ∀ n, p'.InUse addr n ↔ n = addr a ∨ p.InUse addr n := by
  obtain ⟨h1, h2, h3⟩ := h
  unfold InUse
  rcases acquire_cases ha with ⟨rest, hf, rfl⟩ | ⟨hf, hlt, rfl, rfl⟩
  · rw [hf] at h1 h2 ⊢
    rw [List.map_cons, List.nodup_cons] at h1
    refine ⟨⟨h1.2, fun x hx => h2 x (List.mem_cons_of_mem _ hx), h3⟩, rfl, by simp, fun n => ?_⟩
    have hb := h2 a List.mem_cons_self
    by_cases hn : n = addr a
    · subst hn
      simp only [true_or, iff_true]
      exact ⟨hb, h1.1⟩
    · simp [hn]
  · rw [hf]
    refine ⟨⟨List.nodup_nil, by simp, hlt⟩, rfl, by simp [hcreate], fun n => ?_⟩
    simp only [List.map_nil, List.not_mem_nil, not_false_eq_true, and_true, hcreate]
    omega

/-- **A release puts back an entry in use**, and changes nothing else. -/
theorem release_spec {addr : α → Nat} {p : Pool α} {a : α} (h : p.WellFormed addr) (ha : p.InUse addr (addr a)) :
    (p.release a).WellFormed addr ∧ ∀ n, (p.release a).InUse addr n ↔ n ≠ addr a ∧ p.InUse addr n := by
  refine ⟨⟨?_, ?_, h.capacity⟩, fun n => ?_⟩
  · rw [release, List.map_cons, List.nodup_cons]
    exact ⟨ha.2, h.nodup⟩
  · intro x hx
    rcases List.mem_cons.1 hx with rfl | hx
    · exact ha.1
    · exact h.created x hx
  · simp only [InUse, release, List.map_cons, List.mem_cons, not_or]
    tauto

/-! ## Counting -/

/-- **While fewer entries are in use than the pool can make, one can be acquired.** -/
theorem acquire_of_length_lt {addr : α → Nat} {create : Nat → α} (hcreate : ∀ n, addr (create n) = n) {p : Pool α}
    (h : p.WellFormed addr) {ns : List Nat} (hns : ∀ n, p.InUse addr n ↔ n ∈ ns) (hlt : ns.length < p.capacity) :
    ∃ a p', p.acquire create = some (a, p') ∧ p'.WellFormed addr ∧ p'.capacity = p.capacity ∧ addr a ∉ ns ∧
      ∀ n, p'.InUse addr n ↔ n = addr a ∨ n ∈ ns := by
  cases ha : p.acquire create with
  | none =>
    -- every entry that can be made is in use
    obtain ⟨hfree, hcap⟩ := acquire_eq_none.1 ha
    have hsub : List.range p.capacity ⊆ ns := fun n hn => by
      rw [List.mem_range] at hn
      exact (hns n).1 ⟨by omega, by simp [hfree]⟩
    have hle := (List.subperm_of_subset List.nodup_range hsub).length_le
    rw [List.length_range] at hle
    omega
  | some r =>
    obtain ⟨a, p'⟩ := r
    obtain ⟨h1, h2, h3, h4⟩ := acquire_spec hcreate h ha
    refine ⟨a, p', rfl, h1, h2, fun hmem => h3 ((hns _).2 hmem), fun n => ?_⟩
    rw [h4 n, hns n]

/-- **As many entries are handed out as there are names in use.** -/
theorem used_eq_length {addr : α → Nat} {p : Pool α} (h : p.WellFormed addr) {ns : List Nat} (hnodup : ns.Nodup)
    (hns : ∀ n, p.InUse addr n ↔ n ∈ ns) : p.used = ns.length := by
  have hdisj : List.Disjoint (p.free.map addr) ns := fun n hfree hn => ((hns n).2 hn).2 hfree
  have hperm : (p.free.map addr ++ ns).Perm (List.range p.created) := by
    rw [List.perm_ext_iff_of_nodup (h.nodup.append hnodup hdisj) List.nodup_range]
    intro n
    rw [List.mem_append, List.mem_range, ← hns n]
    constructor
    · rintro (hfree | huse)
      · obtain ⟨a, ha, rfl⟩ := List.mem_map.1 hfree
        exact h.created a ha
      · exact huse.1
    · intro hlt
      by_cases hfree : n ∈ p.free.map addr
      · exact Or.inl hfree
      · exact Or.inr ⟨hlt, hfree⟩
  have hlen := hperm.length_eq
  rw [List.length_append, List.length_map, List.length_range] at hlen
  unfold used
  omega

/-! ## Every entry in one place -/

/-- Every entry made is either free or among `out`, once. -/
structure Conserved (addr : α → Nat) (p : Pool α) (out : Multiset Nat) : Prop where
  total : (p.free.map addr : Multiset Nat) + out = Multiset.range p.created
  capacity : p.created ≤ p.capacity

namespace Conserved

variable {addr : α → Nat} {create : Nat → α} {p p' : Pool α} {out : Multiset Nat} {a : α}

theorem empty (addr : α → Nat) (capacity : Nat) : (Pool.empty capacity).Conserved addr 0 :=
  ⟨by simp [Pool.empty], Nat.zero_le _⟩

theorem acquire (hcreate : ∀ n, addr (create n) = n) (h : p.Conserved addr out)
    (ha : p.acquire create = some (a, p')) : p'.Conserved addr (addr a ::ₘ out) := by
  obtain ⟨htotal, hcap⟩ := h
  rcases acquire_cases ha with ⟨rest, hf, rfl⟩ | ⟨hf, hlt, rfl, rfl⟩
  · refine ⟨?_, hcap⟩
    rw [hf, List.map_cons, ← Multiset.cons_coe] at htotal
    rw [Multiset.add_cons, ← Multiset.cons_add]
    exact htotal
  · refine ⟨?_, hlt⟩
    rw [Multiset.add_cons, htotal, hcreate, Multiset.range_succ]

theorem release (h : p.Conserved addr (addr a ::ₘ out)) : (p.release a).Conserved addr out := by
  obtain ⟨htotal, hcap⟩ := h
  refine ⟨?_, hcap⟩
  rw [Pool.release, List.map_cons, ← Multiset.cons_coe, Multiset.cons_add, ← Multiset.add_cons]
  exact htotal

theorem free_add_card (h : p.Conserved addr out) : p.free.length + out.card = p.created := by
  have := congrArg Multiset.card h.total
  simpa using this

/-- **Nothing is left to hand out exactly when as many entries are out as the pool can make.** -/
theorem exhausted_iff (h : p.Conserved addr out) : p.exhausted ↔ out.card = p.capacity := by
  have hcard := h.free_add_card
  have hcap := h.capacity
  unfold exhausted
  constructor
  · rintro ⟨hf, hc⟩
    rw [hf, List.length_nil] at hcard
    omega
  · intro hout
    exact ⟨List.eq_nil_of_length_eq_zero (by omega), by omega⟩

end Conserved

theorem capacity_acquire {create : Nat → α} {p p' : Pool α} {a : α} (ha : p.acquire create = some (a, p')) :
    p'.capacity = p.capacity := by
  rcases acquire_cases ha with ⟨rest, -, rfl⟩ | ⟨-, -, -, rfl⟩ <;> rfl

end Pool
