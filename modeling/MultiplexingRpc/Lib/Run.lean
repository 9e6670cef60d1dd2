import Mathlib
/-!
# Run — finite runs of a step function

A system is a partial step function on states and actions; a run is a list of actions, each taken in the state the ones
before it lead to.  `Meets step C s as` says that every step of the run from `s` meets the condition `C`, read at the
state before it.
-/
namespace Run

variable {σ α : Type} {step : σ → α → Option σ}

/-- The state a run leads to, if each of its actions can be taken. -/
def exec (step : σ → α → Option σ) : σ → List α → Option σ
  | s, [] => some s
  | s, a :: as => (step s a).bind fun s' => exec step s' as

def Meets (step : σ → α → Option σ) (C : σ → α → Prop) : σ → List α → Prop
  | _, [] => True
  | s, a :: as => C s a ∧ ∀ s', step s a = some s' → Meets step C s' as

theorem exec_cons {s s' : σ} {a : α} {as : List α} :
    exec step s (a :: as) = some s' ↔ ∃ t, step s a = some t ∧ exec step t as = some s' :=
  Option.bind_eq_some_iff

theorem exec_cons_of {s t : σ} {a : α} (as : List α) (h : step s a = some t) :
    exec step s (a :: as) = exec step t as := by
  rw [exec, h, Option.bind_some]

theorem exec_append_of {t : σ} (bs : List α) :
    ∀ (as : List α) {s : σ}, exec step s as = some t → exec step s (as ++ bs) = exec step t bs
  | [], _, h => by cases h; rfl
  | a :: as, _, h => by
    obtain ⟨u, hu, h⟩ := exec_cons.1 h
    rw [List.cons_append, exec_cons_of _ hu, exec_append_of bs as h]

/-- **The invariant rule**: what holds first and is kept by every step that meets the condition holds after every run
whose steps all meet it. -/
theorem invariant {P : σ → Prop} {C : σ → α → Prop} (hstep : ∀ s a s', P s → C s a → step s a = some s' → P s') :
    ∀ (as : List α) {s s' : σ}, P s → Meets step C s as → exec step s as = some s' → P s'
  | [], _, _, hs, _, h => by cases h; exact hs
  | a :: as, s, _, hs, hC, h => by
    obtain ⟨u, hu, h⟩ := exec_cons.1 h
    exact invariant hstep as (hstep s a u hs hC.1 hu) (hC.2 u hu) h

/-- **The simulation rule**: where each step that meets the condition is matched by a run of the other system, so is a run
whose steps all meet it. -/
theorem simulation {τ β : Type} {step' : τ → β → Option τ} {R : σ → τ → Prop} {C : σ → α → Prop}
    (hstep : ∀ s a s' t, R s t → C s a → step s a = some s' → ∃ bs t', exec step' t bs = some t' ∧ R s' t') :
    ∀ (as : List α) {s s' : σ} {t : τ}, R s t → Meets step C s as → exec step s as = some s' →
      ∃ bs t', exec step' t bs = some t' ∧ R s' t'
  | [], _, _, t, hR, _, h => by cases h; exact ⟨[], t, rfl, hR⟩
  | a :: as, s, _, t, hR, hC, h => by
    obtain ⟨u, hu, h⟩ := exec_cons.1 h
    obtain ⟨bs, t₁, hbs, hR₁⟩ := hstep s a u t hR hC.1 hu
    obtain ⟨bs', t₂, hbs', hR₂⟩ := simulation hstep as hR₁ (hC.2 u hu) h
    refine ⟨bs ++ bs', t₂, ?_, hR₂⟩
    rw [exec_append_of bs' bs hbs]
    exact hbs'

theorem meets_mono {C D : σ → α → Prop} (hCD : ∀ s a, C s a → D s a) :
    ∀ (as : List α) {s : σ}, Meets step C s as → Meets step D s as
  | [], _, _ => trivial
  | a :: as, s, h => ⟨hCD s a h.1, fun s' hs' => meets_mono hCD as (h.2 s' hs')⟩

theorem meets_append {C : σ → α → Prop} {bs : List α} :
    ∀ (as : List α) {s t : σ}, exec step s as = some t → Meets step C s (as ++ bs) → Meets step C s as ∧ Meets step C t bs
  | [], _, _, h, hC => by cases h; exact ⟨trivial, hC⟩
  | a :: as, _, _, h, hC => by
    obtain ⟨u, hu, h⟩ := exec_cons.1 h
    obtain ⟨h1, h2⟩ := meets_append as h (hC.2 u hu)
    refine ⟨⟨hC.1, fun s' hs' => ?_⟩, h2⟩
    rw [hu] at hs'
    cases hs'
    exact h1

theorem meets_cons_of {C : σ → α → Prop} {s t : σ} {a : α} {as : List α} (hC : C s a) (h : step s a = some t)
    (has : Meets step C t as) : Meets step C s (a :: as) := by
  refine ⟨hC, fun s' hs' => ?_⟩
  rw [h] at hs'
  cases hs'
  exact has

theorem meets_append_of {C : σ → α → Prop} {bs : List α} {t : σ} :
    ∀ (as : List α) {s : σ}, exec step s as = some t → Meets step C s as → Meets step C t bs → Meets step C s (as ++ bs)
  | [], _, h, _, hbs => by cases h; exact hbs
  | a :: as, _, h, has, hbs => by
    obtain ⟨u, hu, h⟩ := exec_cons.1 h
    refine ⟨has.1, fun s' hs' => ?_⟩
    rw [hu] at hs'
    cases hs'
    exact meets_append_of as h (has.2 u hu) hbs

/-- **A run meets a condition if each of its actions does**, in the state that the actions before it lead to. -/
theorem meets_iff {C : σ → α → Prop} : ∀ (as : List α) {s : σ},
    Meets step C s as ↔ ∀ (before : List α) (a : α) (t : σ), before ++ [a] <+: as → exec step s before = some t → C t a
  | [], s => by
    refine iff_of_true trivial fun before a t hle _ => ?_
    have hlen := hle.length_le
    simp at hlen
  | b :: as, s => by
    constructor
    · intro h before a t hle hrun
      cases before with
      | nil =>
        cases hrun
        cases (List.cons_prefix_cons.1 hle).1
        exact h.1
      | cons c before =>
        obtain ⟨rfl, hrest⟩ := List.cons_prefix_cons.1 hle
        obtain ⟨u, hu, hrun⟩ := exec_cons.1 hrun
        exact (meets_iff as).1 (h.2 u hu) before a t hrest hrun
    · intro h
      refine ⟨h [] b s ⟨as, rfl⟩ rfl, fun u hu => (meets_iff as).2 fun before a t hle hrun => ?_⟩
      exact h (b :: before) a t (List.cons_prefix_cons.2 ⟨rfl, hle⟩) (exec_cons.2 ⟨u, hu, hrun⟩)

/-- A run meets what each of its actions meets in any state. -/
theorem meets_of_forall {C : σ → α → Prop} {as : List α} (h : ∀ a ∈ as, ∀ s, C s a) {s : σ} : Meets step C s as :=
  (meets_iff as).2 fun _ a t hle _ => h a (hle.subset (by simp)) t

theorem meets_true (s : σ) (as : List α) : Meets step (fun _ _ => True) s as := meets_of_forall fun _ _ _ => trivial

/-- A condition that can be decided is checked along the run. -/
def check (step : σ → α → Option σ) (C : σ → α → Prop) [∀ s a, Decidable (C s a)] : σ → List α → Bool
  | _, [] => true
  | s, a :: as => decide (C s a) && (step s a).all fun s' => check step C s' as

theorem meets_of_check {C : σ → α → Prop} [∀ s a, Decidable (C s a)] :
    ∀ (as : List α) {s : σ}, check step C s as = true → Meets step C s as
  | [], _, _ => trivial
  | a :: as, s, h => by
    obtain ⟨hC, hrest⟩ := Bool.and_eq_true_iff.1 h
    refine ⟨of_decide_eq_true hC, fun s' hs' => meets_of_check as ?_⟩
    rw [hs'] at hrest
    exact hrest

end Run
