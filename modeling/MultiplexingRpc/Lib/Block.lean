import Mathlib.Data.List.Basic
/-!
# Block — statements with one exit label

C code that cleans up behind a label runs its statements in order until one of them jumps there.  `step x s` is what the
statement `x` does to the state `s`, and whether it jumps; `run` executes a list of statements.
-/
namespace Block

variable {α S : Type} (step : α → S → Bool × S)

/-- The statements in order, up to the first that jumps. -/
def run : List α → S → Bool × S
  | [], s => (false, s)
  | x :: xs, s =>
    match step x s with
    | (true, s) => (true, s)
    | (false, s) => run xs s

variable {step}

theorem run_nil (s : S) : run step [] s = (false, s) := rfl

theorem run_cons_of_next {x : α} {s t : S} (h : step x s = (false, t)) (xs : List α) :
    run step (x :: xs) s = run step xs t := by
  rw [run, h]

theorem run_cons_of_jump {x : α} {s t : S} (h : step x s = (true, t)) (xs : List α) :
    run step (x :: xs) s = (true, t) := by
  rw [run, h]

theorem run_append_of_next {xs : List α} {s t : S} (h : run step xs s = (false, t)) (ys : List α) :
    run step (xs ++ ys) s = run step ys t := by
  induction xs generalizing s with
  | nil =>
    cases h
    rfl
  | cons x xs ih =>
    rcases hx : step x s with ⟨jump, t⟩
    cases jump with
    | true =>
      rw [run_cons_of_jump hx] at h
      cases h
    | false =>
      rw [run_cons_of_next hx] at h
      rw [List.cons_append, run_cons_of_next hx]
      exact ih h

theorem run_append_of_jump {xs : List α} {s t : S} (h : run step xs s = (true, t)) (ys : List α) :
    run step (xs ++ ys) s = (true, t) := by
  induction xs generalizing s with
  | nil => cases h
  | cons x xs ih =>
    rcases hx : step x s with ⟨jump, t⟩
    cases jump with
    | true =>
      rw [run_cons_of_jump hx] at h
      rw [List.cons_append, run_cons_of_jump hx, h]
    | false =>
      rw [run_cons_of_next hx] at h
      rw [List.cons_append, run_cons_of_next hx]
      exact ih h

/-- **The rule for a block.**  Every statement keeps `P` and establishes `Q`, of its jump and its state; so does the
block, unless it is empty. -/
theorem run_rule {P : S → Prop} {Q : Bool → S → Prop} {xs : List α}
    (hstep : ∀ x ∈ xs, ∀ s, P s → P (step x s).2 ∧ Q (step x s).1 (step x s).2) {s : S} (hP : P s)
    (hQ : xs = [] → Q false s) : P (run step xs s).2 ∧ Q (run step xs s).1 (run step xs s).2 := by
  induction xs generalizing s with
  | nil => exact ⟨hP, hQ rfl⟩
  | cons x xs ih =>
    have hx := hstep x List.mem_cons_self s hP
    rcases heq : step x s with ⟨jump, t⟩
    rw [heq] at hx
    cases jump with
    | true =>
      rw [run_cons_of_jump heq]
      exact hx
    | false =>
      rw [run_cons_of_next heq]
      exact ih (fun y hy => hstep y (List.mem_cons_of_mem _ hy)) hx.1 (fun _ => hx.2)

end Block
