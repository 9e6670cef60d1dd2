import Mathlib
/-!
# Common — what every module speaks of (`mrpc_common.h`)

The result of a fallible call, and the ways a run of the C code can stop short: the model returns these as errors, so
that "no assertion fails" is a statement about results.
-/
namespace Mrpc

/-- `enum ff_result`. -/
inductive FfResult where
  | success
  | failure
  deriving DecidableEq, Repr

/-- How far the user of a client or a server got; `stopping` is inside `mrpc_client_stop` or `mrpc_server_stop`. -/
inductive RunPhase where
  | stopped
  | running
  | stopping
  deriving DecidableEq, Repr

/-- A run that stops short: a failing `ff_assert`, a shift by the width of its operand or more, an access past the end
of an array, a wait that nothing ends. -/
inductive Fault where
  | assertion
  | shiftAmount
  | outOfRange
  | blocked
  deriving DecidableEq, Repr

/-- `ff_assert`. -/
def ffAssert (p : Prop) [Decidable p] : Except Fault Unit := if p then .ok () else .error .assertion

theorem ffAssert_of {p : Prop} [Decidable p] (h : p) : ffAssert p = .ok () := if_pos h

theorem of_ffAssert {p : Prop} [Decidable p] {u : Unit} (h : ffAssert p = .ok u) : p := by
  by_contra hp
  simp [ffAssert, hp] at h

/-- **A sequence that succeeds succeeds step by step.** -/
theorem bind_eq_ok {ε α β : Type} {x : Except ε α} {f : α → Except ε β} {b : β} (h : x >>= f = .ok b) :
    ∃ a, x = .ok a ∧ f a = .ok b := by
  cases x with
  | error e => cases h
  | ok a => exact ⟨a, rfl, h⟩

theorem ok_bind {ε α β : Type} (a : α) (f : α → Except ε β) : (Except.ok a >>= f) = f a := rfl

end Mrpc
