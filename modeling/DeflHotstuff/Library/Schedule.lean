import Mathlib.Tactic.ByContra

namespace Verification

/-- A system that takes an endless sequence of events, each of them in every state. -/
structure Schedule (State Event : Type) where
  step : State → Event → State
  initial : State
  events : Nat → Event

namespace Schedule

variable {State Event : Type}

/-- The state before the event of the given time. -/
def state (schedule : Schedule State Event) : Nat → State
  | 0 => schedule.initial
  | time + 1 => schedule.step (schedule.state time) (schedule.events time)

variable {schedule : Schedule State Event} {first last : Nat}

/-- The state at a time is a step from the one before. -/
theorem state_succ (time : Nat) :
    schedule.state (time + 1) = schedule.step (schedule.state time) (schedule.events time) := rfl

/-- What each event from some time on keeps, holds at all later times. -/
theorem always (invariant : State → Prop) (order : first ≤ last)
    (holds : invariant (schedule.state first))
    (preserved : ∀ time, first ≤ time → invariant (schedule.state time) →
      invariant (schedule.state (time + 1))) : invariant (schedule.state last) := by
  induction order with
  | refl => exact holds
  | step later ih => exact preserved _ later ih

/-- What each event keeps, holds at all later times. -/
theorem stable (invariant : State → Prop) (order : first ≤ last)
    (holds : invariant (schedule.state first))
    (preserved : ∀ state event, invariant state → invariant (schedule.step state event)) :
    invariant (schedule.state last) :=
  always invariant order holds fun _ _ => preserved _ _

/-- What holds at first and each event keeps, holds at all times. -/
theorem invariant (invariant : State → Prop) (initially : invariant schedule.initial)
    (preserved : ∀ time, invariant (schedule.state time) → invariant (schedule.state (time + 1)))
    (time : Nat) : invariant (schedule.state time) :=
  always invariant (Nat.zero_le time) initially fun middle _ => preserved middle

/-- What each event keeps until some time comes, still holds when it comes for the first time. -/
theorem first_time (invariant : State → Prop) {comes : Nat → Prop}
    (awaited : ∃ last, first ≤ last ∧ comes last)
    (holds : invariant (schedule.state first))
    (preserved : ∀ time, first ≤ time → ¬ comes time → invariant (schedule.state time) →
      invariant (schedule.state (time + 1))) :
    ∃ last, first ≤ last ∧ comes last ∧ invariant (schedule.state last) := by
  obtain ⟨last, order, isLast⟩ := awaited
  by_contra never
  have holdsUntil : ∀ time, first ≤ time → invariant (schedule.state time) := by
    intro time later
    refine always invariant later holds fun middle after kept => ?_
    exact preserved middle after (fun isMiddle => never ⟨middle, after, isMiddle, kept⟩) kept
  exact never ⟨last, order, isLast, holdsUntil last order⟩

end Schedule

end Verification
