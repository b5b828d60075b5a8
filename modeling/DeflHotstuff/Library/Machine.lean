import Mathlib.Data.List.Basic
import Mathlib.Logic.Relation

namespace Verification

/-- What every step preserves, any number of steps preserves. -/
theorem steps_preserve {State : Type} {step : State → State → Prop} {invariant : State → Prop}
    {state after : State} (steps : Relation.ReflTransGen step state after)
    (holds : invariant state)
    (preserved : ∀ state after, step state after → invariant state → invariant after) :
    invariant after := by
  induction steps with
  | refl => exact holds
  | tail _ step ih => exact preserved _ _ step ih

/-- A machine takes one enabled event at a time. -/
structure Machine (State Event : Type) where
  initial : State
  step : State → Event → Option State

namespace Machine

variable {State Event : Type}

/-- The run takes the events in order, and each one meets the condition before its step. -/
inductive Run (machine : Machine State Event) (condition : State → Event → Prop) :
    List Event → State → Prop
  | start : Run machine condition [] machine.initial
  | next {events : List Event} {state after : State} {event : Event}
      (run : Run machine condition events state) (allowed : condition state event)
      (steps : machine.step state event = some after) :
      Run machine condition (events ++ [event]) after

/-- A state is reachable when some run without a condition ends in it. -/
def Reachable (machine : Machine State Event) (state : State) : Prop :=
  ∃ events, Run machine (fun _ _ => True) events state

/-- The machine takes a fixed list of events from a given state. -/
def execute (machine : Machine State Event) (state : State) : List Event → Option State
  | [] => some state
  | event :: rest => (machine.step state event).bind fun after => machine.execute after rest

/-- Each event of the list meets the condition in the state it is taken in. -/
def allows (machine : Machine State Event) (condition : State → Event → Bool) (state : State) :
    List Event → Bool
  | [] => true
  | event :: rest => condition state event &&
      match machine.step state event with
      | some after => machine.allows condition after rest
      | none => true

variable {machine : Machine State Event} {condition : State → Event → Prop}

/-- Two lists of events are taken one after the other. -/
theorem execute_append {first second : List Event} {state after : State} :
    machine.execute state (first ++ second) = some after ↔
      ∃ middle, machine.execute state first = some middle ∧
        machine.execute middle second = some after := by
  induction first generalizing state with
  | nil => simp [execute]
  | cons event rest ih =>
      simp only [List.cons_append, execute, Option.bind_eq_some_iff, ih]
      constructor
      · rintro ⟨next, steps, middle, former, latter⟩
        exact ⟨middle, ⟨next, steps, former⟩, latter⟩
      · rintro ⟨middle, ⟨next, steps, former⟩, latter⟩
        exact ⟨next, steps, middle, former, latter⟩

/-- A run under a condition is one under a weaker condition. -/
theorem Run.weaken {weaker : State → Event → Prop} {events : List Event} {state : State}
    (run : Run machine condition events state)
    (implies : ∀ state event, condition state event → weaker state event) :
    Run machine weaker events state := by
  induction run with
  | start => exact .start
  | next _ allowed steps ih => exact .next ih (implies _ _ allowed) steps

/-- The state after a run is reachable. -/
theorem Run.reachable {events : List Event} {state : State}
    (run : Run machine condition events state) : machine.Reachable state :=
  ⟨events, run.weaken fun _ _ _ => trivial⟩

/-- The initial state is reachable. -/
theorem Reachable.start : machine.Reachable machine.initial := ⟨[], .start⟩

/-- A step from a reachable state leads to one. -/
theorem Reachable.next {state after : State} {event : Event} (reachable : machine.Reachable state)
    (steps : machine.step state event = some after) : machine.Reachable after := by
  obtain ⟨events, run⟩ := reachable
  exact ⟨events ++ [event], .next run trivial steps⟩

/-- Two machines that agree on every allowed step have the same runs. -/
theorem Run.transfer {other : Machine State Event} {events : List Event} {state : State}
    (run : Run machine condition events state) (initially : machine.initial = other.initial)
    (agrees : ∀ state event, condition state event →
      machine.step state event = other.step state event) :
    Run other condition events state := by
  induction run with
  | start =>
      rw [initially]
      exact .start
  | next _ allowed steps ih => exact .next ih allowed ((agrees _ _ allowed).symm.trans steps)

/-- A run executes its events. -/
theorem Run.executed {events : List Event} {state : State}
    (run : Run machine condition events state) :
    machine.execute machine.initial events = some state := by
  induction run with
  | start => rfl
  | next _ _ steps ih => exact execute_append.mpr ⟨_, ih, by rw [execute, steps]; rfl⟩

/-- The first events of a run are a run, and the rest leads on from its end. -/
theorem Run.split {first second : List Event} {state : State}
    (run : Run machine condition (first ++ second) state) :
    ∃ middle, Run machine condition first middle ∧ machine.execute middle second = some state := by
  generalize whole : first ++ second = events at run
  induction run generalizing second with
  | start =>
      obtain ⟨rfl, rfl⟩ := List.append_eq_nil_iff.mp whole
      exact ⟨_, .start, rfl⟩
  | @next events state after event run allowed steps ih =>
      rcases List.eq_nil_or_concat second with rfl | ⟨rest, last, rfl⟩
      · rw [List.append_nil] at whole
        subst whole
        exact ⟨after, .next run allowed steps, rfl⟩
      · rw [List.concat_eq_append, ← List.append_assoc] at whole
        obtain ⟨sameRest, sameLast⟩ := List.append_inj' whole rfl
        cases sameLast
        obtain ⟨middle, former, latter⟩ := ih sameRest
        refine ⟨middle, former, ?_⟩
        rw [List.concat_eq_append]
        exact execute_append.mpr ⟨_, latter, by rw [execute, steps]; rfl⟩

/-- An invariant of the first state and of each allowed step holds after the run. -/
theorem Run.invariant {events : List Event} {state : State}
    (run : Run machine condition events state) (invariant : State → Prop)
    (initially : invariant machine.initial)
    (preserved : ∀ state event after, machine.Reachable state → condition state event →
      invariant state → machine.step state event = some after → invariant after) :
    invariant state := by
  induction run with
  | start => exact initially
  | next run allowed steps ih => exact preserved _ _ _ run.reachable allowed ih steps

/-- What holds initially and is kept by every step holds of all reachable states. -/
theorem Reachable.invariant {state : State} (reachable : machine.Reachable state)
    (invariant : State → Prop) (initially : invariant machine.initial)
    (preserved : ∀ state event after, machine.Reachable state →
      invariant state → machine.step state event = some after → invariant after) :
    invariant state := by
  obtain ⟨events, run⟩ := reachable
  exact run.invariant invariant initially fun _ _ _ reached _ => preserved _ _ _ reached

/-- A run projects to a run of another machine when each step keeps the view or is a step there. -/
theorem Run.project {View Turn : Type} {other : Machine View Turn} {condition' : View → Turn → Prop}
    (view : State → View) (initially : view machine.initial = other.initial)
    (projects : ∀ state event after, condition state event →
      machine.step state event = some after → view after = view state ∨
        ∃ turn, condition' (view state) turn ∧ other.step (view state) turn = some (view after))
    {events : List Event} {state : State} (run : Run machine condition events state) :
    ∃ turns, Run other condition' turns (view state) := by
  induction run with
  | start =>
      rw [initially]
      exact ⟨[], .start⟩
  | next run allowed steps ih =>
      obtain ⟨turns, projected⟩ := ih
      rcases projects _ _ _ allowed steps with same | ⟨turn, allowed', steps'⟩
      · rw [same]
        exact ⟨turns, projected⟩
      · exact ⟨turns ++ [turn], .next projected allowed' steps'⟩

/-- An executed list of events whose checks succeed extends the run. -/
theorem Run.execute (checked : State → Event → Bool) {taken events : List Event}
    {state after : State} (run : Run machine condition taken state)
    (sound : ∀ state event, checked state event = true → condition state event)
    (allowed : machine.allows checked state events = true)
    (executed : machine.execute state events = some after) :
    Run machine condition (taken ++ events) after := by
  induction events generalizing taken state with
  | nil =>
      cases executed
      simpa using run
  | cons event rest ih =>
      rw [Machine.execute, Option.bind_eq_some_iff] at executed
      obtain ⟨middle, steps, executed⟩ := executed
      rw [Machine.allows, steps, Bool.and_eq_true] at allowed
      have extended := ih (.next run (sound _ _ allowed.1) steps) allowed.2 executed
      simpa using extended

/-- An executed list of events that passes its checks is a run. -/
theorem Run.of_execute {checked : State → Event → Bool} {events : List Event} {after : State}
    (allowed : machine.allows checked machine.initial events = true)
    (executed : machine.execute machine.initial events = some after) :
    Run machine (fun state event => checked state event = true) events after :=
  Run.start.execute checked (fun _ _ => id) allowed executed

/-- What each step preserves of the events so far and the state, a list of events preserves. -/
theorem execute_history (invariant : List Event → State → Prop)
    (preserved : ∀ taken state event after, invariant taken state →
      machine.step state event = some after → invariant (taken ++ [event]) after)
    (taken : List Event) {events : List Event} {state after : State}
    (holds : invariant taken state) (executed : machine.execute state events = some after) :
    invariant (taken ++ events) after := by
  induction events generalizing taken state with
  | nil =>
      cases executed
      rwa [List.append_nil]
  | cons event rest ih =>
      rw [Machine.execute, Option.bind_eq_some_iff] at executed
      obtain ⟨middle, steps, executed⟩ := executed
      rw [List.append_cons]
      exact ih _ (preserved taken state event middle holds steps) executed

/-- What every step keeps is kept by an execution. -/
theorem execute_preserves (invariant : State → Prop)
    (preserved : ∀ state event after, invariant state → machine.step state event = some after →
      invariant after)
    {events : List Event} {state after : State} (holds : invariant state)
    (executed : machine.execute state events = some after) : invariant after :=
  execute_history (fun _ => invariant) (fun _ => preserved) [] holds executed

/-- An execution from a reachable state leads to one. -/
theorem Reachable.extend {events : List Event} {state after : State}
    (reachable : machine.Reachable state) (executed : machine.execute state events = some after) :
    machine.Reachable after :=
  execute_preserves machine.Reachable (fun _ _ _ => Reachable.next) reachable executed

/-- The end of an execution is reachable. -/
theorem Reachable.execute {events : List Event} {after : State}
    (executed : machine.execute machine.initial events = some after) :
    machine.Reachable after :=
  Reachable.start.extend executed

/-- A state awaits a good output until one is sent, unless an event ends the wait. -/
theorem execute_unless {Output : Type} (sent : State → List Output) (good : Output → Prop)
    (ends : Event → Prop) (awaits : State → Prop)
    (grows : ∀ state event after, machine.step state event = some after →
      sent state <+: sent after)
    (preserved : ∀ state event after, awaits state → machine.step state event = some after →
      (∃ output, sent after = sent state ++ [output] ∧ good output) ∨ ends event ∨ awaits after)
    {events : List Event} {state after : State} (holds : awaits state)
    (executed : machine.execute state events = some after) :
    (∃ output ∈ (sent after).drop (sent state).length, good output) ∨
      (∃ event ∈ events, ends event) ∨ awaits after := by
  induction events generalizing state with
  | nil =>
      cases executed
      exact .inr (.inr holds)
  | cons event rest ih =>
      rw [Machine.execute, Option.bind_eq_some_iff] at executed
      obtain ⟨middle, steps, executed⟩ := executed
      rcases preserved state event middle holds steps with ⟨output, isSent, isGood⟩ | ended | still
      · have grown : sent middle <+: sent after :=
          execute_preserves (fun later => sent middle <+: sent later)
            (fun _ _ _ grown steps => grown.trans (grows _ _ _ steps)) List.prefix_rfl executed
        obtain ⟨more, isMore⟩ := grown
        left
        exact ⟨output, by simp [← isMore, isSent], isGood⟩
      · right; left
        exact ⟨event, List.mem_cons_self, ended⟩
      · rcases ih still executed with ⟨output, inside, isGood⟩ | ⟨later, inside, ended⟩ | still
        · left
          have shorter := (grows state event middle steps).length_le
          exact ⟨output, List.drop_subset_drop_left _ shorter inside, isGood⟩
        · right; left
          exact ⟨later, List.mem_cons_of_mem _ inside, ended⟩
        · exact .inr (.inr still)

/-- Where each step keeps a state sound exactly if it meets the condition, the events end in a
sound state exactly if all of them meet the condition. -/
theorem sound_iff_allows {checked : State → Event → Bool} (invariant sound : State → Prop)
    (preserved : ∀ state event after, invariant state → machine.step state event = some after →
      invariant after)
    (exact : ∀ state event after, invariant state → machine.step state event = some after →
      (sound after ↔ sound state ∧ checked state event = true))
    {events : List Event} {state after : State} (holds : invariant state)
    (executed : machine.execute state events = some after) :
    sound after ↔ sound state ∧ machine.allows checked state events = true := by
  induction events generalizing state with
  | nil =>
      cases executed
      simp [allows]
  | cons event rest ih =>
      rw [Machine.execute, Option.bind_eq_some_iff] at executed
      obtain ⟨middle, steps, executed⟩ := executed
      rw [ih (preserved state event middle holds steps) executed,
        exact state event middle holds steps, Machine.allows, steps, Bool.and_eq_true, and_assoc]

/-- Where each step adds the entries of its event to an account, the events add all of theirs. -/
theorem execute_account {Entry : Type} (account : State → List Entry) (entries : Event → List Entry)
    (grows : ∀ state event after, machine.step state event = some after →
      account after = account state ++ entries event)
    {events : List Event} {state after : State}
    (executed : machine.execute state events = some after) :
    account after = account state ++ events.flatMap entries := by
  induction events generalizing state with
  | nil =>
      cases executed
      simp
  | cons event rest ih =>
      rw [Machine.execute, Option.bind_eq_some_iff] at executed
      obtain ⟨middle, steps, executed⟩ := executed
      rw [ih executed, grows state event middle steps, List.flatMap_cons, List.append_assoc]

end Machine

end Verification
