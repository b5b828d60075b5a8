import Mathlib.Logic.Relation
import Mathlib.Order.Defs.Unbundled

namespace Verification

/-- A handler returns a value, returns an error, panics, or never returns. -/
inductive Exit (Failure Value : Type) where
  | ok (value : Value)
  | error (failure : Failure)
  | panic (message : String)
  | diverge

namespace Exit

variable {Failure Other Value Result : Type}

/-- The second program runs only after a value. -/
protected def bind (outcome : Exit Failure Value) (next : Value → Exit Failure Result) :
    Exit Failure Result :=
  match outcome with
  | .ok value => next value
  | .error failure => .error failure
  | .panic message => .panic message
  | .diverge => .diverge

instance : Monad (Exit Failure) where
  pure := .ok
  bind := Exit.bind

/-- The result of a program that neither panics nor runs forever. -/
def ofExcept : Except Failure Value → Exit Failure Value
  | .ok value => .ok value
  | .error failure => .error failure

def mapError (change : Failure → Other) : Exit Failure Value → Exit Other Value
  | .ok value => .ok value
  | .error failure => .error (change failure)
  | .panic message => .panic message
  | .diverge => .diverge

/-- The program comes back with a value or an error. -/
def Returns (outcome : Exit Failure Value) : Prop :=
  (∃ value, outcome = .ok value) ∨ ∃ failure, outcome = .error failure

/-- A panic is no return. -/
theorem panic_not_returns (message : String) :
    ¬ (.panic message : Exit Failure Value).Returns := by
  rintro (⟨_, same⟩ | ⟨_, same⟩) <;> cases same

/-- A loop without end is no return. -/
theorem diverge_not_returns : ¬ (.diverge : Exit Failure Value).Returns := by
  rintro (⟨_, same⟩ | ⟨_, same⟩) <;> cases same

/-- A value goes on to the next program. -/
theorem ok_bind (value : Value) (next : Value → Exit Failure Result) :
    (.ok value >>= next) = next value := rfl

/-- Nothing follows a panic. -/
theorem panic_bind (message : String) (next : Value → Exit Failure Result) :
    (.panic message >>= next) = .panic message := rfl

/-- Another error leaves the values. -/
theorem mapError_ok {change : Failure → Other} {outcome : Exit Failure Value} {value : Value} :
    outcome.mapError change = .ok value ↔ outcome = .ok value := by
  cases outcome <;> simp [mapError]

/-- Another error is an error. -/
theorem mapError_error {change : Failure → Other} {outcome : Exit Failure Value} :
    (∃ failure, outcome.mapError change = .error failure) ↔
      ∃ failure, outcome = .error failure := by
  cases outcome <;> simp [mapError]

/-- Another error leaves whether the program returns. -/
theorem returns_mapError {change : Failure → Other} {outcome : Exit Failure Value} :
    (outcome.mapError change).Returns ↔ outcome.Returns := by
  simp only [Returns, mapError_ok, mapError_error]

end Exit

/-- A handler keeps the changes it made to its state also when it fails. -/
def Handler (State Failure Value : Type) : Type := State → Exit Failure Value × State

namespace Handler

variable {State Failure Value Result : Type}

/-- The second program runs only after a value. -/
protected def bind (program : Handler State Failure Value)
    (next : Value → Handler State Failure Result) : Handler State Failure Result := fun state =>
  match program state with
  | (.ok value, state) => next value state
  | (.error failure, state) => (.error failure, state)
  | (.panic message, state) => (.panic message, state)
  | (.diverge, state) => (.diverge, state)

instance : Monad (Handler State Failure) where
  pure value state := (.ok value, state)
  bind := Handler.bind

def read : Handler State Failure State := fun state => (.ok state, state)

def update (change : State → State) : Handler State Failure Unit := fun state =>
  (.ok (), change state)

def raise (failure : Failure) : Handler State Failure Value := fun state =>
  (.error failure, state)

def crash (message : String) : Handler State Failure Value := fun state =>
  (.panic message, state)

def loop : Handler State Failure Value := fun state => (.diverge, state)

/-- A result of a pure check, with its error passed on. -/
def check (result : Except Failure Value) : Handler State Failure Value := fun state =>
  match result with
  | .ok value => (.ok value, state)
  | .error failure => (.error failure, state)

/-- A program whose error is only logged. -/
def logged (program : Handler State Failure Unit) : Handler State Failure Unit := fun state =>
  match program state with
  | (.error _, state) => (.ok (), state)
  | outcome => outcome

/-- A read hands the state on. -/
theorem read_bind (next : State → Handler State Failure Result) (state : State) :
    (read >>= next) state = next state state := rfl

/-- A change hands the changed state on. -/
theorem update_bind (change : State → State) (next : Unit → Handler State Failure Result)
    (state : State) : (update change >>= next) state = next () (change state) := rfl

/-- A check that passes leaves the state. -/
theorem of_check_ok {result : Except Failure Value} {state after : State} {value : Value}
    (returns : check result state = (.ok value, after)) : result = .ok value ∧ after = state := by
  cases result with
  | ok given =>
      cases returns
      exact ⟨rfl, rfl⟩
  | error failure => cases returns

/-- A sequence returns when its parts do. -/
theorem bind_ok {program : Handler State Failure Value} {next : Value → Handler State Failure Result}
    {state last : State} {result : Result} :
    (program >>= next) state = (.ok result, last) ↔
      ∃ value middle, program state = (.ok value, middle) ∧
        next value middle = (.ok result, last) := by
  change Handler.bind program next state = _ ↔ _
  unfold Handler.bind
  rcases program state with ⟨outcome, middle⟩
  cases outcome with
  | ok value => simp [and_assoc]
  | error failure => simp
  | panic message => simp
  | diverge => simp

/-- The rest of a sequence sees only what its first part did. -/
theorem bind_same {program other : Handler State Failure Value}
    {next : Value → Handler State Failure Result} {state state' : State}
    (same : program state = other state') : (program >>= next) state = (other >>= next) state' := by
  change Handler.bind program next state = Handler.bind other next state'
  unfold Handler.bind
  rw [same]

/-- Programs in a row may be bracketed either way. -/
theorem bind_assoc {Last : Type} (program : Handler State Failure Value)
    (next : Value → Handler State Failure Result) (last : Result → Handler State Failure Last) :
    (program >>= next) >>= last = program >>= fun value => next value >>= last := by
  funext state
  change Handler.bind (Handler.bind program next) last state =
    Handler.bind program (fun value => Handler.bind (next value) last) state
  unfold Handler.bind
  rcases program state with ⟨outcome, middle⟩
  cases outcome <;> rfl

/-- To return nothing at the end changes nothing. -/
theorem bind_return (program : Handler State Failure Unit) :
    (program >>= fun _ => return ()) = program := by
  funext state
  change Handler.bind program (fun _ state => (.ok (), state)) state = program state
  unfold Handler.bind
  rcases program state with ⟨outcome, middle⟩
  cases outcome <;> rfl

/-- A sequence comes back only where its first part does. -/
theorem bind_returns {program : Handler State Failure Value}
    {next : Value → Handler State Failure Result} {state : State}
    (returns : ((program >>= next) state).1.Returns) : (program state).1.Returns := by
  change (Handler.bind program next state).1.Returns at returns
  unfold Handler.bind at returns
  rcases ran : program state with ⟨outcome, middle⟩
  rw [ran] at returns
  cases outcome with
  | ok value => exact .inl ⟨value, rfl⟩
  | error failure => exact .inr ⟨failure, rfl⟩
  | panic message => exact absurd returns (Exit.panic_not_returns message)
  | diverge => exact absurd returns Exit.diverge_not_returns

/-- A panic of the first program is one of both. -/
theorem bind_panic {program : Handler State Failure Value}
    (next : Value → Handler State Failure Result) {state after : State} {message : String}
    (panics : program state = (.panic message, after)) :
    (program >>= next) state = (.panic message, after) := by
  change Handler.bind program next state = _
  unfold Handler.bind
  rw [panics]

/-- Sequences agree on a state when their first parts do, and the rest after each value returned. -/
theorem bind_agree {program other : Handler State Failure Value}
    {next rest : Value → Handler State Failure Result} {state : State}
    (first : program state = other state)
    (second : ∀ value middle, other state = (.ok value, middle) →
      next value middle = rest value middle) :
    (program >>= next) state = (other >>= rest) state := by
  change Handler.bind program next state = Handler.bind other rest state
  unfold Handler.bind
  rw [first]
  rcases outcome : other state with ⟨result, middle⟩
  cases result with
  | ok value => exact second value middle outcome
  | _ => rfl

/-- The program changes the state only by steps, and a returned value meets the postcondition.
A program that panics or never returns took steps up to a fault. -/
def Leads (step fault : State → State → Prop) (program : Handler State Failure Value)
    (state : State) (post : Value → State → Prop) : Prop :=
  match program state with
  | (.ok value, after) => Relation.ReflTransGen step state after ∧ post value after
  | (.error _, after) => Relation.ReflTransGen step state after
  | (.panic _, after) => ∃ last, Relation.ReflTransGen step state last ∧ fault last after
  | (.diverge, after) => ∃ last, Relation.ReflTransGen step state last ∧ fault last after

section Leads

variable {step fault : State → State → Prop} {state : State}

/-- A stronger postcondition leads to a weaker one. -/
theorem Leads.weaken {program : Handler State Failure Value} {post post' : Value → State → Prop}
    (leads : Leads step fault program state post)
    (implies : ∀ value after, Relation.ReflTransGen step state after →
      post value after → post' value after) : Leads step fault program state post' := by
  unfold Leads at leads ⊢
  rcases outcome : program state with ⟨result, after⟩
  rw [outcome] at leads
  cases result with
  | ok value => exact ⟨leads.1, implies value after leads.1 leads.2⟩
  | error failure => exact leads
  | panic message => exact leads
  | diverge => exact leads

/-- A program that returns took its steps and meets its postcondition. -/
theorem Leads.of_ok {program : Handler State Failure Value} {post : Value → State → Prop}
    (leads : Leads step fault program state post) {value : Value} {after : State}
    (returns : program state = (.ok value, after)) :
    Relation.ReflTransGen step state after ∧ post value after := by
  unfold Leads at leads
  rwa [returns] at leads

/-- Steps in front of a program are steps of the whole. -/
theorem Leads.after {program : Handler State Failure Value} {middle : State}
    {post : Value → State → Prop} (first : Relation.ReflTransGen step state middle)
    {rest : Exit Failure Value × State} (outcome : program middle = rest)
    (leads : Leads step fault program middle post) :
    Leads step fault (fun _ => rest) state post := by
  unfold Leads at leads ⊢
  rw [outcome] at leads
  rcases rest with ⟨result, after⟩
  cases result with
  | ok value => exact ⟨first.trans leads.1, leads.2⟩
  | error failure => exact first.trans leads
  | panic message =>
      obtain ⟨last, steps, faulty⟩ := leads
      exact ⟨last, first.trans steps, faulty⟩
  | diverge =>
      obtain ⟨last, steps, faulty⟩ := leads
      exact ⟨last, first.trans steps, faulty⟩

/-- A return takes no step. -/
theorem Leads.return {value : Value} {post : Value → State → Prop} (holds : post value state) :
    Leads step fault (pure value : Handler State Failure Value) state post :=
  ⟨.refl, holds⟩

/-- The steps of a sequence are the steps of its parts. -/
theorem Leads.bind {program : Handler State Failure Value}
    {next : Value → Handler State Failure Result} {post : Result → State → Prop}
    (leads : Leads step fault program state fun value after =>
      Leads step fault (next value) after post) :
    Leads step fault (program >>= next) state post := by
  change Leads step fault (Handler.bind program next) state post
  unfold Leads at leads
  rcases outcome : program state with ⟨result, after⟩
  rw [outcome] at leads
  have run : Handler.bind program next state = match result with
      | .ok value => next value after
      | .error failure => (.error failure, after)
      | .panic message => (.panic message, after)
      | .diverge => (.diverge, after) := by
    simp only [Handler.bind, outcome]
    cases result <;> rfl
  cases result with
  | ok value =>
      have whole := Leads.after leads.1 rfl leads.2
      unfold Leads at whole ⊢
      rw [run]
      exact whole
  | error failure =>
      unfold Leads
      rw [run]
      exact leads
  | panic message =>
      unfold Leads
      rw [run]
      exact leads
  | diverge =>
      unfold Leads
      rw [run]
      exact leads

/-- A read takes no step. -/
theorem Leads.read {post : State → State → Prop} (holds : post state state) :
    Leads step fault (read : Handler State Failure State) state post :=
  ⟨.refl, holds⟩

/-- A change is reached by steps. -/
theorem Leads.update {change : State → State} {post : Unit → State → Prop}
    (steps : Relation.ReflTransGen step state (change state)) (holds : post () (change state)) :
    Leads step fault (update change : Handler State Failure Unit) state post :=
  ⟨steps, holds⟩

/-- A panic is a fault in the state where it happens. -/
theorem Leads.crash {message : String} {post : Value → State → Prop}
    (faulty : fault state state) :
    Leads step fault (crash message : Handler State Failure Value) state post :=
  ⟨state, .refl, faulty⟩

/-- A loop without end is a fault in the state where it starts. -/
theorem Leads.loop {post : Value → State → Prop} (faulty : fault state state) :
    Leads step fault (loop : Handler State Failure Value) state post :=
  ⟨state, .refl, faulty⟩

/-- A check takes no step, and its value is the one that it passed. -/
theorem Leads.check {result : Except Failure Value} {post : Value → State → Prop}
    (holds : ∀ value, result = .ok value → post value state) :
    Leads step fault (check result : Handler State Failure Value) state post := by
  cases result with
  | ok value => exact ⟨.refl, holds value rfl⟩
  | error failure => exact Relation.ReflTransGen.refl

end Leads

/-- The program relates every state to the one that it leaves behind, however it ends. -/
def Frames (rel : State → State → Prop) (program : Handler State Failure Value) : Prop :=
  ∀ state, rel state (program state).2

section Frames

variable {rel : State → State → Prop}

/-- A change frames a relation between each state and the changed one. -/
theorem Frames.update {change : State → State} (changes : ∀ state, rel state (change state)) :
    Frames rel (update change : Handler State Failure Unit) := changes

/-- A program frames what its frame implies. -/
theorem Frames.weaken {weaker : State → State → Prop} {program : Handler State Failure Value}
    (frames : Frames rel program) (implies : ∀ state after, rel state after → weaker state after) :
    Frames weaker program := fun state => implies _ _ (frames state)

/-- The relation of a sequence is the relation of its parts. -/
theorem Frames.bind [IsTrans State rel] {program : Handler State Failure Value}
    {next : Value → Handler State Failure Result} (first : Frames rel program)
    (second : ∀ value, Frames rel (next value)) : Frames rel (program >>= next) := by
  intro state
  have start := first state
  change rel state (Handler.bind program next state).2
  unfold Handler.bind
  rcases outcome : program state with ⟨result, middle⟩
  rw [outcome] at start
  cases result with
  | ok value => exact IsTrans.trans _ _ _ start (second value middle)
  | _ => exact start

variable [Std.Refl rel]

/-- A return frames every reflexive relation. -/
theorem Frames.return (value : Value) :
    Frames rel (pure value : Handler State Failure Value) := fun _ => Std.Refl.refl _

/-- A read frames every reflexive relation. -/
theorem Frames.read : Frames rel (read : Handler State Failure State) :=
  fun _ => Std.Refl.refl _

/-- A panic frames every reflexive relation. -/
theorem Frames.crash (message : String) :
    Frames rel (crash message : Handler State Failure Value) := fun _ => Std.Refl.refl _

/-- A loop without end frames every reflexive relation. -/
theorem Frames.loop : Frames rel (loop : Handler State Failure Value) :=
  fun _ => Std.Refl.refl _

/-- A check frames every reflexive relation. -/
theorem Frames.check (result : Except Failure Value) :
    Frames rel (check result : Handler State Failure Value) := by
  intro state
  cases result <;> exact Std.Refl.refl _

end Frames

end Handler

end Verification
