import DeflHotstuff.Construction.Store
import Mathlib.Logic.Function.Basic

namespace DeflHotstuff

inductive StoreCommand (Key Value : Type) where
  | write (key : Key) (value : Value)
  | read (key : Key)
  | notifyRead (key : Key)

/-- A reply to the sender of an earlier command, with the number of the command that caused it. -/
structure StoreReply (Value : Type) where
  sender : Nat
  response : Option Value
  during : Nat

/-- The task behind all clones of a store. Each command has a sender of its own, which goes by the
number of the command. The code keeps no record of the replies. -/
structure StoreTask (Key Value : Type) where
  db : Key → Option Value
  obligations : Key → Option (List Nat)
  handled : Nat
  replies : List (StoreReply Value)

namespace StoreTask

variable {Key Value : Type} [DecidableEq Key]

def new : StoreTask Key Value := ⟨fun _ => none, fun _ => none, 0, []⟩

def step (task : StoreTask Key Value) : StoreCommand Key Value → StoreTask Key Value
  | .write key value =>
      let written := { task with
        db := Function.update task.db key (some value)
        handled := task.handled + 1 }
      match task.obligations key with
      | none => written
      | some senders => { written with
          obligations := Function.update task.obligations key none
          replies := task.replies ++ senders.map fun sender =>
            ⟨sender, some value, task.handled⟩ }
  | .read key => { task with
      handled := task.handled + 1
      replies := task.replies ++ [⟨task.handled, task.db key, task.handled⟩] }
  | .notifyRead key =>
      match task.db key with
      | none => { task with
          obligations := Function.update task.obligations key
            (some ((task.obligations key).getD [] ++ [task.handled]))
          handled := task.handled + 1 }
      | some value => { task with
          handled := task.handled + 1
          replies := task.replies ++ [⟨task.handled, some value, task.handled⟩] }

def run (commands : List (StoreCommand Key Value)) : StoreTask Key Value :=
  commands.foldl step new

end StoreTask

/-- What a command does to the store of the consensus. -/
def Store.apply [Crypto] (store : Store) : StoreCommand Digest Value → Store
  | .write key value => store.write key value
  | .read _ => store
  | .notifyRead _ => store

end DeflHotstuff
