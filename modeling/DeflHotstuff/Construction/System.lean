import DeflHotstuff.Construction.Node

namespace DeflHotstuff

open Verification

variable [Crypto] [Rounds]

/-- The digest that the signature service of the node signs in the step. -/
def Action.signs : Action → Option Digest
  | .voted block => some (sha512 (.vote block.digest block.round))
  | .expired timeout => some timeout.digest
  | .built _ _ _ block => some block.digest
  | _ => none

def Node.signed (node : Node) : List Digest := node.core.history.filterMap Action.signs

/-- A committee with the members that need not follow the code. -/
structure System where
  setup : Setup
  faulty : PublicKey → Bool

namespace System

variable (system : System)

def honest (name : PublicKey) : Bool := name ∈ system.setup.committee.keys ∧ system.faulty name = false

/-- Nobody forges: a valid signature of an honest member is on a digest that it signed. -/
def deliverable (nodes : PublicKey → Node) (message : ConsensusMessage) : Bool :=
  message.claims.all fun claim =>
    !system.honest claim.author || !Crypto.verify claim.author claim.digest claim.signature ||
      (nodes claim.author).signed.contains claim.digest

def allowed (nodes : PublicKey → Node) : Event → Bool
  | .message message => system.deliverable nodes message
  | _ => true

/-- An honest node takes a turn. The network delivers any message that forges no signature,
at any time, any number of times or never. -/
def step (nodes : PublicKey → Node) (turn : PublicKey × Event) : Option (PublicKey → Node) :=
  if system.honest turn.1 ∧ system.allowed nodes turn.2 = true then
    ((nodes turn.1).step system.setup turn.1 turn.2).map fun node =>
      Function.update nodes turn.1 node
  else none

def machine : Machine (PublicKey → Node) (PublicKey × Event) :=
  ⟨fun name => Node.boot system.setup name, system.step⟩

/-- The machine with the rounds of a release build. -/
def machine64 : Machine (PublicKey → Node) (PublicKey × Event) := @machine _ .u64 system

/-- The stake of the members that need not follow the code. -/
def faultyStake : Nat :=
  ∑ name ∈ system.setup.committee.keys.toFinset with system.faulty name = true,
    system.setup.committee.stake name

end System

end DeflHotstuff
