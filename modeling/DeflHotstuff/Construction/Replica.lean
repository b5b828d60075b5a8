import DeflHotstuff.Construction.Application
import DeflHotstuff.Construction.System

namespace DeflHotstuff

open Verification

/-- The methods of a request to the obsido, as `prost` reads them from their numbers. -/
inductive ObsidoMethod where
  | fetchWLast
  | clientRegister

def ObsidoMethod.fromI32 : Int → Option ObsidoMethod
  | 0 => some .fetchWLast
  | 1 => some .clientRegister
  | _ => none

structure ObsidoRequest where
  method : Int
  requestUuid : String
  clientName : String
  registerInfo : Option RegisterInfo

/-- The response to a fetch carries the weights of the last databank. -/
def Databanks.fetchWLast (node : Databanks) (responseUuid requestUuid : String) :
    WeightsResponse where
  responseUuid := responseUuid
  requestUuid := some requestUuid
  rLastEpochId := node.lastDeflDatabank.epochId
  wLast := node.lastDeflDatabank.clientWeights

variable [Crypto] [Rounds]

/-- The obsido shares the last databank and the contacts with the application. It answers a fetch
to all clients, and an unknown method is only logged. -/
def ObsidoHandler.handle (formats : Formats) (request : ObsidoRequest) : ApplicationTask Unit := do
  match ObsidoMethod.fromI32 request.method with
  | some .fetchWLast =>
      let node ← Handler.read
      Handler.update fun node => { node with drawn := node.drawn + 1 }
      Application.respondToAllClient formats
        (node.databanks.fetchWLast (formats.newV4 node.drawn) request.requestUuid)
  | some .clientRegister =>
      match request.registerInfo with
      | none => return ()
      | some info => Handler.update fun node =>
          { node with contacts := node.contacts.clientRegister request.clientName info }
  | none => return ()

/-- The application of a node with the rest of the payload that it executes and the number of
blocks that it took from the commit channel. -/
structure Replica where
  application : Application
  payload : List Digest
  received : Nat
  halted : Bool
  obsidoHalted : Bool

namespace Replica

def boot (quorum : Nat) : Replica where
  application := ⟨.new quorum, .new, [], 0⟩
  payload := []
  received := 0
  halted := false
  obsidoHalted := false

/-- `analyze_block` takes the next block, or executes the next batch of the block in hand.
A panic ends the process. -/
def analyze (formats : Formats) (core : Core) (replica : Replica) : Option Replica :=
  if replica.halted then none
  else
    match replica.payload with
    | [] => core.txCommit[replica.received]?.map fun block =>
        { replica with payload := block.payload, received := replica.received + 1 }
    | digest :: rest =>
        match core.store.read digest with
        | none => some { replica with halted := true }
        | some value =>
            match Application.analyzeMessage formats (formats.decodeMessage (formats.bytes value))
              replica.application with
            | (.ok _, application) =>
                some { replica with application := application, payload := rest }
            | (_, application) => some { replica with application := application, halted := true }

/-- A panic ends the task of the obsido only. -/
def serve (formats : Formats) (request : ObsidoRequest) (replica : Replica) : Option Replica :=
  if replica.halted || replica.obsidoHalted then none
  else
    match ObsidoHandler.handle formats request replica.application with
    | (.ok _, application) => some { replica with application := application }
    | (_, application) => some { replica with application := application, obsidoHalted := true }

end Replica

/-- The nodes of a system, each with its application. -/
structure Deployment where
  nodes : PublicKey → Node
  replicas : PublicKey → Replica

inductive DeploymentEvent where
  | turn (turn : PublicKey × Event)
  | analyze (name : PublicKey)
  | obsido (name : PublicKey) (request : ObsidoRequest)

namespace Deployment

variable (system : System) (formats : Formats) (quorum : PublicKey → Nat)

/-- A node whose application panicked takes no more turns. -/
def step (deployment : Deployment) : DeploymentEvent → Option Deployment
  | .turn turn =>
      if (deployment.replicas turn.1).halted then none
      else (system.step deployment.nodes turn).map fun nodes => { deployment with nodes := nodes }
  | .analyze name =>
      ((deployment.replicas name).analyze formats (deployment.nodes name).core).map fun replica =>
        { deployment with replicas := Function.update deployment.replicas name replica }
  | .obsido name request =>
      ((deployment.replicas name).serve formats request).map fun replica =>
        { deployment with replicas := Function.update deployment.replicas name replica }

def machine : Machine Deployment DeploymentEvent where
  initial := ⟨system.machine.initial, fun name => .boot (quorum name)⟩
  step := step system formats

/-- The machine with the rounds of a release build. -/
def machine64 : Machine Deployment DeploymentEvent := @machine _ .u64 system formats quorum

end Deployment

end DeflHotstuff
