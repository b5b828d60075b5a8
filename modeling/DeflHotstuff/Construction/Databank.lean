import Mathlib.Data.Finset.Card

namespace DeflHotstuff

/-- The methods of a client request, as `prost` reads them from their numbers. -/
inductive Method where
  | updWeights
  | newEpochVote
  deriving DecidableEq

def Method.fromI32 : Int → Option Method
  | 0 => some .updWeights
  | 1 => some .newEpochVote
  | _ => none

structure ClientRequest where
  method : Int
  requestUuid : String
  clientName : String
  targetEpochId : Int
  weights : Option (List UInt8)

inductive Status where
  | ok
  | notMeetQuorumWait
  | uwTargetEpochIdError
  | nevTargetEpochIdError
  | noWeightsInRequestError
  | clientAlreadyVotedError
  | serverInternalError
  deriving DecidableEq

def Status.toI32 : Status → Int
  | .ok => 0x00
  | .notMeetQuorumWait => 0x01
  | .uwTargetEpochIdError => 0x10
  | .nevTargetEpochIdError => 0x11
  | .noWeightsInRequestError => 0x20
  | .clientAlreadyVotedError => 0x30
  | .serverInternalError => 0xff

/-- The codes of the statuses differ. -/
theorem Status.toI32_injective : Function.Injective Status.toI32 := by
  intro first second same
  cases first <;> cases second <;> first | rfl | cases same

structure Response where
  stat : Int
  responseUuid : String
  requestUuid : String

/-- The weights of the clients by name. -/
def ClientWeights := String → Option (List UInt8)

namespace ClientWeights

def empty : ClientWeights := fun _ => none

def insert (clientWeights : ClientWeights) (clientName : String) (weights : List UInt8) :
    ClientWeights :=
  fun client => if client = clientName then some weights else clientWeights client

end ClientWeights

structure WeightsResponse where
  responseUuid : String
  requestUuid : Option String
  rLastEpochId : Int
  wLast : ClientWeights

structure DeflDatabank where
  clientWeights : ClientWeights
  epochId : Int

def DeflDatabank.new (initEpochId : Int) : DeflDatabank := ⟨.empty, initEpochId⟩

/-- The part of the application node that serves the committed requests. -/
structure Databanks where
  lastDeflDatabank : DeflDatabank
  curDeflDatabank : DeflDatabank
  votedClients : Finset String
  quorumSize : Nat

namespace Databanks

def new (quorum : Nat) : Databanks where
  lastDeflDatabank := .new (-1)
  curDeflDatabank := .new 0
  votedClients := ∅
  quorumSize := quorum

/-- The status of a request, the passive response and the next state. -/
def serve (node : Databanks) (request : ClientRequest) (passiveUuid : String) :
    Status × Option WeightsResponse × Databanks :=
  match Method.fromI32 request.method with
  | some .updWeights =>
      match decide (request.targetEpochId = node.curDeflDatabank.epochId), request.weights with
      | true, some weights => (.ok, none, { node with
          curDeflDatabank := { node.curDeflDatabank with
            clientWeights := node.curDeflDatabank.clientWeights.insert request.clientName weights } })
      | true, none => (.noWeightsInRequestError, none, node)
      | false, _ => (.uwTargetEpochIdError, none, node)
  | some .newEpochVote =>
      if request.targetEpochId = node.curDeflDatabank.epochId then
        if request.clientName ∉ node.votedClients then
          let voted := insert request.clientName node.votedClients
          if voted.card < node.quorumSize then
            (.notMeetQuorumWait, none, { node with votedClients := voted })
          else
            (.ok,
              some {
                responseUuid := passiveUuid
                requestUuid := none
                rLastEpochId := node.curDeflDatabank.epochId
                wLast := node.curDeflDatabank.clientWeights },
              { node with
                lastDeflDatabank := node.curDeflDatabank
                curDeflDatabank := ⟨.empty, node.curDeflDatabank.epochId + 1⟩
                votedClients := ∅ })
        else (.clientAlreadyVotedError, none, node)
      else (.nevTargetEpochIdError, none, node)
  | none => (.serverInternalError, none, node)

/-- The random identifiers of the two responses come from outside. -/
def getResponses (node : Databanks) (request : ClientRequest)
    (passiveUuid responseUuid : String) : Response × Option WeightsResponse × Databanks :=
  let (stat, passiveResponse, node) := node.serve request passiveUuid
  (⟨stat.toI32, responseUuid, request.requestUuid⟩, passiveResponse, node)

end Databanks

end DeflHotstuff
