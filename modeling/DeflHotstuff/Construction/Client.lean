import DeflHotstuff.Construction.Committer
import DeflHotstuff.Construction.Replica

namespace DeflHotstuff

open Verification

/-- The first response of the last epoch is kept. A client waits while its queue is empty. -/
def ObsidoResponseQueue.drain : List WeightsResponse → Option WeightsResponse
  | [] => none
  | fetchResp :: pending => some (pending.foldl (fun fetchResp pendingFetchResp =>
      if fetchResp.rLastEpochId < pendingFetchResp.rLastEpochId then pendingFetchResp
      else fetchResp) fetchResp)

/-- A call at its queue is cancelled and returns nothing. -/
def Committer.cancel (committer : Committer) (requestUuid : String) (call : Call) : Committer :=
  { committer.setPhase requestUuid call (.returned none) with
    responseMap := committer.responseMap.erase requestUuid }

/-- Where `client_routine` is: at the fetch queue, or in one of its two calls. -/
inductive Routine where
  | draining
  | updating (requestUuid : String) (nextEpochId : Int)
  | voting (requestUuid : String) (nextEpochId : Int) (updWeightResp : Response)

/-- The call that the routine is in. -/
def Routine.call : Routine → Option String
  | .draining => none
  | .updating requestUuid _ => some requestUuid
  | .voting requestUuid _ _ => some requestUuid

/-- The state of a client with what it aggregated for each target epoch, the requests that it
transmitted and the epochs that it completed with the responses of its two calls. -/
structure Client where
  epochId : Int
  fetchQueue : List WeightsResponse
  committer : Committer
  routine : Routine
  aggregated : List (Int × ClientWeights)
  requests : List ClientRequest
  completed : List (Int × Response × Response)

/-- The identifiers of the requests and the trained weights come from outside. -/
inductive ClientEvent where
  | drain (requestUuid : String) (curWeights : List UInt8)
  | answer (ack : Bool)
  | collect (requestUuid : String)
  | resume (requestUuid : String)
  | vote (requestUuid : String)
  | finish (dropped : Bool)
  | timeout

namespace Client

def start : Client where
  epochId := -1
  fetchQueue := []
  committer := .new
  routine := .draining
  aggregated := []
  requests := []
  completed := []

/-- `handle_active` and `handle_passive` serve connections of the replica at any time. -/
def handle (client : Client) : ClientMessage → Client
  | .response response => { client with committer := client.committer.handleActive response }
  | .weights response => { client with fetchQueue := client.fetchQueue ++ [response] }

/-- The first part of `update_weights` and of `new_epoch_vote`. -/
def transmit (client : Client) (method : Method) (request : ClientRequest) : Option Client :=
  (client.committer.step (.call request.requestUuid method)).map fun committer =>
    { client with committer := committer, requests := client.requests ++ [request] }

/-- The routine trains on the last weights for the next epoch, unless the replica seems old. -/
def train (clientName : String) (client : Client) (fetchResp : WeightsResponse)
    (requestUuid : String) (curWeights : List UInt8) : Option Client :=
  if client.epochId > fetchResp.rLastEpochId then some client
  else
    let nextEpochId := fetchResp.rLastEpochId + 1
    let aggregated := { client with
      routine := .updating requestUuid nextEpochId
      aggregated := client.aggregated ++ [(nextEpochId, fetchResp.wLast)] }
    aggregated.transmit .updWeights ⟨0, requestUuid, clientName, nextEpochId, some curWeights⟩

/-- A cancelled call goes on when it transmits, after it opened the connection again. At its queue
it returns nothing, and with it the routine. -/
def cancel (client : Client) (requestUuid : String) : Option Client :=
  match client.committer.calls requestUuid with
  | some ⟨method, .waiting queue⟩ => some { client with
      committer := client.committer.cancel requestUuid ⟨method, .waiting queue⟩
      routine := .draining }
  | some ⟨_, .transmitting⟩ =>
      (client.committer.step (.answer true)).map fun committer => { client with committer }
  | some ⟨_, .acked⟩ => some client
  | _ => none

/-- A routine returns the epoch that it was called with when one of its calls returns nothing. The
result of a routine that outlives its timeout may be dropped. -/
def step (clientName : String) (client : Client) : ClientEvent → Option Client
  | .drain requestUuid curWeights =>
      match client.routine, ObsidoResponseQueue.drain client.fetchQueue with
      | .draining, some fetchResp =>
          { client with fetchQueue := [] }.train clientName fetchResp requestUuid curWeights
      | _, _ => none
  | .answer ack =>
      (client.committer.step (.answer ack)).map fun committer => { client with committer }
  | .collect requestUuid =>
      (client.committer.step (.collect requestUuid)).map fun committer => { client with committer }
  | .resume requestUuid =>
      (client.committer.step (.resume requestUuid)).map fun committer => { client with committer }
  | .vote voteUuid =>
      match client.routine with
      | .updating requestUuid nextEpochId =>
          match client.committer.calls requestUuid with
          | some ⟨_, .returned none⟩ => some { client with routine := .draining }
          | some ⟨_, .returned (some updWeightResp)⟩ =>
              { client with routine := .voting voteUuid nextEpochId updWeightResp }.transmit
                .newEpochVote ⟨1, voteUuid, clientName, nextEpochId, none⟩
          | _ => none
      | _ => none
  | .finish dropped =>
      match client.routine with
      | .voting requestUuid nextEpochId updWeightResp =>
          match client.committer.calls requestUuid with
          | some ⟨_, .returned none⟩ => some { client with routine := .draining }
          | some ⟨_, .returned (some newEpochResp)⟩ =>
              if dropped then some { client with routine := .draining }
              else some { client with
                epochId := nextEpochId
                routine := .draining
                completed := client.completed ++ [(nextEpochId, updWeightResp, newEpochResp)] }
          | _ => none
      | _ => none
  | .timeout =>
      match client.routine.call with
      | none => some client
      | some requestUuid => client.cancel requestUuid

end Client

variable [Crypto] [Rounds]

/-- A deployment with its clients. -/
structure Federation where
  deployment : Deployment
  clients : String → Client

inductive FederationEvent where
  | deployment (event : DeploymentEvent)
  | deliver (clientName : String) (index : Nat)
  | client (clientName : String) (event : ClientEvent)

namespace Federation

variable (system : System) (formats : Formats) (quorum : PublicKey → Nat)
  (host : String → PublicKey)

/-- Each client is one of a replica, whose messages it gets in any order, repeatedly or never. -/
def step (federation : Federation) : FederationEvent → Option Federation
  | .deployment event => (Deployment.step system formats federation.deployment event).map
      fun deployment => { federation with deployment }
  | .deliver clientName index =>
      (federation.deployment.replicas (host clientName)).application.network[index]?.map
        fun sent => { federation with
          clients := Function.update federation.clients clientName
            ((federation.clients clientName).handle sent.2.2) }
  | .client clientName event =>
      ((federation.clients clientName).step clientName event).map fun client =>
        { federation with clients := Function.update federation.clients clientName client }

def machine : Machine Federation FederationEvent where
  initial := ⟨(Deployment.machine system formats quorum).initial, fun _ => .start⟩
  step := step system formats host

/-- The machine with the rounds of a release build. -/
def machine64 : Machine Federation FederationEvent := @machine _ .u64 system formats quorum host

end Federation

end DeflHotstuff
