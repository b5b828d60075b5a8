import DeflHotstuff.Construction.Databank
import DeflHotstuff.Library.Machine
import Mathlib.Logic.Function.Basic

namespace DeflHotstuff

open Verification

/-- Where a call of the client is: in `transmit`, before `collect`, at its queue, or at its end. -/
inductive CallPhase where
  | transmitting
  | acked
  | waiting (queue : Option Response)
  | returned (response : Option Response)

/-- A call of `update_weights` or `new_epoch_vote`, which differ in the request only. -/
structure Call where
  method : Method
  phase : CallPhase

/-- The client side of the requests. One coroutine at a time reads the replica connection, and the
lock of the response map is never held across an await. The code keeps no record of the responses
and of the failures of `handle_active`. -/
structure Committer where
  calls : String → Option Call
  reading : Option String
  responseMap : List String
  delivered : List Response
  failed : List Response

inductive CommitterEvent where
  | call (requestUuid : String) (method : Method)
  | answer (ack : Bool)
  | collect (requestUuid : String)
  | active (response : Response)
  | resume (requestUuid : String)

namespace Committer

def new : Committer := ⟨fun _ => none, none, [], [], []⟩

def setPhase (committer : Committer) (requestUuid : String) (call : Call) (phase : CallPhase) :
    Committer :=
  { committer with calls := Function.update committer.calls requestUuid (some { call with phase }) }

/-- A response for an unknown request fails, since its queue is never bound. -/
def handleActive (committer : Committer) (response : Response) : Committer :=
  let arrived := { committer with delivered := committer.delivered ++ [response] }
  if response.requestUuid ∈ committer.responseMap then
    let found := { arrived with
      responseMap := committer.responseMap.erase response.requestUuid }
    match committer.calls response.requestUuid with
    | some call => found.setPhase response.requestUuid call (.waiting (some response))
    | none => found
  else { arrived with failed := committer.failed ++ [response] }

def step (committer : Committer) : CommitterEvent → Option Committer
  | .call requestUuid method =>
      match committer.calls requestUuid, committer.reading with
      | none, none => some { committer.setPhase requestUuid ⟨method, .transmitting⟩ .transmitting with
          reading := some requestUuid }
      | _, _ => none
  | .answer ack =>
      match committer.reading with
      | none => none
      | some requestUuid =>
          (committer.calls requestUuid).map fun call =>
            { committer.setPhase requestUuid call (if ack then .acked else .returned none) with
              reading := none }
  | .collect requestUuid =>
      match committer.calls requestUuid with
      | some ⟨method, .acked⟩ =>
          some { committer.setPhase requestUuid ⟨method, .acked⟩ (.waiting none) with
            responseMap := requestUuid :: committer.responseMap }
      | _ => none
  | .active response => some (committer.handleActive response)
  | .resume requestUuid =>
      match committer.calls requestUuid with
      | some ⟨method, .waiting (some response)⟩ =>
          some (committer.setPhase requestUuid ⟨method, .waiting (some response)⟩
            (.returned (some response)))
      | _ => none

/-- The client under every order of acknowledgements, responses and coroutines. -/
def machine : Machine Committer CommitterEvent := ⟨new, step⟩

end Committer

end DeflHotstuff
