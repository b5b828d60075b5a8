import DeflHotstuff.Construction.Client
import DeflHotstuff.Library.Selection
import DeflHotstuff.Proof.Responses

namespace DeflHotstuff

open Verification

/-- The drained response is one of the queue, and none of the queue is of a later epoch. -/
theorem ObsidoResponseQueue.drain_latest {queue : List WeightsResponse}
    {fetchResp : WeightsResponse} (drains : drain queue = some fetchResp) : fetchResp ∈ queue ∧
      ∀ response ∈ queue, response.rLastEpochId ≤ fetchResp.rLastEpochId := by
  cases queue with
  | nil => cases drains
  | cons first pending =>
      rw [drain, Option.some.injEq] at drains
      subst drains
      exact foldl_latest WeightsResponse.rLastEpochId first pending

namespace Committer

variable {committer after : Committer} {event : CommitterEvent}

/-- A call holds only a delivered response to its request. -/
def Faithful (committer : Committer) : Prop :=
  ∀ requestUuid call response, committer.calls requestUuid = some call → Got call response →
    response ∈ committer.delivered ∧ response.requestUuid = requestUuid

/-- One call moves on, with a delivered response to its request if it holds any. -/
theorem Faithful.moves (faithful : committer.Faithful) {requestUuid : String} {call : Call}
    (calls : after.calls = Function.update committer.calls requestUuid (some call))
    (grows : committer.delivered ⊆ after.delivered)
    (holds : ∀ response, Got call response →
      response ∈ after.delivered ∧ response.requestUuid = requestUuid) : after.Faithful := by
  intro other held response found got
  rw [calls] at found
  by_cases same : other = requestUuid
  · subst same
    rw [Function.update_self] at found
    cases found
    exact holds response got
  · rw [Function.update_of_ne same] at found
    obtain ⟨inside, answers⟩ := faithful other held response found got
    exact ⟨grows inside, answers⟩

/-- A response is handed only to the call that waits for its identifier. -/
theorem Faithful.handleActive (faithful : committer.Faithful) (response : Response) :
    (committer.handleActive response).Faithful := by
  have grows : committer.delivered ⊆ committer.delivered ++ [response] :=
    List.subset_append_left _ _
  have stays (requestUuid : String) (call : Call) (held : Response)
      (found : committer.calls requestUuid = some call) (got : Got call held) :
      held ∈ committer.delivered ++ [response] ∧ held.requestUuid = requestUuid := by
    obtain ⟨inside, answers⟩ := faithful requestUuid call held found got
    exact ⟨grows inside, answers⟩
  unfold Committer.handleActive
  dsimp only
  split
  · split
    · apply faithful.moves rfl grows
      intro held got
      have same : held = response := by simpa [Got, eq_comm] using got
      subst same
      exact ⟨List.mem_append_right _ List.mem_cons_self, rfl⟩
    · exact stays
  · exact stays

/-- A step of the committer keeps it faithful. -/
theorem Faithful.step (faithful : committer.Faithful) (steps : committer.step event = some after) :
    after.Faithful := by
  cases event with
  | call requestUuid method =>
      simp only [Committer.step] at steps
      split at steps <;> cases steps
      exact faithful.moves rfl (List.Subset.refl _) (by simp [Got])
  | answer ack =>
      simp only [Committer.step] at steps
      split at steps
      · cases steps
      · obtain ⟨call, _, rfl⟩ := Option.map_eq_some_iff.mp steps
        refine faithful.moves rfl (List.Subset.refl _) ?_
        cases ack <;> simp [Got]
  | collect requestUuid =>
      simp only [Committer.step] at steps
      split at steps <;> cases steps
      exact faithful.moves rfl (List.Subset.refl _) (by simp [Got])
  | active response =>
      cases steps
      exact faithful.handleActive response
  | resume requestUuid =>
      simp only [Committer.step] at steps
      split at steps
      · rename_i method response found
        cases steps
        refine faithful.moves rfl (List.Subset.refl _) ?_
        intro held got
        have same : held = response := by simpa [Got, eq_comm] using got
        subst same
        exact faithful requestUuid _ held found (.inl rfl)
      · cases steps

/-- A cancelled call hands over no response. -/
theorem Faithful.cancel (faithful : committer.Faithful) (requestUuid : String) (call : Call) :
    (committer.cancel requestUuid call).Faithful :=
  faithful.moves rfl (List.Subset.refl _) (by simp [Got])

/-- Only the active server delivers. -/
theorem step_delivered (steps : committer.step event = some after)
    (quiet : ∀ response, event ≠ .active response) : after.delivered = committer.delivered := by
  cases event with
  | call requestUuid method =>
      simp only [Committer.step] at steps
      split at steps <;> cases steps
      rfl
  | answer ack =>
      simp only [Committer.step] at steps
      split at steps
      · cases steps
      · obtain ⟨call, _, rfl⟩ := Option.map_eq_some_iff.mp steps
        rfl
  | collect requestUuid =>
      simp only [Committer.step] at steps
      split at steps <;> cases steps
      rfl
  | active response => exact absurd rfl (quiet response)
  | resume requestUuid =>
      simp only [Committer.step] at steps
      split at steps <;> cases steps
      rfl

end Committer

namespace Client

variable {client after : Client} {clientName : String}

/-- The client transmitted a request with the method and the target epoch that the response
answers. -/
def Asked (client : Client) (method : Int) (epochId : Int) (requestUuid : String) : Prop :=
  ∃ request ∈ client.requests, request.method = method ∧ request.targetEpochId = epochId ∧
    request.requestUuid = requestUuid

/-- The client aggregates for an epoch after the one it is in. -/
def Aims (client : Client) (nextEpochId : Int) : Prop :=
  client.epochId < nextEpochId ∧ nextEpochId ∈ client.aggregated.map Prod.fst

/-- What the client got comes from trusted messages, and so does what it does with it. -/
structure Informed (trusted : ClientMessage → Prop) (client : Client) : Prop where
  queued : ∀ weights ∈ client.fetchQueue, trusted (.weights weights)
  delivered : ∀ response ∈ client.committer.delivered, trusted (.response response)
  faithful : client.committer.Faithful
  trained : ∀ entry ∈ client.aggregated, ∃ weights, trusted (.weights weights) ∧
    entry = (weights.rLastEpochId + 1, weights.wLast)
  updating : ∀ requestUuid next, client.routine = .updating requestUuid next →
    client.Aims next ∧ client.Asked 0 next requestUuid
  voting : ∀ requestUuid next response, client.routine = .voting requestUuid next response →
    client.Aims next ∧ client.Asked 1 next requestUuid ∧
      client.Asked 0 next response.requestUuid ∧ trusted (.response response)
  epoch : client.epochId = -1 ∨ client.epochId ∈ client.aggregated.map Prod.fst
  completed : ∀ entry ∈ client.completed, entry.1 ≤ client.epochId ∧
    (client.Asked 0 entry.1 entry.2.1.requestUuid ∧ trusted (.response entry.2.1)) ∧
      client.Asked 1 entry.1 entry.2.2.requestUuid ∧ trusted (.response entry.2.2)
  ascending : (client.completed.map Prod.fst).Pairwise (· < ·)

variable {trusted trusted' : ClientMessage → Prop}

/-- At the start the client has heard nothing. -/
theorem start_informed : start.Informed trusted where
  queued := by simp [start]
  delivered := by simp [start, Committer.new]
  faithful requestUuid call response found := by cases found
  trained := by simp [start]
  updating := by simp [start]
  voting := by simp [start]
  epoch := .inl rfl
  completed := by simp [start]
  ascending := List.Pairwise.nil

/-- A client stays informed by what is trusted when more is trusted. -/
theorem Informed.mono (informed : client.Informed trusted)
    (trusts : ∀ message, trusted message → trusted' message) : client.Informed trusted' where
  queued weights inside := trusts _ (informed.queued weights inside)
  delivered response inside := trusts _ (informed.delivered response inside)
  faithful := informed.faithful
  trained entry inside := by
    obtain ⟨weights, isTrusted, same⟩ := informed.trained entry inside
    exact ⟨weights, trusts _ isTrusted, same⟩
  updating := informed.updating
  voting requestUuid next response voting := by
    obtain ⟨aims, asked, updated, isTrusted⟩ := informed.voting requestUuid next response voting
    exact ⟨aims, asked, updated, trusts _ isTrusted⟩
  epoch := informed.epoch
  completed entry inside := by
    obtain ⟨within, ⟨updated, isTrusted⟩, voted, isTrusted'⟩ := informed.completed entry inside
    exact ⟨within, ⟨updated, trusts _ isTrusted⟩, voted, trusts _ isTrusted'⟩
  ascending := informed.ascending

/-- The committer moves on without a delivery. -/
theorem Informed.moves (informed : client.Informed trusted) {committer : Committer}
    (faithful : committer.Faithful) (same : committer.delivered = client.committer.delivered) :
    { client with committer := committer }.Informed trusted :=
  { informed with
    delivered := by
      rw [same]
      exact informed.delivered
    faithful := faithful }

/-- The routine ends without a result. -/
theorem Informed.ends (informed : client.Informed trusted) :
    { client with routine := .draining }.Informed trusted :=
  { informed with
    updating := by simp
    voting := by simp }

/-- A trusted message keeps the client informed. -/
theorem Informed.handle (informed : client.Informed trusted) {message : ClientMessage}
    (isTrusted : trusted message) : (client.handle message).Informed trusted := by
  cases message with
  | response response =>
      have delivered : (client.committer.handleActive response).delivered =
          client.committer.delivered ++ [response] := by
        unfold Committer.handleActive
        dsimp only
        split
        · split <;> rfl
        · rfl
      refine { informed with
        delivered := fun held inside => ?_, faithful := informed.faithful.handleActive response }
      change held ∈ (client.committer.handleActive response).delivered at inside
      rw [delivered] at inside
      rcases List.mem_append.mp inside with old | new
      · exact informed.delivered held old
      · cases List.mem_singleton.mp new
        exact isTrusted
  | weights weights =>
      refine { informed with queued := fun queued inside => ?_ }
      rcases List.mem_append.mp inside with old | new
      · exact informed.queued queued old
      · cases List.mem_singleton.mp new
        exact isTrusted

/-- A transmitted request is one more, and the committer takes the call. -/
theorem transmit_spec {method : Method} {request : ClientRequest}
    (transmits : client.transmit method request = some after) :
    ∃ committer, client.committer.step (.call request.requestUuid method) = some committer ∧
      committer.delivered = client.committer.delivered ∧
        after = { client with
          committer := committer, requests := client.requests ++ [request] } := by
  obtain ⟨committer, steps, rfl⟩ := Option.map_eq_some_iff.mp transmits
  exact ⟨committer, steps, Committer.step_delivered steps (by simp), rfl⟩

/-- The client trains on one more trusted response. -/
theorem Informed.aggregates (informed : client.Informed trusted) {fetchResp : WeightsResponse}
    (isTrusted : trusted (.weights fetchResp)) :
    { client with aggregated :=
      client.aggregated ++ [(fetchResp.rLastEpochId + 1, fetchResp.wLast)] }.Informed trusted := by
  have grows : client.aggregated.map Prod.fst ⊆
      (client.aggregated ++ [(fetchResp.rLastEpochId + 1, fetchResp.wLast)]).map Prod.fst := by
    rw [List.map_append]
    exact List.subset_append_left _ _
  refine { informed with trained := ?_, updating := ?_, voting := ?_, epoch := ?_ }
  · intro entry inside
    rcases List.mem_append.mp inside with old | new
    · exact informed.trained entry old
    · exact ⟨fetchResp, isTrusted, List.mem_singleton.mp new⟩
  · intro requestUuid next updating
    obtain ⟨⟨later, aims⟩, asked⟩ := informed.updating requestUuid next updating
    exact ⟨⟨later, grows aims⟩, asked⟩
  · intro requestUuid next response voting
    obtain ⟨⟨later, aims⟩, asked⟩ := informed.voting requestUuid next response voting
    exact ⟨⟨later, grows aims⟩, asked⟩
  · exact informed.epoch.imp_right fun inside => grows inside

/-- The client asks once more. -/
theorem Informed.asks (informed : client.Informed trusted) (request : ClientRequest) :
    { client with requests := client.requests ++ [request] }.Informed trusted := by
  have stays {method epochId : Int} {requestUuid : String}
      (asked : client.Asked method epochId requestUuid) :
      Asked { client with requests := client.requests ++ [request] } method epochId
        requestUuid := by
    obtain ⟨earlier, inside, asks⟩ := asked
    exact ⟨earlier, List.mem_append_left _ inside, asks⟩
  refine { informed with updating := ?_, voting := ?_, completed := ?_ }
  · intro requestUuid next updating
    obtain ⟨aims, asked⟩ := informed.updating requestUuid next updating
    exact ⟨aims, stays asked⟩
  · intro requestUuid next response voting
    obtain ⟨aims, asked, updated, isTrusted⟩ := informed.voting requestUuid next response voting
    exact ⟨aims, stays asked, stays updated, isTrusted⟩
  · intro entry inside
    obtain ⟨within, ⟨updated, isTrusted⟩, voted, isTrusted'⟩ := informed.completed entry inside
    exact ⟨within, ⟨stays updated, isTrusted⟩, stays voted, isTrusted'⟩

/-- Training on trusted weights keeps the client informed. -/
theorem Informed.train (informed : client.Informed trusted) {fetchResp : WeightsResponse}
    (isTrusted : trusted (.weights fetchResp)) {requestUuid : String} {curWeights : List UInt8}
    (trains : client.train clientName fetchResp requestUuid curWeights = some after) :
    after.Informed trusted := by
  unfold Client.train at trains
  split at trains
  · cases trains
    exact informed
  · rename_i recent
    obtain ⟨committer, steps, same, rfl⟩ := transmit_spec trains
    have aims : fetchResp.rLastEpochId + 1 ∈ (client.aggregated ++
        [(fetchResp.rLastEpochId + 1, fetchResp.wLast)]).map Prod.fst := by simp
    have grown := ((informed.aggregates isTrusted).asks ⟨0, requestUuid, clientName,
      fetchResp.rLastEpochId + 1, some curWeights⟩).moves (informed.faithful.step steps) same
    refine { grown with updating := ?_, voting := by simp }
    intro uuid next updating
    cases updating
    refine ⟨⟨?_, aims⟩, _, List.mem_append_right _ List.mem_cons_self, rfl, rfl, rfl⟩
    dsimp only
    omega

/-- A cancellation brings nothing that the client acts on. -/
theorem Informed.cancel (informed : client.Informed trusted) {requestUuid : String}
    (cancels : client.cancel requestUuid = some after) : after.Informed trusted := by
  unfold Client.cancel at cancels
  split at cancels
  · cases cancels
    exact informed.ends.moves (informed.faithful.cancel _ _) rfl
  · obtain ⟨committer, steps, rfl⟩ := Option.map_eq_some_iff.mp cancels
    exact informed.moves (informed.faithful.step steps)
      (Committer.step_delivered steps (by simp))
  · cases cancels
    exact informed
  · cases cancels

/-- A call that returns a response returns a trusted one to its request. -/
theorem Informed.returned (informed : client.Informed trusted) {requestUuid : String}
    {method : Method} {response : Response}
    (returns : client.committer.calls requestUuid = some ⟨method, .returned (some response)⟩) :
    trusted (.response response) ∧ response.requestUuid = requestUuid := by
  obtain ⟨delivered, answers⟩ := informed.faithful requestUuid _ response returns (.inr rfl)
  exact ⟨informed.delivered response delivered, answers⟩

/-- A vote keeps the client informed. -/
theorem Informed.vote (informed : client.Informed trusted) {voteUuid : String}
    (votes : client.step clientName (.vote voteUuid) = some after) : after.Informed trusted := by
  dsimp only [Client.step] at votes
  split at votes
  · rename_i requestUuid next updating
    obtain ⟨aims, asked⟩ := informed.updating requestUuid next updating
    split at votes
    · cases votes
      exact informed.ends
    · rename_i method response returns
      obtain ⟨isTrusted, rfl⟩ := informed.returned returns
      obtain ⟨committer, steps, same, rfl⟩ := transmit_spec votes
      have grown := (informed.asks ⟨1, voteUuid, clientName, next, none⟩).moves
        (informed.faithful.step steps) same
      have updated := (grown.updating _ _ updating).2
      refine { grown with updating := by simp, voting := ?_ }
      intro uuid target answer voting
      cases voting
      have voted : Asked { client with requests :=
          client.requests ++ [⟨1, voteUuid, clientName, next, none⟩] } 1 next voteUuid :=
        ⟨_, List.mem_append_right _ List.mem_cons_self, rfl, rfl, rfl⟩
      exact ⟨aims, voted, updated, isTrusted⟩
    · cases votes
  · cases votes

/-- The end of an epoch keeps the client informed. -/
theorem Informed.finish (informed : client.Informed trusted) {dropped : Bool}
    (finishes : client.step clientName (.finish dropped) = some after) :
    after.Informed trusted := by
  dsimp only [Client.step] at finishes
  split at finishes
  · rename_i requestUuid next updWeightResp voting
    obtain ⟨⟨later, aims⟩, asked, updated, isTrusted⟩ := informed.voting _ _ _ voting
    split at finishes
    · cases finishes
      exact informed.ends
    · rename_i method newEpochResp returns
      obtain ⟨isTrusted', rfl⟩ := informed.returned returns
      split at finishes
      · cases finishes
        exact informed.ends
      · cases finishes
        refine { informed with
          updating := by simp, voting := by simp, epoch := .inr aims, completed := ?_,
          ascending := ?_ }
        · intro entry inside
          rcases List.mem_append.mp inside with old | new
          · obtain ⟨within, told⟩ := informed.completed entry old
            exact ⟨within.trans later.le, told⟩
          · cases List.mem_singleton.mp new
            exact ⟨le_rfl, ⟨updated, isTrusted⟩, asked, isTrusted'⟩
        · rw [List.map_append, List.pairwise_append]
          refine ⟨informed.ascending, List.pairwise_singleton _ _, ?_⟩
          intro earlier inside last isLast
          obtain ⟨entry, member, rfl⟩ := List.mem_map.mp inside
          cases List.mem_singleton.mp isLast
          exact (informed.completed entry member).1.trans_lt later
    · cases finishes
  · cases finishes

/-- What a client does on its own rests on what it got. -/
theorem Informed.step (informed : client.Informed trusted) {event : ClientEvent}
    (steps : client.step clientName event = some after) : after.Informed trusted := by
  have moves {taken : CommitterEvent} (quiet : ∀ response, taken ≠ .active response)
      (moved : (client.committer.step taken).map (fun committer => { client with committer }) =
        some after) : after.Informed trusted := by
    obtain ⟨committer, called, rfl⟩ := Option.map_eq_some_iff.mp moved
    exact informed.moves (informed.faithful.step called) (Committer.step_delivered called quiet)
  cases event with
  | drain requestUuid curWeights =>
      dsimp only [Client.step] at steps
      split at steps
      · rename_i fetchResp _ drains
        have inside := (ObsidoResponseQueue.drain_latest drains).1
        have drained : Informed trusted { client with fetchQueue := [] } :=
          { informed with queued := by simp }
        exact drained.train (informed.queued fetchResp inside) steps
      · cases steps
  | answer ack => exact moves (by simp) steps
  | collect requestUuid => exact moves (by simp) steps
  | resume requestUuid => exact moves (by simp) steps
  | vote voteUuid => exact informed.vote steps
  | finish dropped => exact informed.finish steps
  | timeout =>
      dsimp only [Client.step] at steps
      split at steps
      · cases steps
        exact informed
      · exact informed.cancel steps

end Client

end DeflHotstuff
