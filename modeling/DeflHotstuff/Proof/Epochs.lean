import DeflHotstuff.Construction.Databank
import DeflHotstuff.Library.Machine
import Mathlib.Data.Finset.Insert

namespace DeflHotstuff

open Verification

/-- A served request with the epoch that was current before it. -/
structure Applied where
  epoch : Int
  request : ClientRequest

/-- The request votes to end the epoch while that epoch is current. -/
def Applied.Votes (applied : Applied) (epoch : Int) : Prop :=
  Method.fromI32 applied.request.method = some .newEpochVote ∧
    applied.request.targetEpochId = epoch ∧ applied.epoch = epoch

/-- The request updates weights of the epoch while that epoch is current. -/
def Applied.Updates (applied : Applied) (epoch : Int) : Prop :=
  Method.fromI32 applied.request.method = some .updWeights ∧
    applied.request.targetEpochId = epoch ∧ applied.epoch = epoch

instance (applied : Applied) (epoch : Int) : Decidable (applied.Votes epoch) :=
  inferInstanceAs (Decidable (_ ∧ _ ∧ _))

instance (applied : Applied) (epoch : Int) : Decidable (applied.Updates epoch) :=
  inferInstanceAs (Decidable (_ ∧ _ ∧ _))

/-- The distinct clients that voted to end the epoch. A log has its newest request first. -/
def voters (log : List Applied) (epoch : Int) : Finset String :=
  ((log.filter fun applied => applied.Votes epoch).map fun applied =>
    applied.request.clientName).toFinset

/-- The weights of the latest update of the client for the epoch. -/
def latest (log : List Applied) (epoch : Int) (client : String) : Option (List UInt8) :=
  log.findSome? fun applied =>
    if applied.Updates epoch ∧ applied.request.clientName = client then applied.request.weights
    else none

/-- How often the voters of the epoch then current reached the quorum. -/
def closings (quorum : Nat) : List Applied → Nat
  | [] => 0
  | applied :: earlier => closings quorum earlier +
      if (voters earlier applied.epoch).card < quorum ∧
        quorum ≤ (voters (applied :: earlier) applied.epoch).card then 1 else 0

/-- The databanks serve requests one by one, and the log keeps what they served. -/
def Databanks.machine (quorum : Nat) :
    Machine (Databanks × List Applied) (ClientRequest × String × String) where
  initial := (.new quorum, [])
  step := fun (node, log) (request, passiveUuid, responseUuid) =>
    some ((node.getResponses request passiveUuid responseUuid).2.2,
      ⟨node.curDeflDatabank.epochId, request⟩ :: log)

section

variable {log : List Applied} {applied : Applied} {epoch : Int}

/-- A vote for the epoch adds its client to the voters. -/
theorem voters_cons (voted : applied.Votes epoch) :
    voters (applied :: log) epoch = insert applied.request.clientName (voters log epoch) := by
  simp [voters, voted]

/-- Any other request leaves the voters as they are. -/
theorem voters_skip (notVoted : ¬ applied.Votes epoch) :
    voters (applied :: log) epoch = voters log epoch := by
  simp [voters, notVoted]

/-- An update sets the weights of its client. -/
theorem latest_cons (updated : applied.Updates epoch) {weights : List UInt8}
    (present : applied.request.weights = some weights) (client : String) :
    latest (applied :: log) epoch client =
      if client = applied.request.clientName then some weights else latest log epoch client := by
  by_cases same : client = applied.request.clientName
  · simp [latest, updated, present, same]
  · simp [latest, Ne.symm same, same]

/-- Any other request leaves the latest weights as they are. -/
theorem latest_skip (notUpdated : applied.Updates epoch → applied.request.weights = none)
    (client : String) : latest (applied :: log) epoch client = latest log epoch client := by
  by_cases updated : applied.Updates epoch
  · simp [latest, notUpdated updated]
  · simp [latest, updated]

/-- No request counts for an epoch that was never current. -/
theorem voters_unopened (unopened : ∀ applied ∈ log, applied.epoch ≠ epoch) :
    voters log epoch = ∅ := by
  have none : log.filter (fun applied => applied.Votes epoch) = [] := by
    rw [List.filter_eq_nil_iff]
    intro applied inside voted
    exact unopened applied inside (of_decide_eq_true voted).2.2
  simp [voters, none]

/-- Nobody has weights in an epoch that no request met. -/
theorem latest_unopened (unopened : ∀ applied ∈ log, applied.epoch ≠ epoch) (client : String) :
    latest log epoch client = none := by
  unfold latest
  rw [List.findSome?_eq_none_iff]
  intro applied inside
  exact if_neg fun updated => unopened applied inside updated.1.2.2

end

namespace Databanks

/-- What one request does to the databanks and the voters. -/
inductive Serves (node : Databanks) (request : ClientRequest) (passiveUuid : String) :
    Status × Option WeightsResponse × Databanks → Prop
  | update (weights : List UInt8)
      (isUpdate : Applied.Updates ⟨node.curDeflDatabank.epochId, request⟩
        node.curDeflDatabank.epochId)
      (present : request.weights = some weights) :
      Serves node request passiveUuid (.ok, none, { node with
        curDeflDatabank := { node.curDeflDatabank with
          clientWeights :=
            node.curDeflDatabank.clientWeights.insert request.clientName weights } })
  | wait
      (isVote : Applied.Votes ⟨node.curDeflDatabank.epochId, request⟩
        node.curDeflDatabank.epochId)
      (few : (insert request.clientName node.votedClients).card < node.quorumSize) :
      Serves node request passiveUuid (.notMeetQuorumWait, none, { node with
        votedClients := insert request.clientName node.votedClients })
  | close
      (isVote : Applied.Votes ⟨node.curDeflDatabank.epochId, request⟩
        node.curDeflDatabank.epochId)
      (enough : node.quorumSize ≤ (insert request.clientName node.votedClients).card) :
      Serves node request passiveUuid (.ok,
        some ⟨passiveUuid, none, node.curDeflDatabank.epochId, node.curDeflDatabank.clientWeights⟩,
        { node with
          lastDeflDatabank := node.curDeflDatabank
          curDeflDatabank := ⟨.empty, node.curDeflDatabank.epochId + 1⟩
          votedClients := ∅ })
  | refuse (stat : Status) (notOk : stat ≠ .ok) (notWait : stat ≠ .notMeetQuorumWait)
      (noWeights : Applied.Updates ⟨node.curDeflDatabank.epochId, request⟩
        node.curDeflDatabank.epochId → request.weights = none)
      (noVote : Applied.Votes ⟨node.curDeflDatabank.epochId, request⟩
        node.curDeflDatabank.epochId → request.clientName ∈ node.votedClients) :
      Serves node request passiveUuid (stat, none, node)

/-- Every request is served in one of the listed ways. -/
theorem serve_serves (node : Databanks) (request : ClientRequest) (passiveUuid : String) :
    Serves node request passiveUuid (node.serve request passiveUuid) := by
  unfold serve
  split
  next isUpdate =>
    have notVote (epoch : Int) : ¬ Applied.Votes ⟨node.curDeflDatabank.epochId, request⟩ epoch := by
      simp [Applied.Votes, isUpdate]
    split
    next weights isTarget present =>
      exact .update weights ⟨isUpdate, of_decide_eq_true isTarget, rfl⟩ present
    next isTarget absent =>
      exact .refuse _ (by decide) (by decide) (fun _ => absent) fun voted => (notVote _ voted).elim
    next notTarget =>
      exact .refuse _ (by decide) (by decide)
        (fun updated => absurd updated.2.1 (of_decide_eq_false notTarget))
        fun voted => (notVote _ voted).elim
  next isVote =>
    have noUpdate (epoch : Int) :
        ¬ Applied.Updates ⟨node.curDeflDatabank.epochId, request⟩ epoch := by
      simp [Applied.Updates, isVote]
    split
    next isTarget =>
      split
      next notVoted =>
        dsimp only
        split
        next few => exact .wait ⟨isVote, isTarget, rfl⟩ few
        next enough => exact .close ⟨isVote, isTarget, rfl⟩ (not_lt.mp enough)
      next voted =>
        exact .refuse _ (by decide) (by decide) (fun updated => (noUpdate _ updated).elim)
          fun _ => not_not.mp voted
    next notTarget =>
      exact .refuse _ (by decide) (by decide) (fun updated => (noUpdate _ updated).elim)
        fun voted => absurd voted.2.1 notTarget
  next isNone =>
    exact .refuse _ (by decide) (by decide) (by simp [Applied.Updates, isNone])
      (by simp [Applied.Votes, isNone])

/-- The databanks agree with the log of all requests so far. -/
structure Banked (quorum : Nat) (node : Databanks) (log : List Applied) : Prop where
  size : node.quorumSize = quorum
  epoch : node.curDeflDatabank.epochId = closings quorum log
  last : node.lastDeflDatabank.epochId = node.curDeflDatabank.epochId - 1
  voted : node.votedClients = voters log node.curDeflDatabank.epochId
  few : node.votedClients.card < quorum
  opened : ∀ applied ∈ log, applied.epoch ≤ node.curDeflDatabank.epochId
  current : ∀ client, node.curDeflDatabank.clientWeights client =
    latest log node.curDeflDatabank.epochId client
  closed : 0 < closings quorum log → ∀ client,
    node.lastDeflDatabank.clientWeights client = latest log node.lastDeflDatabank.epochId client

namespace Banked

variable {quorum : Nat} {node : Databanks} {log : List Applied} {request : ClientRequest}

/-- New databanks agree with the empty log. -/
theorem start (atLeastOne : 1 ≤ quorum) : Banked quorum (.new quorum) [] where
  size := rfl
  epoch := rfl
  last := rfl
  voted := rfl
  few := atLeastOne
  opened := by simp
  current _ := rfl
  closed closed := absurd closed (Nat.lt_irrefl 0)

/-- No request is applied in an epoch that is not open yet. -/
theorem opened_cons (banked : Banked quorum node log) : ∀ applied ∈
    (⟨node.curDeflDatabank.epochId, request⟩ :: log : List Applied),
      applied.epoch ≤ node.curDeflDatabank.epochId := by
  simpa using banked.opened

/-- A request closes no epoch when the voters stay below the quorum. -/
theorem closings_same (below : (voters (⟨node.curDeflDatabank.epochId, request⟩ :: log)
      node.curDeflDatabank.epochId).card < quorum) :
    closings quorum (⟨node.curDeflDatabank.epochId, request⟩ :: log) = closings quorum log := by
  simp [closings, below]

/-- A vote that completes the quorum closes the epoch. -/
theorem closings_succ (banked : Banked quorum node log) (isVote : Applied.Votes
      ⟨node.curDeflDatabank.epochId, request⟩ node.curDeflDatabank.epochId)
    (enough : node.quorumSize ≤ (insert request.clientName node.votedClients).card) :
    closings quorum (⟨node.curDeflDatabank.epochId, request⟩ :: log) =
      closings quorum log + 1 := by
  have few := banked.few
  rw [banked.voted] at few enough
  rw [banked.size] at enough
  simp only [closings, voters_cons isVote]
  rw [if_pos ⟨few, enough⟩]

/-- The agreement survives a request that leaves the epoch open. -/
theorem stays (banked : Banked quorum node log) {after : Databanks}
    (size : after.quorumSize = node.quorumSize)
    (last : after.lastDeflDatabank = node.lastDeflDatabank)
    (epoch : after.curDeflDatabank.epochId = node.curDeflDatabank.epochId)
    (voted : after.votedClients = voters (⟨node.curDeflDatabank.epochId, request⟩ :: log)
      node.curDeflDatabank.epochId)
    (few : after.votedClients.card < quorum)
    (current : ∀ client, after.curDeflDatabank.clientWeights client =
      latest (⟨node.curDeflDatabank.epochId, request⟩ :: log) node.curDeflDatabank.epochId client) :
    Banked quorum after (⟨node.curDeflDatabank.epochId, request⟩ :: log) := by
  have same : closings quorum (⟨node.curDeflDatabank.epochId, request⟩ :: log) =
      closings quorum log := closings_same (voted ▸ few)
  exact {
    size := size.trans banked.size
    epoch := by rw [epoch, same, banked.epoch]
    last := by rw [last, epoch, banked.last]
    voted := by rw [epoch, voted]
    few := few
    opened := by
      rw [epoch]
      exact banked.opened_cons
    current := by
      rw [epoch]
      exact current
    closed := by
      intro closed client
      rw [last, latest_skip, banked.closed (same ▸ closed)]
      -- The request belongs to the current epoch and not to the closed one.
      intro updated
      have both : node.curDeflDatabank.epochId = node.lastDeflDatabank.epochId := updated.2.2
      rw [banked.last] at both
      omega }

/-- One request keeps the agreement. -/
theorem serves (banked : Banked quorum node log) (atLeastOne : 1 ≤ quorum) {passiveUuid : String}
    {served : Status × Option WeightsResponse × Databanks}
    (serves : Serves node request passiveUuid served) :
    Banked quorum served.2.2 (⟨node.curDeflDatabank.epochId, request⟩ :: log) := by
  cases serves with
  | update weights isUpdate present =>
      refine banked.stays rfl rfl rfl ?_ banked.few ?_
      · rw [voters_skip fun isVote => absurd (isUpdate.1.symm.trans isVote.1) (by decide)]
        exact banked.voted
      · intro client
        rw [latest_cons isUpdate present, ← banked.current]
        rfl
  | wait isVote few =>
      refine banked.stays rfl rfl rfl ?_ (banked.size ▸ few) ?_
      · rw [voters_cons isVote, ← banked.voted]
      · intro client
        rw [latest_skip fun updated => absurd (updated.1.symm.trans isVote.1) (by decide)]
        exact banked.current client
  | close isVote enough =>
      have unopened : ∀ applied ∈ (⟨node.curDeflDatabank.epochId, request⟩ :: log : List Applied),
          applied.epoch ≠ node.curDeflDatabank.epochId + 1 := by
        intro applied inside same
        have := banked.opened_cons applied inside
        omega
      exact {
        size := banked.size
        epoch := by
          rw [banked.closings_succ isVote enough, Int.natCast_add, ← banked.epoch]
          rfl
        last := by simp
        voted := (voters_unopened unopened).symm
        few := atLeastOne
        opened := fun applied inside =>
          (banked.opened_cons applied inside).trans (Int.le_add_one (Int.le_refl _))
        current := fun client => (latest_unopened unopened client).symm
        closed := fun _ client => by
          rw [latest_skip fun updated => absurd (updated.1.symm.trans isVote.1) (by decide)]
          exact banked.current client }
  | refuse stat notOk notWait noWeights noVote =>
      refine banked.stays rfl rfl rfl ?_ banked.few ?_
      · by_cases isVote : Applied.Votes ⟨node.curDeflDatabank.epochId, request⟩
            node.curDeflDatabank.epochId
        · rw [voters_cons isVote, ← banked.voted]
          exact (Finset.insert_eq_of_mem (noVote isVote)).symm
        · rw [voters_skip isVote]
          exact banked.voted
      · intro client
        rw [latest_skip noWeights]
        exact banked.current client

/-- A passive response goes out with exactly the requests that close an epoch. -/
theorem passive_iff (banked : Banked quorum node log) (atLeastOne : 1 ≤ quorum) {passiveUuid : String}
    {served : Status × Option WeightsResponse × Databanks}
    (serves : Serves node request passiveUuid served) :
    served.2.1.isSome ↔ closings quorum (⟨node.curDeflDatabank.epochId, request⟩ :: log) =
      closings quorum log + 1 := by
  have after := (banked.serves atLeastOne serves).epoch
  rw [← Int.natCast_inj, Int.natCast_add, ← after, ← banked.epoch]
  have grows : node.curDeflDatabank.epochId ≠ node.curDeflDatabank.epochId + 1 := by omega
  cases serves with
  | close => simp
  | _ => simp [grows]

end Banked

/-- In every reachable state the databanks agree with the log. -/
theorem reachable_banked {quorum : Nat} (atLeastOne : 1 ≤ quorum) {node : Databanks}
    {log : List Applied} (reachable : (machine quorum).Reachable (node, log)) :
    Banked quorum node log := by
  apply reachable.invariant (fun state => Banked quorum state.1 state.2) (.start atLeastOne)
  intro (node, log) (request, passiveUuid, responseUuid) after _ banked steps
  cases steps
  exact banked.serves atLeastOne (serve_serves node request passiveUuid)

/-- The epochs, the closed weights, the passive responses and the refusals match the log. -/
theorem epoch_machine (quorum : Nat) (atLeastOne : 1 ≤ quorum) (node : Databanks)
    (log : List Applied) (reachable : (machine quorum).Reachable (node, log)) :
    node.curDeflDatabank.epochId = closings quorum log ∧
      node.lastDeflDatabank.epochId = node.curDeflDatabank.epochId - 1 ∧
      (0 < closings quorum log → ∀ client, node.lastDeflDatabank.clientWeights client =
        latest log node.lastDeflDatabank.epochId client) ∧
      ∀ request passiveUuid responseUuid response passiveResponse after,
        node.getResponses request passiveUuid responseUuid = (response, passiveResponse, after) →
        (passiveResponse.isSome ↔
          closings quorum (⟨node.curDeflDatabank.epochId, request⟩ :: log) =
            closings quorum log + 1) ∧
        (∀ passive, passiveResponse = some passive →
          passive.rLastEpochId = after.lastDeflDatabank.epochId ∧
          passive.wLast = after.lastDeflDatabank.clientWeights) ∧
        (response.stat ≠ Status.ok.toI32 → response.stat ≠ Status.notMeetQuorumWait.toI32 →
          after.lastDeflDatabank = node.lastDeflDatabank ∧
          after.curDeflDatabank = node.curDeflDatabank ∧
          after.votedClients = node.votedClients) := by
  have banked := reachable_banked atLeastOne reachable
  refine ⟨banked.epoch, banked.last, banked.closed, ?_⟩
  intro request passiveUuid responseUuid response passiveResponse after responds
  have serves := serve_serves node request passiveUuid
  have iff := banked.passive_iff atLeastOne serves
  unfold getResponses at responds
  generalize node.serve request passiveUuid = served at serves iff responds
  cases serves with
  | close =>
      cases responds
      exact ⟨iff, by simp, fun notOk => absurd rfl notOk⟩
  | refuse =>
      cases responds
      exact ⟨iff, by simp, fun _ _ => ⟨rfl, rfl, rfl⟩⟩
  | wait =>
      cases responds
      exact ⟨iff, by simp, fun _ notWait => absurd rfl notWait⟩
  | update =>
      cases responds
      exact ⟨iff, by simp, fun notOk => absurd rfl notOk⟩

/-- One client sends weights, and two clients vote to end the first epoch. -/
def firstEpoch : List (ClientRequest × String × String) :=
  [(⟨0, "", "first", 0, some [7]⟩, "", ""), (⟨1, "", "first", 0, none⟩, "", ""),
    (⟨1, "", "second", 0, none⟩, "", "")]

/-- Two votes close the first epoch with the weights that came before. -/
theorem epoch_machine_closed : ∃ (node : Databanks) (log : List Applied),
    (machine 2).execute (machine 2).initial firstEpoch = some (node, log) ∧
    node.curDeflDatabank.epochId = 1 ∧ node.lastDeflDatabank.epochId = 0 ∧
    node.lastDeflDatabank.clientWeights "first" = some [7] := by
  have observed : ((machine 2).execute (machine 2).initial firstEpoch).map (fun state =>
      decide (closings 2 state.2 = 1 ∧ latest state.2 0 "first" = some [7])) = some true := by
    decide +kernel
  obtain ⟨⟨node, log⟩, executed, closed⟩ := Option.map_eq_some_iff.mp observed
  obtain ⟨once, weights⟩ := of_decide_eq_true closed
  obtain ⟨epoch, last, kept, _⟩ := epoch_machine 2 (by decide) node log (.execute executed)
  rw [once] at epoch kept
  have isFirst : node.lastDeflDatabank.epochId = 0 := by simp [last, epoch]
  exact ⟨node, log, executed, epoch, isFirst, by rw [kept (by decide), isFirst, weights]⟩

end Databanks

end DeflHotstuff
