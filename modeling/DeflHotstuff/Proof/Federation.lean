import DeflHotstuff.Proof.Clients
import DeflHotstuff.Proof.Replicas

namespace DeflHotstuff

open Verification

section

variable [Crypto] {formats : Formats} {quorum : Nat} {core : Core} {replica : Replica}

/-- The message accounts for requests that the node delivered, and it is of no later epoch than the
last one of the replica. -/
def Replica.Vouches (formats : Formats) (quorum : Nat) (core : Core) (replica : Replica)
    (message : ClientMessage) : Prop :=
  (∃ requests, requests <+: formats.log core.payloads ∧
      Application.Accounts message (Databanks.new quorum) requests) ∧
    ∀ weights, message = .weights weights →
      weights.rLastEpochId ≤ replica.application.databanks.lastDeflDatabank.epochId

namespace Replica

/-- The databanks of a replica that follows its log are of consecutive epochs. -/
theorem Follows.linked (follows : replica.Follows formats quorum core) :
    replica.application.databanks.Linked := by
  obtain ⟨requests, _, ran⟩ := follows.behind
  rw [ran.databanks]
  exact Databanks.served_linked (Databanks.new_linked quorum) requests

/-- No replica is in a negative epoch. -/
theorem Follows.epoch_nonneg (follows : replica.Follows formats quorum core) :
    0 ≤ replica.application.databanks.curDeflDatabank.epochId := by
  have linked := follows.linked
  obtain ⟨requests, _, ran⟩ := follows.behind
  have same : replica.application.databanks = (Databanks.new quorum).served requests :=
    ran.databanks
  have later := (Databanks.served_last (Databanks.new_linked quorum) requests).1
  rw [← same] at later
  unfold Databanks.Linked at linked
  change -1 ≤ _ at later
  omega

/-- A replica vouches for every message that it sent. -/
theorem Follows.vouches (follows : replica.Follows formats quorum core)
    {sent : IpAddr × UInt16 × ClientMessage} (inside : sent ∈ replica.application.network) :
    replica.Vouches formats quorum core sent.2.2 := by
  refine ⟨follows.accounts inside, fun weights isWeights => ?_⟩
  obtain ⟨requests, _, ran⟩ := follows.behind
  rcases ran.accounts sent inside with atBoot | ⟨earlier, ⟨more, isPrefix⟩, accounts⟩
  · exact absurd atBoot List.not_mem_nil
  · rw [isWeights] at accounts
    rcases accounts with ⟨other, same, reports⟩ | ⟨response, isResponse, _⟩
    · cases same
      have linked := Databanks.served_linked (Databanks.new_linked quorum) earlier
      rw [reports.1, ran.databanks, ← isPrefix, Databanks.served_append]
      exact (Databanks.served_last linked more).1
    · cases isResponse

/-- Executing a batch or a fetch serves some requests. -/
theorem analyze_served {after : Replica} (analyzes : replica.analyze formats core = some after) :
    ∃ requests, after.application.databanks = replica.application.databanks.served requests := by
  unfold Replica.analyze at analyzes
  split at analyzes
  · cases analyzes
  · split at analyzes
    · obtain ⟨block, _, rfl⟩ := Option.map_eq_some_iff.mp analyzes
      exact ⟨[], rfl⟩
    · split at analyzes
      · cases analyzes
        exact ⟨[], rfl⟩
      · rename_i value _
        obtain ⟨requests, _, ran⟩ := (@Application.analyzeMessage_runs _ formats
          (formats.decodeMessage (formats.bytes value)) replica.application).served
        refine ⟨requests, ?_⟩
        split at analyzes <;> rename_i outcome <;> cases analyzes <;> rw [outcome] at ran <;>
          exact ran.databanks

/-- A request to the obsido leaves the databanks as they are. -/
theorem serve_served {request : ObsidoRequest} {after : Replica}
    (serves : replica.serve formats request = some after) :
    after.application.databanks = replica.application.databanks := by
  obtain ⟨requests, isNil, ran⟩ :=
    (@Application.handle_runs _ formats request replica.application).served
  cases List.prefix_nil.mp isNil
  unfold Replica.serve at serves
  split at serves
  · cases serves
  · split at serves <;> rename_i outcome <;> cases serves <;> rw [outcome] at ran <;>
      exact ran.databanks

/-- Weights that a replica vouches for report a last databank along its log. -/
theorem Vouches.reports {weights : WeightsResponse}
    (vouches : replica.Vouches formats quorum core (.weights weights)) :
    ∃ requests, requests <+: formats.log core.payloads ∧
      weights.Reports ((Databanks.new quorum).served requests) := by
  obtain ⟨⟨requests, isPrefix, accounts⟩, _⟩ := vouches
  rcases accounts with ⟨other, same, reports⟩ | ⟨response, isResponse, _⟩
  · cases same
    exact ⟨requests, isPrefix, reports⟩
  · cases isResponse

/-- A response that a replica vouches for is the outcome of a request in its log. -/
theorem Vouches.tells {response : Response}
    (vouches : replica.Vouches formats quorum core (.response response)) :
    ∃ requests, requests <+: formats.log core.payloads ∧
      response.Tells (Databanks.new quorum) requests := by
  obtain ⟨⟨requests, isPrefix, accounts⟩, _⟩ := vouches
  rcases accounts with ⟨weights, isWeights, _⟩ | ⟨other, same, tells⟩
  · cases isWeights
  · cases same
    exact ⟨requests, isPrefix, tells⟩

/-- What a replica vouches for it vouches for later, too. -/
theorem Vouches.mono {after : Core} {next : Replica} {message : ClientMessage}
    (vouches : replica.Vouches formats quorum core message)
    (delivers : core.payloads <+: after.payloads)
    (later : replica.application.databanks.lastDeflDatabank.epochId ≤
      next.application.databanks.lastDeflDatabank.epochId) :
    next.Vouches formats quorum after message := by
  obtain ⟨⟨requests, isPrefix, accounts⟩, within⟩ := vouches
  refine ⟨⟨requests, isPrefix.trans (formats.log_mono delivers), accounts⟩, ?_⟩
  exact fun weights isWeights => (within weights isWeights).trans later

end Replica

/-- What a client aggregated closed the epoch before in the log of its replica. -/
theorem Client.Informed.trained_follows {client : Client}
    (informed : client.Informed (replica.Vouches formats quorum core))
    (follows : replica.Follows formats quorum core) (entry : Int × ClientWeights)
    (inside : entry ∈ client.aggregated) :
    entry.1 ≤ replica.application.databanks.curDeflDatabank.epochId ∧
      ∃ requests closed, requests <+: formats.log core.payloads ∧
        closed = (Databanks.new quorum).served requests ∧
        closed.curDeflDatabank.epochId = entry.1 ∧
        closed.lastDeflDatabank.clientWeights = entry.2 := by
  obtain ⟨weights, vouches, rfl⟩ := informed.trained entry inside
  obtain ⟨requests, isPrefix, reports⟩ := vouches.reports
  have linked := follows.linked
  have closed := Databanks.served_linked (Databanks.new_linked quorum) requests
  have within := vouches.2 weights rfl
  unfold Databanks.Linked at linked closed
  refine ⟨by dsimp only; omega, requests, _, isPrefix, rfl, ?_, reports.2.symm⟩
  rw [← closed, ← reports.1]

end

section

variable [Crypto] {system : System} {formats : Formats} {quorum : PublicKey → Nat}
  {host : String → PublicKey} {deployment : Deployment}

namespace Deployment

/-- What a node of a deployment delivered stays delivered. -/
theorem step_payloads {after : Deployment} {event : DeploymentEvent}
    (reachable : (machine system formats quorum).Reachable deployment)
    (steps : (machine system formats quorum).step deployment event = some after)
    (name : PublicKey) :
    (deployment.nodes name).core.payloads <+: (after.nodes name).core.payloads := by
  cases event with
  | turn turn =>
      obtain ⟨_, more, grows⟩ := follows_turn reachable steps name
      unfold Core.payloads
      rw [← grows, List.flatMap_append]
      exact List.prefix_append _ _
  | analyze other =>
      obtain ⟨replica, _, rfl⟩ := Option.map_eq_some_iff.mp steps
      exact List.prefix_rfl
  | obsido other request =>
      obtain ⟨replica, _, rfl⟩ := Option.map_eq_some_iff.mp steps
      exact List.prefix_rfl

/-- A step serves some requests to a replica, or none. -/
theorem step_served {after : Deployment} {event : DeploymentEvent}
    (steps : deployment.step system formats event = some after)
    (name : PublicKey) : ∃ requests, (after.replicas name).application.databanks =
      (deployment.replicas name).application.databanks.served requests := by
  cases event with
  | turn turn =>
      change (if _ then _ else _) = _ at steps
      split at steps
      · cases steps
      · obtain ⟨nodes, _, rfl⟩ := Option.map_eq_some_iff.mp steps
        exact ⟨[], rfl⟩
  | analyze other =>
      obtain ⟨replica, analyzes, rfl⟩ := Option.map_eq_some_iff.mp steps
      change ∃ requests,
        (Function.update deployment.replicas other replica name).application.databanks = _
      by_cases same : name = other
      · subst same
        rw [Function.update_self]
        exact Replica.analyze_served analyzes
      · rw [Function.update_of_ne same]
        exact ⟨[], rfl⟩
  | obsido other request =>
      obtain ⟨replica, serves, rfl⟩ := Option.map_eq_some_iff.mp steps
      change ∃ requests,
        (Function.update deployment.replicas other replica name).application.databanks = _
      refine ⟨[], ?_⟩
      by_cases same : name = other
      · subst same
        rw [Function.update_self]
        exact Replica.serve_served serves
      · rw [Function.update_of_ne same]
        rfl

/-- The replicas go on to later epochs only. -/
theorem step_epochs {after : Deployment} {event : DeploymentEvent}
    (steps : deployment.step system formats event = some after) (name : PublicKey)
    (linked : (deployment.replicas name).application.databanks.Linked) :
    (deployment.replicas name).application.databanks.lastDeflDatabank.epochId ≤
      (after.replicas name).application.databanks.lastDeflDatabank.epochId := by
  obtain ⟨requests, served⟩ := step_served steps name
  rw [served]
  exact (Databanks.served_last linked requests).1

end Deployment

namespace Federation

/-- The databanks of a replica. -/
def databanks (federation : Federation) (name : PublicKey) : Databanks :=
  (federation.deployment.replicas name).application.databanks

/-- The requests that a node delivered, in order. -/
noncomputable def log (formats : Formats) (federation : Federation) (name : PublicKey) :
    List ClientRequest :=
  formats.log (federation.deployment.nodes name).core.payloads

/-- The payload digests that a node delivered are unambiguous. -/
def Clear (formats : Formats) (federation : Federation) (name : PublicKey) : Prop :=
  ∀ digest ∈ (federation.deployment.nodes name).core.payloads, formats.Unambiguous digest

variable {federation : Federation}

/-- The clients take no part in the deployment. -/
theorem deployment_of_run {meets : Deployment → DeploymentEvent → Prop}
    {events : List FederationEvent}
    (run : (machine system formats quorum host).Run (fun federation event =>
      ∀ taken, event = .deployment taken → meets federation.deployment taken) events federation) :
    ∃ taken, (Deployment.machine system formats quorum).Run meets taken federation.deployment := by
  refine run.project Federation.deployment rfl ?_
  intro before event after allowed steps
  cases event with
  | deployment event =>
      obtain ⟨deployment, taken, rfl⟩ := Option.map_eq_some_iff.mp steps
      exact .inr ⟨event, allowed event rfl, taken⟩
  | deliver clientName index =>
      obtain ⟨sent, _, rfl⟩ := Option.map_eq_some_iff.mp steps
      exact .inl rfl
  | client clientName event =>
      obtain ⟨client, _, rfl⟩ := Option.map_eq_some_iff.mp steps
      exact .inl rfl

/-- The deployment under a reachable federation is reachable. -/
theorem reachable_deployment
    (reachable : (machine system formats quorum host).Reachable federation) :
    (Deployment.machine system formats quorum).Reachable federation.deployment := by
  obtain ⟨events, run⟩ := reachable
  exact deployment_of_run (run.weaken fun _ _ _ _ _ => trivial)

/-- Every client rests on messages that its replica vouches for. -/
theorem reachable_informed (reachable : (machine system formats quorum host).Reachable federation)
    (clientName : String) (unambiguous : federation.Clear formats (host clientName)) :
    (federation.clients clientName).Informed
      ((federation.deployment.replicas (host clientName)).Vouches formats (quorum (host clientName))
        (federation.deployment.nodes (host clientName)).core) := by
  refine reachable.invariant (fun federation =>
    federation.Clear formats (host clientName) → (federation.clients clientName).Informed
      ((federation.deployment.replicas (host clientName)).Vouches formats
        (quorum (host clientName)) (federation.deployment.nodes (host clientName)).core))
    (fun _ => Client.start_informed) ?_ unambiguous
  intro before event after reached informed steps unambiguous
  have deployed := reachable_deployment reached
  cases event with
  | deployment event =>
      obtain ⟨deployment, taken, rfl⟩ := Option.map_eq_some_iff.mp steps
      -- What is unambiguous in the end was so before, and the log and the epochs only grow.
      have grown : (before.deployment.nodes (host clientName)).core.payloads ⊆
          (deployment.nodes (host clientName)).core.payloads :=
        (Deployment.step_payloads deployed taken (host clientName)).subset
      have earlier : before.Clear formats (host clientName) := fun digest inside =>
        unambiguous digest (grown inside)
      have linked := (Deployment.reachable_follows deployed (host clientName) earlier).linked
      exact (informed earlier).mono fun message vouches => vouches.mono
        (Deployment.step_payloads deployed taken (host clientName))
        (Deployment.step_epochs taken (host clientName) linked)
  | deliver name index =>
      obtain ⟨sent, isSent, rfl⟩ := Option.map_eq_some_iff.mp steps
      change (Function.update before.clients name _ clientName).Informed _
      by_cases same : clientName = name
      · subst same
        rw [Function.update_self]
        apply (informed unambiguous).handle
        have follows := Deployment.reachable_follows deployed (host clientName) unambiguous
        exact follows.vouches (List.mem_of_getElem? isSent)
      · rw [Function.update_of_ne same]
        exact informed unambiguous
  | client name event =>
      obtain ⟨client, taken, rfl⟩ := Option.map_eq_some_iff.mp steps
      change (Function.update before.clients name client clientName).Informed _
      by_cases same : clientName = name
      · subst same
        rw [Function.update_self]
        exact (informed unambiguous).step taken
      · rw [Function.update_of_ne same]
        exact informed unambiguous

end Federation

/-- A client trains only for epochs that its replica has reached, each time on the weights that
closed the epoch before in the log, and the epochs that it completes strictly ascend. -/
theorem clients_follow (system : System) (formats : Formats) (quorum : PublicKey → Nat)
    (host : String → PublicKey) (federation : Federation)
    (reachable : (Federation.machine system formats quorum host).Reachable federation)
    (clientName : String) (unambiguous : federation.Clear formats (host clientName)) :
    (federation.clients clientName).epochId ≤
        (federation.databanks (host clientName)).curDeflDatabank.epochId ∧
      (∀ entry ∈ (federation.clients clientName).aggregated,
        entry.1 ≤ (federation.databanks (host clientName)).curDeflDatabank.epochId ∧
          ∃ requests closed, requests <+: federation.log formats (host clientName) ∧
            closed = (Databanks.new (quorum (host clientName))).served requests ∧
            closed.curDeflDatabank.epochId = entry.1 ∧
            closed.lastDeflDatabank.clientWeights = entry.2) ∧
      ((federation.clients clientName).completed.map Prod.fst).Pairwise (· < ·) := by
  have informed := Federation.reachable_informed reachable clientName unambiguous
  have follows := Deployment.reachable_follows (Federation.reachable_deployment reachable)
    (host clientName) unambiguous
  have trained := fun entry inside => informed.trained_follows follows entry inside
  refine ⟨?_, trained, informed.ascending⟩
  rcases informed.epoch with initial | aggregated
  · have positive := follows.epoch_nonneg
    unfold Federation.databanks
    omega
  · obtain ⟨entry, inside, same⟩ := List.mem_map.mp aggregated
    rw [← same]
    exact (trained entry inside).1

/-- Two clients that train for one epoch aggregate the same weights, while the rounds fit `u64` and each
commit leaves no gap to the last one and finds at most one new ancestor. -/
theorem clients_agree (collisionFree : CollisionFree) (system : System)
    (few : 3 * system.faultyStake < system.setup.committee.totalVotes)
    (small : 2 * system.setup.committee.totalVotes < 2 ^ 32) (formats : Formats)
    (quorum : PublicKey → Nat) (host : String → PublicKey) (events : List FederationEvent)
    (federation : Federation)
    (run : (Federation.machine64 system formats quorum host).Run (fun federation event =>
      federation.roundsFit system event = true ∧
        ∀ taken, event = .deployment taken → ∀ turn, taken = .turn turn →
          (federation.deployment.nodes turn.1).CommitsMeet system.setup
            (Core.Aligned system.setup) turn.2) events federation)
    (first second : String) (same : quorum (host first) = quorum (host second))
    (unambiguous : ∀ clientName ∈ [first, second], federation.Clear formats (host clientName))
    (epochId : Int) (wLast wLast' : ClientWeights)
    (trained : (epochId, wLast) ∈ (federation.clients first).aggregated)
    (trained' : (epochId, wLast') ∈ (federation.clients second).aggregated) : wLast = wLast' := by
  have unbounded := (Federation.run64 fun _ _ => And.left).mp run
  obtain ⟨taken, deployed⟩ : ∃ taken, (Deployment.machine system formats quorum).Run
      (fun deployment event => ∀ turn, event = .turn turn → (deployment.nodes turn.1).CommitsMeet
        system.setup (Core.Aligned system.setup) turn.2) taken federation.deployment :=
    Federation.deployment_of_run (unbounded.weaken fun _ _ => And.right)
  have logs := Deployment.logs_agree collisionFree few small deployed (host first) (host second)
  have reported (clientName : String) (named : clientName ∈ [first, second]) :=
    (Federation.reachable_informed unbounded.reachable clientName
      (unambiguous clientName named)).trained
  obtain ⟨weights, vouches, isWeights⟩ := reported first List.mem_cons_self _ trained
  obtain ⟨weights', vouches', isWeights'⟩ :=
    reported second (List.mem_cons_of_mem _ List.mem_cons_self) _ trained'
  obtain ⟨requests, isPrefix, reports⟩ := vouches.reports
  obtain ⟨requests', isPrefix', reports'⟩ := vouches'.reports
  rw [Prod.mk.injEq] at isWeights isWeights'
  rw [← same] at reports'
  rw [isWeights.2, isWeights'.2]
  refine Databanks.reports_agree_of_logs (Databanks.new_linked _) reports reports' isPrefix
    isPrefix' logs ?_
  omega

/-- The response tells the outcome that the log of the node gives to a request with its
identifier. -/
def Federation.Executed (formats : Formats) (quorum : Nat) (federation : Federation)
    (name : PublicKey) (response : Response) : Prop :=
  ∃ earlier request, earlier ++ [request] <+: federation.log formats name ∧
    request.requestUuid = response.requestUuid ∧
      response.stat = (((Databanks.new quorum).served earlier).serve request "").1.toI32

/-- A response that is vouched for was executed. -/
theorem Federation.executed_of_vouches (federation : Federation) {quorum : Nat} {name : PublicKey}
    {response : Response} (vouches : (federation.deployment.replicas name).Vouches formats quorum
      (federation.deployment.nodes name).core (.response response)) :
    federation.Executed formats quorum name response := by
  obtain ⟨requests, isPrefix, earlier, request, rfl, uuid, stat⟩ := vouches.tells
  exact ⟨earlier, request, isPrefix, uuid.symm, stat⟩

/-- A client completes an epoch only with the outcomes of two committed requests with the
identifiers of its own: the update and the vote that it transmitted for that epoch. -/
theorem clients_answered (system : System) (formats : Formats) (quorum : PublicKey → Nat)
    (host : String → PublicKey) (federation : Federation)
    (reachable : (Federation.machine system formats quorum host).Reachable federation)
    (clientName : String) (unambiguous : federation.Clear formats (host clientName))
    (entry : Int × Response × Response)
    (completed : entry ∈ (federation.clients clientName).completed) :
    (∃ update ∈ (federation.clients clientName).requests, update.method = 0 ∧
        update.targetEpochId = entry.1 ∧ update.requestUuid = entry.2.1.requestUuid ∧
        federation.Executed formats (quorum (host clientName)) (host clientName) entry.2.1) ∧
      ∃ vote ∈ (federation.clients clientName).requests, vote.method = 1 ∧
        vote.targetEpochId = entry.1 ∧ vote.requestUuid = entry.2.2.requestUuid ∧
        federation.Executed formats (quorum (host clientName)) (host clientName) entry.2.2 := by
  have informed := Federation.reachable_informed reachable clientName unambiguous
  obtain ⟨_, ⟨updated, vouches⟩, voted, vouches'⟩ := informed.completed entry completed
  obtain ⟨update, isUpdate, isMethod, target, answers⟩ := updated
  obtain ⟨vote, isVote, isMethod', target', answers'⟩ := voted
  exact ⟨⟨update, isUpdate, isMethod, target, answers, federation.executed_of_vouches vouches⟩,
    vote, isVote, isMethod', target', answers', federation.executed_of_vouches vouches'⟩

end

namespace Plain

/-- A batch with an update of a client and a batch with its vote. -/
def updateBatch : List UInt8 := [0]
def voteBatch : List UInt8 := [1]

def clientFormats : Formats :=
  { formats with
    decodeRequest := fun bytes =>
      if bytes = updateBatch then some ⟨0, "update", "client", 0, some [7]⟩
      else if bytes = voteBatch then some ⟨1, "vote", "client", 0, none⟩
      else none
    decodeMessage := fun bytes => some (.batch [bytes]) }

def updatingBlock : Block :=
  Block.new .genesis none (1 : Nat) 1 [hash (.batch updateBatch)] (sign 1)
def votingBlock : Block :=
  Block.new (certify updatingBlock) none (2 : Nat) 2 [hash (.batch voteBatch)] (sign 2)
def closingBlock : Block := propose (certify votingBlock) none 3 3

/-- The QC that the member with key zero assembles as the next leader. -/
def closingCertificate : QC where
  hash := closingBlock.digest
  round := 3
  votes := [0, 1, 2].map fun (key : Nat) => (key, sign key (sha512 (.vote closingBlock.digest 3)))

/-- Two members commit the block with the update. -/
def updateTurns : List (Nat × Event) := [
  (0, .batch updateBatch), (0, .batch voteBatch), (1, .batch updateBatch), (1, .batch voteBatch),
  (2, .batch updateBatch), (2, .batch voteBatch),
  (1, .digest 0), (1, .proposer [hash (.batch updateBatch)]), (1, .loopback),
  (2, .message (.propose updatingBlock)),
  (2, .message (.vote (voteFor updatingBlock 1))), (2, .message (.vote (voteFor updatingBlock 3))),
  (2, .digest 1), (2, .proposer [hash (.batch voteBatch)]),
  (2, .proposer [hash (.batch voteBatch)]),
  (1, .message (.propose votingBlock)), (2, .message (.propose votingBlock)),
  (1, .message (.propose closingBlock)), (2, .message (.propose closingBlock))]

/-- They commit the block with the vote after a fourth block. -/
def voteTurns : List (Nat × Event) := [
  (0, .message (.propose updatingBlock)), (0, .message (.propose votingBlock)),
  (0, .message (.propose closingBlock)),
  (0, .message (.vote (voteFor closingBlock 1))), (0, .message (.vote (voteFor closingBlock 2))),
  (0, .proposer []), (0, .proposer []), (0, .proposer []), (0, .proposer []),
  (1, .message (.propose (propose closingCertificate none 0 4))),
  (2, .message (.propose (propose closingCertificate none 0 4)))]

def registers (clientName : String) : ObsidoRequest :=
  ⟨1, "", clientName, some ⟨"127.0.0.1", 9000, "127.0.0.1", 9001⟩⟩

def turning (turns : List (Nat × Event)) : List FederationEvent :=
  turns.map fun turn => .deployment (.turn turn)

def analyzes (name count : Nat) : List FederationEvent :=
  List.replicate count (.deployment (.analyze name))

/-- A client completes the first epoch, which its update and its vote close, and the clients of two
replicas train for the next one. -/
def federationRun : List FederationEvent :=
  [.deployment (.obsido (1 : Nat) (registers "client")), .deployment (.obsido (1 : Nat) fetch),
    .deliver "client" 0, .client "client" (.drain "update" [7]), .client "client" (.answer true),
    .client "client" (.collect "update")] ++
  turning updateTurns ++ analyzes 1 2 ++
  [.deliver "client" 1, .client "client" (.resume "update"), .client "client" (.vote "vote"),
    .client "client" (.answer true), .client "client" (.collect "vote")] ++
  turning voteTurns ++ analyzes 1 2 ++
  [.deliver "client" 2, .client "client" (.resume "vote"), .client "client" (.finish false),
    .deliver "client" 3, .client "client" (.drain "next" [8]),
    .deployment (.obsido (2 : Nat) (registers "other"))] ++
  analyzes 2 4 ++ [.deliver "other" 0, .client "other" (.drain "other" [9])]

def hosting (clientName : String) : Nat := if clientName = "client" then 1 else 2

def federated : Machine Federation FederationEvent :=
  Federation.machine four clientFormats (fun _ => 1) hosting

/-- The turns that are commits are aligned ones. -/
def federationPasses (federation : Federation) : FederationEvent → Bool
  | .deployment event => turnsPass federation.deployment event
  | _ => true

/-- The computed check of a turn says that its commits are aligned. -/
theorem federationPasses_sound (federation : Federation) (event : FederationEvent)
    (passes : federationPasses federation event = true) (taken : DeploymentEvent)
    (isTaken : event = .deployment taken) (turn : PublicKey × Event) (isTurn : taken = .turn turn) :
    (federation.deployment.nodes turn.1).CommitsMeet four.setup (Core.Aligned four.setup)
      turn.2 := by
  subst isTaken
  exact turnsPass_sound federation.deployment taken passes turn isTurn

/-- What the run delivers, and the epochs that its clients train for and complete. -/
theorem federationRun_executes :
    (federated.execute federated.initial federationRun).map (fun federation =>
      ([1, 2].map fun (name : Nat) => (federation.deployment.nodes name).core.payloads,
        ["client", "other"].map fun clientName =>
          ((federation.clients clientName).aggregated.map Prod.fst,
            (federation.clients clientName).completed.map Prod.fst))) =
    some (List.replicate 2 [hash (.batch updateBatch), hash (.batch voteBatch)],
      [([0, 1], [0]), ([1], [])]) := by
  decide +kernel

/-- The two batches of the run decode in one way. -/
theorem federationRun_clear {federation : Federation} {name : PublicKey}
    (payloads : (federation.deployment.nodes name).core.payloads =
      [hash (.batch updateBatch), hash (.batch voteBatch)]) :
    federation.Clear clientFormats name := by
  intro digest inside
  rw [payloads] at inside
  rcases List.mem_cons.mp inside with rfl | inside
  · exact Formats.unambiguous_batch clientFormats collisionFree updateBatch
  · cases List.mem_singleton.mp inside
    exact Formats.unambiguous_batch clientFormats collisionFree voteBatch

/-- The state after the run, with what the theorems ask of it. -/
theorem federationRun_reaches : ∃ federation : Federation,
    federated.execute federated.initial federationRun = some federation ∧
      (∀ clientName ∈ ["client", "other"], federation.Clear clientFormats (hosting clientName)) ∧
      (federation.clients "client").aggregated.map Prod.fst = [0, 1] ∧
      (federation.clients "other").aggregated.map Prod.fst = [1] ∧
      (federation.clients "client").completed.map Prod.fst = [0] := by
  obtain ⟨federation, executed, observed⟩ := Option.map_eq_some_iff.mp federationRun_executes
  simp only [List.map_cons, List.map_nil, List.replicate_succ, List.replicate_zero,
    Prod.mk.injEq, List.cons.injEq, and_true] at observed
  obtain ⟨⟨payloads, payloads'⟩, ⟨trained, completed⟩, trained', _⟩ := observed
  refine ⟨federation, executed, ?_, trained, trained', completed⟩
  intro clientName named
  rcases List.mem_cons.mp named with rfl | named
  · exact federationRun_clear payloads
  · cases List.mem_singleton.mp named
    exact federationRun_clear payloads'

/-- The client that trains twice is not ahead of its replica. -/
theorem clients_follow_federationRun : ∃ federation : Federation,
    federated.execute federated.initial federationRun = some federation ∧
    (federation.clients "client").aggregated.map Prod.fst = [0, 1] ∧
      (federation.clients "client").epochId ≤
        (federation.databanks (1 : Nat)).curDeflDatabank.epochId := by
  obtain ⟨federation, executed, unambiguous, trained, _⟩ := federationRun_reaches
  have follows := clients_follow four clientFormats (fun _ => 1) hosting federation
    (.execute executed) "client" (unambiguous "client" List.mem_cons_self)
  exact ⟨federation, executed, trained, follows.1⟩

/-- Both clients start the second epoch from the same weights. -/
theorem clients_agree_federationRun : ∃ (federation : Federation) (wLast wLast' : ClientWeights),
    federated.execute federated.initial federationRun = some federation ∧
    (1, wLast) ∈ (federation.clients "client").aggregated ∧
      (1, wLast') ∈ (federation.clients "other").aggregated ∧ wLast = wLast' := by
  obtain ⟨federation, executed, unambiguous, trained, trained', _⟩ := federationRun_reaches
  have entry (clientName : String)
      (isEpoch : 1 ∈ (federation.clients clientName).aggregated.map Prod.fst) :
      ∃ wLast, (1, wLast) ∈ (federation.clients clientName).aggregated := by
    obtain ⟨⟨epochId, wLast⟩, inside, same⟩ := List.mem_map.mp isEpoch
    cases same
    exact ⟨wLast, inside⟩
  obtain ⟨wLast, inside⟩ := entry "client" (by simp [trained])
  obtain ⟨wLast', inside'⟩ := entry "other" (by simp [trained'])
  have passes : federated.Run (fun federation event => (federation.roundsFit four event &&
      federationPasses federation event) = true) federationRun federation :=
    .of_execute (by decide +kernel) executed
  have run := (Federation.run64 fun _ _ => And.left).mpr
    (passes.weaken fun federation event allowed =>
      (Bool.and_eq_true _ _ ▸ allowed).imp_right (federationPasses_sound federation event))
  exact ⟨federation, wLast, wLast', executed, inside, inside',
    clients_agree collisionFree four (by decide) (by decide) clientFormats (fun _ => 1) hosting
      federationRun federation run "client" "other" rfl unambiguous 1 wLast wLast' inside inside'⟩

/-- The first epoch is completed with an executed update and an executed vote. -/
theorem clients_answered_federationRun : ∃ (federation : Federation)
    (entry : Int × Response × Response),
    federated.execute federated.initial federationRun = some federation ∧
    entry ∈ (federation.clients "client").completed ∧ entry.1 = 0 ∧
    (∃ update ∈ (federation.clients "client").requests, update.method = 0 ∧
      update.targetEpochId = entry.1 ∧ update.requestUuid = entry.2.1.requestUuid ∧
      federation.Executed clientFormats 1 (1 : Nat) entry.2.1) ∧
    ∃ vote ∈ (federation.clients "client").requests, vote.method = 1 ∧
      vote.targetEpochId = entry.1 ∧ vote.requestUuid = entry.2.2.requestUuid ∧
      federation.Executed clientFormats 1 (1 : Nat) entry.2.2 := by
  obtain ⟨federation, executed, unambiguous, _, _, completed⟩ := federationRun_reaches
  obtain ⟨entry, inside, isEpoch⟩ := List.mem_map.mp
    (show 0 ∈ (federation.clients "client").completed.map Prod.fst by simp [completed])
  exact ⟨federation, entry, executed, inside, isEpoch, clients_answered four clientFormats
    (fun _ => 1) hosting federation (.execute executed) "client"
      (unambiguous "client" List.mem_cons_self) entry inside⟩

end Plain

end DeflHotstuff
