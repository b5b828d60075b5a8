import DeflHotstuff.Construction.Client
import DeflHotstuff.Proof.NodeSteps

namespace DeflHotstuff

open Verification

variable [Crypto]

/-- The block and its certificates are of rounds below the last one. -/
def Block.fits (block : Block) : Bool :=
  decide (block.round < roundMax ∧ block.qc.round < roundMax) &&
    block.tc.all fun tc => decide (tc.round < roundMax)

/-- Nor does the two-chain that the block completes start in the last round. -/
def Core.fits (setup : Setup) (core : Core) (block : Block) : Bool :=
  block.fits && ((setup.parentOf core.store block).bind (setup.parentOf core.store)).all
    fun grandparent => decide (grandparent.round < roundMax)

/-- The turn adds one to no round that is the largest `u64`: no block, vote or timeout of that round
passes its check, no TC of it arrives, and no timer expires in it. -/
def Node.roundsFit (setup : Setup) (node : Node) : Event → Bool
  | .message (.propose block) =>
      !accepts (block.verify setup.committee) || node.core.fits setup block
  | .message (.vote vote) =>
      !accepts (vote.verify setup.committee) || decide (vote.round < roundMax)
  | .message (.timeout timeout) => !accepts (timeout.verify setup.committee) ||
      decide (timeout.round < roundMax ∧ timeout.highQc.round < roundMax)
  | .message (.tc tc) => decide (tc.round < roundMax)
  | .loopback => node.rxLoopback.head?.all fun block => node.core.fits setup block
  | .timer => decide (node.core.round < roundMax ∧ node.core.highQc.round < roundMax)
  | _ => true

omit [Crypto] in
/-- Below the last round the addition does not wrap around. -/
theorem next64 {round : Nat} (below : round < roundMax) :
    @Rounds.next .u64 round = Rounds.next round := by
  rw [Rounds.next_unbounded]
  exact Nat.mod_eq_of_lt (by unfold roundMax at below; omega)

/-- The QC that a maker returns is of the round of the last vote. -/
theorem QC.round_of_append (maker : QCMaker) (committee : Committee) {vote : Vote} {qc : QC}
    (assembled : (maker.append vote committee).1 = .ok (some qc)) : qc.round = vote.round := by
  unfold QCMaker.append at assembled
  split at assembled
  · cases assembled
  · dsimp only at assembled
    split at assembled
    · cases assembled
      rfl
    · cases assembled

/-- The TC that a maker returns is of the round of the last timeout. -/
theorem TC.round_of_append (maker : TCMaker) (committee : Committee) {timeout : Timeout} {tc : TC}
    (assembled : (maker.append timeout committee).1 = .ok (some tc)) :
    tc.round = timeout.round := by
  unfold TCMaker.append at assembled
  split at assembled
  · cases assembled
  · dsimp only at assembled
    split at assembled
    · cases assembled
      rfl
    · cases assembled

namespace Core

variable (setup : Setup) (name : PublicKey) (core : Core)

/-- A certificate of a round below the last one moves the round without a wrap. -/
theorem advanceRound64 {round : Nat} (below : round < roundMax) :
    @advanceRound _ .u64 core round = core.advanceRound round := by
  unfold advanceRound
  rw [next64 below]

/-- So does the QC of a proposal, a timeout or a quorum of votes. -/
theorem processQc64 {qc : QC} (below : qc.round < roundMax) :
    @processQc _ .u64 core qc = core.processQc qc := by
  unfold processQc
  rw [advanceRound64 core below]

/-- So does the TC of a proposal. -/
theorem advanceByTc64 {tc : Option TC} (below : ∀ carried, tc = some carried →
    carried.round < roundMax) : @advanceByTc _ .u64 tc core = advanceByTc tc core := by
  cases tc with
  | none => rfl
  | some tc => exact advanceRound64 core (below tc rfl)

/-- The search compares with the round after the last committed one. -/
theorem collectAncestors64 {lastCommittedRound : Nat} (below : lastCommittedRound < roundMax)
    (fuel : Nat) (block : Block) (toCommit : List Block) :
    @collectAncestors _ .u64 setup lastCommittedRound fuel block toCommit =
      collectAncestors setup lastCommittedRound fuel block toCommit := by
  induction fuel generalizing block toCommit with
  | zero => rfl
  | succ fuel ih =>
      unfold collectAncestors
      rw [next64 below]
      simp only [ih]

/-- A commit in a round below the last one adds one to an earlier round. -/
theorem commit64 {block : Block} (below : block.round < roundMax) :
    @commit _ .u64 setup block core = commit setup block core := by
  unfold commit
  rw [Handler.read_bind, Handler.read_bind]
  by_cases reached : block.round ≤ core.lastCommittedRound
  · rw [if_pos reached, if_pos reached]
  · rw [if_neg reached, if_neg reached,
      collectAncestors64 setup ((Nat.not_le.mp reached).trans below)]

/-- The two-chain rule adds one to the round of the grandparent. -/
theorem commitTwoChain64 {b0 : Block} (b1 : Block) (below : b0.round < roundMax) :
    @commitTwoChain _ .u64 setup b0 b1 = commitTwoChain setup b0 b1 := by
  unfold commitTwoChain
  rw [next64 below]
  split
  · funext core
    exact commit64 setup _ below
  · rfl

/-- The voting rule adds one to the rounds of the certificates in the block. -/
theorem safetyRule2_64 {block : Block} (fits : block.fits = true) :
    @safetyRule2 _ .u64 block = safetyRule2 block := by
  simp only [Block.fits, Bool.and_eq_true, decide_eq_true_eq] at fits
  obtain ⟨⟨-, qcBelow⟩, tcBelow⟩ := fits
  unfold safetyRule2
  rw [next64 qcBelow]
  cases carried : block.tc with
  | none => rfl
  | some tc =>
      rw [carried, Option.all_some, decide_eq_true_eq] at tcBelow
      dsimp only
      rw [next64 tcBelow]

/-- The vote follows the rule. -/
theorem makeVote64 {block : Block} (fits : block.fits = true) :
    @makeVote _ .u64 setup name block = makeVote setup name block := by
  unfold makeVote
  rw [safetyRule2_64 fits]

/-- A QC that is assembled from a vote is of its round. -/
theorem addVote_round {vote : Vote} {qc : QC} {after : Core}
    (returns : addVote setup vote core = (.ok (some qc), after)) : qc.round = vote.round := by
  apply QC.round_of_append (core.aggregator.votesAggregators vote.round vote.digest) setup.committee
  unfold addVote at returns
  rw [Handler.read_bind] at returns
  exact (Handler.of_check_ok returns).1

/-- Only a vote that passes its check can complete a QC. -/
theorem handleVote64 {vote : Vote}
    (below : vote.verify setup.committee = .ok () → vote.round < roundMax) :
    @handleVote _ .u64 setup name vote = handleVote setup name vote := by
  funext core
  unfold handleVote
  rw [Handler.read_bind, Handler.read_bind]
  split
  · rfl
  · refine Handler.bind_agree rfl fun _ checked verified => Handler.bind_agree rfl ?_
    intro found middle assembled
    cases found with
    | none => rfl
    | some qc =>
        have qcBelow : qc.round < roundMax :=
          (addVote_round setup _ assembled).trans_lt (below (Handler.of_check_ok verified).1)
        dsimp only
        rw [Handler.update_bind, Handler.update_bind, processQc64 _ qcBelow]

/-- A TC that is assembled from a timeout is of its round. -/
theorem addTimeout_round {timeout : Timeout} {tc : TC} {after : Core}
    (returns : addTimeout setup timeout core = (.ok (some tc), after)) :
    tc.round = timeout.round := by
  apply TC.round_of_append (core.aggregator.timeoutsAggregators timeout.round) setup.committee
  unfold addTimeout at returns
  rw [Handler.read_bind] at returns
  exact (Handler.of_check_ok returns).1

/-- Only a timeout that passes its check can move the round. -/
theorem handleTimeout64 {timeout : Timeout}
    (below : timeout.verify setup.committee = .ok () →
      timeout.round < roundMax ∧ timeout.highQc.round < roundMax) :
    @handleTimeout _ .u64 setup name timeout = handleTimeout setup name timeout := by
  funext core
  unfold handleTimeout
  rw [Handler.read_bind, Handler.read_bind]
  split
  · rfl
  · refine Handler.bind_agree rfl fun _ checked verified => ?_
    obtain ⟨below, qcBelow⟩ := below (Handler.of_check_ok verified).1
    rw [Handler.update_bind, Handler.update_bind, processQc64 _ qcBelow]
    refine Handler.bind_agree rfl ?_
    intro found middle assembled
    cases found with
    | none => rfl
    | some tc =>
        have tcBelow : tc.round < roundMax := (addTimeout_round setup _ assembled).trans_lt below
        dsimp only
        exact Handler.bind_agree
          (congrArg (Prod.mk (Exit.ok ())) (advanceRound64 _ tcBelow)) fun _ _ _ => rfl

/-- The own timeout is of the current round and carries the highest QC. -/
theorem localTimeoutRound64 (below : core.round < roundMax)
    (qcBelow : core.highQc.round < roundMax) :
    @localTimeoutRound _ .u64 setup name core = localTimeoutRound setup name core := by
  unfold localTimeoutRound
  rw [Handler.update_bind, Handler.update_bind, Handler.read_bind, Handler.read_bind]
  refine Handler.bind_agree rfl fun _ expired _ => ?_
  rw [handleTimeout64 setup name fun _ => ⟨below, qcBelow⟩]

/-- The next leader is that of the round after the current one. -/
theorem sendVote64 {vote : Vote} (below : core.round < roundMax)
    (voteBelow : vote.round < roundMax) :
    @sendVote _ .u64 setup name vote core = sendVote setup name vote core := by
  unfold sendVote
  rw [Handler.read_bind, Handler.read_bind, next64 below,
    handleVote64 setup name fun _ => voteBelow]

/-- The vote is for a block of the current round. -/
theorem voteInRound64 {block : Block} (fits : block.fits = true) :
    @voteInRound _ .u64 setup name block = voteInRound setup name block := by
  have below : block.round < roundMax := by
    simp only [Block.fits, Bool.and_eq_true, decide_eq_true_eq] at fits
    exact fits.1.1
  funext core
  unfold voteInRound
  rw [Handler.read_bind, Handler.read_bind, makeVote64 setup name fits]
  split
  · rfl
  · rename_i inRound
    refine Handler.bind_agree rfl ?_
    intro found middle made
    rcases @makeVote_cases _ setup name core block with ⟨_, never⟩ | votes
    · rcases found with _ | vote
      · rfl
      · exact absurd (congrArg Prod.fst made) (never vote)
    · rw [votes] at made
      cases made
      exact sendVote64 setup name _ ((not_not.mp inRound) ▸ below) below

/-- The ancestors that the search returns are those of the store. -/
theorem getAncestors_ok [Rounds] {block b0 b1 : Block} {after : Core}
    (returns : getAncestors setup block core = (.ok (some (b0, b1)), after)) :
    setup.parentOf core.store block = some b1 ∧ setup.parentOf core.store b1 = some b0 := by
  obtain ⟨found, middle, searched, returns⟩ := Handler.bind_ok.mp returns
  rcases getParentBlock_cases setup core block with
    ⟨parent, isParent, same⟩ | ⟨_, same⟩ | ⟨_, _, same⟩
  · rw [same] at searched
    cases searched
    obtain ⟨found, middle, searched, returns⟩ := Handler.bind_ok.mp returns
    rcases getParentBlock_cases setup core parent with
      ⟨ancestor, isAncestor, same⟩ | ⟨_, same⟩ | ⟨_, _, same⟩
    · rw [same] at searched
      cases searched
      cases returns
      exact ⟨isParent, isAncestor⟩
    · rw [same] at searched
      cases searched
    · rw [same] at searched
      cases searched
      cases returns
  · rw [same] at searched
    cases searched
  · rw [same] at searched
    cases searched
    cases returns

/-- Whether the rounds fit depends on the store alone. -/
theorem fits_of_store {core after : Core} (same : after.store = core.store) (block : Block) :
    after.fits setup block = core.fits setup block := by
  unfold fits
  rw [same]

/-- What happens with a stored block adds one to its rounds and to that of its grandparent. -/
theorem processBlock64 {block : Block} (fits : core.fits setup block = true) :
    @processBlock _ .u64 setup name block core = processBlock setup name block core := by
  obtain ⟨blockFits, grandparentFits⟩ := Bool.and_eq_true _ _ ▸ fits
  unfold processBlock
  refine Handler.bind_agree rfl ?_
  intro found middle searched
  cases found with
  | none => rfl
  | some pair =>
      obtain ⟨b0, b1⟩ := pair
      obtain ⟨isParent, isGrandparent⟩ := getAncestors_ok setup core searched
      rw [isParent, Option.bind_some, isGrandparent, Option.all_some, decide_eq_true_eq]
        at grandparentFits
      dsimp only
      rw [commitTwoChain64 setup b1 grandparentFits, voteInRound64 setup name blockFits]

/-- A core that goes on with a block has only read its payload. -/
theorem verifyPayload_ok {block : Block} {after : Core}
    (returns : verifyPayload block core = (.ok true, after)) : after = core := by
  unfold verifyPayload at returns
  rw [Handler.read_bind] at returns
  split at returns
  · cases returns
    rfl
  · cases returns

/-- Only a block that passes its check is taken up. -/
theorem handleProposal64 {block : Block}
    (allFits : block.verify setup.committee = .ok () → core.fits setup block = true) :
    @handleProposal _ .u64 setup name block core = handleProposal setup name block core := by
  unfold handleProposal
  refine Handler.bind_agree rfl fun _ led leads => ?_
  obtain ⟨-, rfl⟩ := Handler.of_check_ok leads
  refine Handler.bind_agree rfl fun _ checked verified => ?_
  obtain ⟨passes, rfl⟩ := Handler.of_check_ok verified
  have fits := allFits passes
  have blockFits : block.fits = true := (Bool.and_eq_true _ _ ▸ fits).1
  simp only [Block.fits, Bool.and_eq_true, decide_eq_true_eq] at blockFits
  obtain ⟨⟨-, qcBelow⟩, tcBelow⟩ := blockFits
  have taken : @advanceByTc _ .u64 block.tc (@processQc _ .u64 checked block.qc) =
      advanceByTc block.tc (checked.processQc block.qc) := by
    rw [processQc64 checked qcBelow]
    refine advanceByTc64 _ fun tc carried => ?_
    rw [carried, Option.all_some, decide_eq_true_eq] at tcBelow
    exact tcBelow
  refine Handler.bind_agree (congrArg (fun core => (Exit.ok (), core.record (.accepted block)))
    taken) fun _ accepted advanced => Handler.bind_agree rfl fun present middle paid => ?_
  cases present with
  | false => rfl
  | true =>
      have same : middle = (advanceByTc block.tc (checked.processQc block.qc)).record
          (.accepted block) := by
        cases advanced
        exact verifyPayload_ok _ paid
      have sameStore : middle.store = checked.store := by
        rw [same]
        exact (accept_books checked block).store
      exact processBlock64 setup name middle (by rwa [fits_of_store setup sameStore])

/-- A TC message moves the round unchecked. -/
theorem handleTc64 {tc : TC} (below : tc.round < roundMax) :
    @handleTc _ .u64 setup name tc = handleTc setup name tc := by
  unfold handleTc
  simp only [advanceRound64 _ below]

end Core

/-- The core runs two tasks alike that agree on its state. -/
theorem Node.runCore_agree {node : Node} {task other : CoreTask Unit}
    (same : task node.core = other node.core) : node.runCore task = node.runCore other := by
  unfold runCore
  rw [same]

/-- The handler of a message that fits does not overflow. -/
theorem Core.handleMessage64 (setup : Setup) (name : PublicKey) (node : Node) (core : Core)
    {message : ConsensusMessage} (same : core.store = node.core.store)
    (fits : node.roundsFit setup (.message message) = true) :
    @handleMessage _ .u64 setup name message core = handleMessage setup name message core := by
  cases message with
  | propose block =>
      refine handleProposal64 setup name core fun verified => ?_
      simp only [Node.roundsFit, accepts_iff.mpr verified, Bool.not_true, Bool.false_or] at fits
      exact (fits_of_store setup same block).trans fits
  | vote vote =>
      refine congrFun (handleVote64 setup name fun verified => ?_) _
      simpa only [Node.roundsFit, accepts_iff.mpr verified, Bool.not_true, Bool.false_or,
        decide_eq_true_eq] using fits
  | timeout timeout =>
      refine congrFun (handleTimeout64 setup name fun verified => ?_) _
      simpa only [Node.roundsFit, accepts_iff.mpr verified, Bool.not_true, Bool.false_or,
        decide_eq_true_eq] using fits
  | tc tc => exact congrFun (handleTc64 setup name (of_decide_eq_true fits)) _
  | syncRequest missing origin => rfl

/-- A turn that adds one to no round that is the largest `u64` is the same with unbounded rounds. -/
theorem Node.step64 (setup : Setup) (name : PublicKey) {node : Node} {event : Event}
    (fits : node.roundsFit setup event = true) :
    @step _ .u64 setup name node event = step setup name node event := by
  cases event with
  | message message =>
      let received : Node := { node with core := node.core.record (.received message) }
      have same := received.runCore_agree
        (Core.handleMessage64 setup name node received.core rfl fits)
      exact congrArg (fun after => if node.halted = false ∧ message.forCore = true
        then some after else none) same
  | loopback =>
      unfold step
      cases next : node.rxLoopback with
      | nil => rfl
      | cons block rest =>
          have blockFits : node.core.fits setup block = true := by
            simpa only [roundsFit, next, List.head?_cons, Option.all_some] using fits
          let resumed : Node :=
            { node with core := node.core.record (.resumed block), rxLoopback := rest }
          have same := resumed.runCore_agree (Core.processBlock64 setup name resumed.core blockFits)
          exact congrArg (fun after => if node.halted = false then some after else none) same
  | timer =>
      obtain ⟨below, qcBelow⟩ := of_decide_eq_true fits
      have same := node.runCore_agree (Core.localTimeoutRound64 setup name node.core below qcBelow)
      exact congrArg (fun after => if node.halted = false then some after else none) same
  | _ => rfl

/-- The rounds fit in the turn of the node. -/
def System.roundsFit (system : System) (nodes : PublicKey → Node) (turn : PublicKey × Event) :
    Bool :=
  (nodes turn.1).roundsFit system.setup turn.2

/-- The turn of an honest member is the same with unbounded rounds. -/
theorem System.step64 (system : System) {nodes : PublicKey → Node} {turn : PublicKey × Event}
    (fits : system.roundsFit nodes turn = true) :
    @step _ .u64 system nodes turn = system.step nodes turn := by
  unfold step
  rw [Node.step64 _ _ fits]

/-- The rounds fit in the turn, if the event is one of a node. -/
def Deployment.roundsFit (system : System) (deployment : Deployment) : DeploymentEvent → Bool
  | .turn turn => system.roundsFit deployment.nodes turn
  | _ => true

/-- The application does not see the arithmetic of the rounds. -/
theorem Deployment.step64 (system : System) (formats : Formats) {deployment : Deployment}
    {event : DeploymentEvent} (fits : deployment.roundsFit system event = true) :
    @step _ .u64 system formats deployment event = step system formats deployment event := by
  cases event with
  | turn turn =>
      exact congrArg (fun stepped => if (deployment.replicas turn.1).halted then none
        else stepped.map fun nodes => { deployment with nodes := nodes })
        (System.step64 system fits)
  | _ => rfl

/-- The rounds fit in the turn, if the event is one of a deployment. -/
def Federation.roundsFit (system : System) (federation : Federation) : FederationEvent → Bool
  | .deployment event => federation.deployment.roundsFit system event
  | _ => true

/-- Nor do the clients. -/
theorem Federation.step64 (system : System) (formats : Formats) (host : String → PublicKey)
    {federation : Federation} {event : FederationEvent}
    (fits : federation.roundsFit system event = true) :
    @step _ .u64 system formats host federation event =
      step system formats host federation event := by
  cases event with
  | deployment event =>
      exact congrArg (Option.map fun deployment => { federation with deployment })
        (Deployment.step64 system formats fits)
  | _ => rfl

/-- The runs whose rounds fit are those with unbounded rounds. -/
theorem Node.run64 {setup : Setup} {name : PublicKey} {condition : Node → Event → Prop}
    {events : List Event} {node : Node}
    (fits : ∀ node event, condition node event → node.roundsFit setup event = true) :
    (machine64 setup name).Run condition events node ↔
      (machine setup name).Run condition events node :=
  ⟨fun run => run.transfer rfl fun node event allowed =>
      step64 setup name (fits node event allowed),
    fun run => run.transfer rfl fun node event allowed =>
      (step64 setup name (fits node event allowed)).symm⟩

/-- The runs of the members whose rounds fit are those with unbounded rounds. -/
theorem System.run64 {system : System} {condition : (PublicKey → Node) → PublicKey × Event → Prop}
    {turns : List (PublicKey × Event)} {nodes : PublicKey → Node}
    (fits : ∀ nodes turn, condition nodes turn → system.roundsFit nodes turn = true) :
    system.machine64.Run condition turns nodes ↔ system.machine.Run condition turns nodes :=
  ⟨fun run => run.transfer rfl fun nodes turn allowed => system.step64 (fits nodes turn allowed),
    fun run => run.transfer rfl fun nodes turn allowed =>
      (system.step64 (fits nodes turn allowed)).symm⟩

/-- So are the runs of a deployment. -/
theorem Deployment.run64 {system : System} {formats : Formats} {quorum : PublicKey → Nat}
    {condition : Deployment → DeploymentEvent → Prop} {events : List DeploymentEvent}
    {deployment : Deployment} (fits : ∀ deployment event, condition deployment event →
      deployment.roundsFit system event = true) :
    (machine64 system formats quorum).Run condition events deployment ↔
      (machine system formats quorum).Run condition events deployment :=
  ⟨fun run => run.transfer rfl fun deployment event allowed =>
      step64 system formats (fits deployment event allowed),
    fun run => run.transfer rfl fun deployment event allowed =>
      (step64 system formats (fits deployment event allowed)).symm⟩

/-- And those of a federation. -/
theorem Federation.run64 {system : System} {formats : Formats} {quorum : PublicKey → Nat}
    {host : String → PublicKey} {condition : Federation → FederationEvent → Prop}
    {events : List FederationEvent} {federation : Federation}
    (fits : ∀ federation event, condition federation event →
      federation.roundsFit system event = true) :
    (machine64 system formats quorum host).Run condition events federation ↔
      (machine system formats quorum host).Run condition events federation :=
  ⟨fun run => run.transfer rfl fun federation event allowed =>
      step64 system formats host (fits federation event allowed),
    fun run => run.transfer rfl fun federation event allowed =>
      (step64 system formats host (fits federation event allowed)).symm⟩

/-- The node of a release build after a run in which every round fits. -/
def Node.InRange (setup : Setup) (name : PublicKey) (node : Node) : Prop :=
  ∃ events, (machine64 setup name).Run
    (fun node event => node.roundsFit setup event = true) events node

/-- Such a node is also reached with unbounded rounds. -/
theorem Node.InRange.reachable {setup : Setup} {name : PublicKey} {node : Node}
    (inRange : node.InRange setup name) : (machine setup name).Reachable node := by
  obtain ⟨events, run⟩ := inRange
  exact ((run64 fun _ _ => id).mp run).reachable

/-- A list of events that passes the check of its rounds leads to such a node. -/
theorem Node.InRange.of_execute {setup : Setup} {name : PublicKey} {events : List Event}
    {node : Node}
    (fits : (machine64 setup name).allows (fun node => node.roundsFit setup)
      (machine64 setup name).initial events = true)
    (executed : (machine64 setup name).execute (machine64 setup name).initial events = some node) :
    node.InRange setup name :=
  ⟨events, .of_execute fits executed⟩

/-- The nodes of a release build after a run in which every round fits. -/
def System.InRange (system : System) (nodes : PublicKey → Node) : Prop :=
  ∃ turns, system.machine64.Run (fun nodes turn => system.roundsFit nodes turn = true) turns nodes

/-- Such nodes are also reached with unbounded rounds. -/
theorem System.InRange.reachable {system : System} {nodes : PublicKey → Node}
    (inRange : system.InRange nodes) : system.machine.Reachable nodes := by
  obtain ⟨turns, run⟩ := inRange
  exact ((run64 fun _ _ => id).mp run).reachable

/-- A list of turns that passes the check of its rounds leads to such nodes. -/
theorem System.InRange.of_execute {system : System} {turns : List (PublicKey × Event)}
    {nodes : PublicKey → Node}
    (fits : system.machine64.allows system.roundsFit system.machine64.initial turns = true)
    (executed : system.machine64.execute system.machine64.initial turns = some nodes) :
    system.InRange nodes :=
  ⟨turns, .of_execute fits executed⟩

end DeflHotstuff
