import DeflHotstuff.Proof.Actions

namespace DeflHotstuff

open Verification

variable [Crypto] {setup : Setup} {name : PublicKey} {around : Surroundings}

namespace Core

/-- The record survives any number of steps. -/
theorem steps_history_subset {core after : Core}
    (steps : Relation.ReflTransGen (Step setup name around) core after) {action : Action}
    (inside : action ∈ core.history) : action ∈ after.history := by
  induction steps with
  | refl => exact inside
  | tail _ step ih => exact step.history_subset ih

/-- The reader either finds the parent or leaves the block with the synchronizer. -/
theorem getParentBlock_run [Rounds] (core : Core) (block : Block) :
    getParentBlock setup block core =
      if block.qc == QC.genesis then (.ok (some .genesis), core)
      else match core.store.read block.parent with
        | some value =>
            match setup.decode value with
            | some parent => (.ok (some parent), core)
            | none => (.error .serializationError, core)
        | none => (.ok none, { core with innerChannel := core.innerChannel ++ [block] }) := by
  unfold getParentBlock
  split
  · rfl
  · change Handler.bind Handler.read _ core = _
    simp only [Handler.bind, Handler.read]
    cases core.store.read block.parent with
    | none => rfl
    | some value =>
        dsimp only
        cases setup.decode value <;> rfl

/-- A missing parent is told by the kind of the QC and by the store. -/
theorem getParentBlock_cases [Rounds] (setup : Setup) (core : Core) (block : Block) :
    (∃ parent, setup.parentOf core.store block = some parent ∧
        getParentBlock setup block core = (.ok (some parent), core)) ∨
      (∃ failure, getParentBlock setup block core = (.error failure, core)) ∨
      ((block.qc == QC.genesis) = false ∧ core.store.read block.parent = none ∧
        getParentBlock setup block core =
          (.ok none, { core with innerChannel := core.innerChannel ++ [block] })) := by
  rw [getParentBlock_run]
  unfold Setup.parentOf
  by_cases isGenesis : (block.qc == QC.genesis) = true
  · rw [if_pos isGenesis, if_pos isGenesis]
    exact .inl ⟨_, rfl, rfl⟩
  · rw [if_neg isGenesis, if_neg isGenesis]
    cases present : core.store.read block.parent with
    | none => exact .inr (.inr ⟨Bool.eq_false_of_not_eq_true isGenesis, rfl, rfl⟩)
    | some value =>
        dsimp only [Option.bind]
        cases decoded : setup.decode value with
        | none => exact .inr (.inl ⟨_, rfl⟩)
        | some parent => exact .inl ⟨parent, rfl, rfl⟩

/-- A program after a search continues with the parent, fails, or takes the missing branch. -/
theorem parent_leads {Value : Type} {core : Core} {block : Block}
    {next : Option Block → CoreTask Value} {post : Value → Core → Prop}
    (found : ∀ parent, setup.parentOf core.store block = some parent →
      (next (some parent)).Leads (Step setup name around) (Fault setup) core post)
    (missing : (block.qc == QC.genesis) = false → core.store.read block.parent = none →
      (Handler.bind (getParentBlock setup block) next).Leads (Step setup name around)
        (Fault setup) core post) :
    (getParentBlock setup block >>= next).Leads (Step setup name around) (Fault setup) core
      post := by
  obtain ⟨parent, isParent, run⟩ | ⟨failure, run⟩ | ⟨embedded, absent, _⟩ :=
    getParentBlock_cases setup core block
  · apply Handler.Leads.bind
    unfold Handler.Leads
    rw [run]
    exact ⟨.refl, found parent isParent⟩
  · apply Handler.Leads.bind
    unfold Handler.Leads
    rw [run]
  · exact missing embedded absent

/-- The missing branch of a search runs with the block in the inner channel. -/
theorem parent_missing [Rounds] {Value : Type} {core : Core} {block : Block}
    (next : Option Block → CoreTask Value) (embedded : (block.qc == QC.genesis) = false)
    (absent : core.store.read block.parent = none) :
    Handler.bind (getParentBlock setup block) next core =
      next none { core with innerChannel := core.innerChannel ++ [block] } := by
  have isNot : ¬ (block.qc == QC.genesis) = true := by simp [embedded]
  unfold Handler.bind
  rw [getParentBlock_run, if_neg isNot, absent]

/-- The search for the ancestors returns those of the store. -/
theorem getAncestors_leads (core : Core) (block : Block)
    (handed : (.accepted block ∈ core.history ∧
      ∀ digest ∈ block.payload, (core.store.read digest).isSome) ∨ .resumed block ∈ core.history) :
    (getAncestors setup block).Leads (Step setup name around) (Fault setup) core
      fun found after => ∀ b0 b1, found = some (b0, b1) →
        setup.parentOf core.store block = some b1 ∧ setup.parentOf core.store b1 = some b0 ∧
          after = core := by
  unfold getAncestors
  apply parent_leads
  · intro b1 parent
    apply parent_leads
    · intro b0 grandparent
      refine .return fun b0' b1' same => ?_
      cases same
      exact ⟨parent, grandparent, rfl⟩
    · intro embedded absent
      unfold Handler.Leads
      rw [parent_missing _ embedded absent]
      exact ⟨core, .refl,
        .missingParent block b1 (handed.imp_left And.left) parent embedded absent⟩
  · intro embedded absent
    unfold Handler.Leads
    rw [parent_missing _ embedded absent]
    exact ⟨.single (.suspend block handed), fun _ _ same => nomatch same⟩

/-- The loop of `commit` returns what the walk up the stored parents collects. -/
theorem collectAncestors_leads (fuel turns : Nat) (core : Core) (block parent : Block)
    (toCommit : List Block) (decided : .committed block ∈ core.history)
    (climbs : Climbs setup core.store core.lastCommittedRound block turns parent)
    (enough : turns + fuel = core.store.entries.length + 2) :
    (collectAncestors setup core.lastCommittedRound fuel parent toCommit).Leads
      (Step setup name around) (Fault setup) core fun collected after => after = core ∧
        ∃ ancestors, Collects setup core.store core.lastCommittedRound parent ancestors ∧
          collected = ancestors.reverse ++ toCommit := by
  induction fuel generalizing turns parent toCommit with
  | zero =>
      have all : turns = core.store.entries.length + 2 := by omega
      exact .loop (.endless block parent decided (all ▸ climbs))
  | succ fuel ih =>
      unfold collectAncestors
      split
      · rename_i above
        apply parent_leads
        · intro ancestor isParent
          refine (ih (turns + 1) ancestor (ancestor :: toCommit) (.turn climbs above isParent)
            (by omega)).weaken ?_
          rintro collected last _ ⟨rfl, ancestors, collects, rfl⟩
          exact ⟨rfl, ancestor :: ancestors, .more above isParent collects, by simp⟩
        · intro embedded absent
          unfold Handler.Leads
          rw [parent_missing _ embedded absent]
          exact ⟨core, .refl, .missingAncestor block parent turns decided climbs embedded absent⟩
      · rename_i reached
        exact .return ⟨rfl, [], .stop reached, rfl⟩

/-- A commit takes the steps of the delivery. -/
theorem commit_leads (core : Core) (block : Block) (decided : .committed block ∈ core.history)
    (commits : core.lastCommittedRound < block.round → around.commits core block) :
    (commit setup block).Leads (Step setup name around) (Fault setup) core fun _ _ => True := by
  unfold commit
  refine .bind (.read ?_)
  split
  · exact .return trivial
  · rename_i above
    refine .bind ((collectAncestors_leads _ 0 core block block [] decided .start
      (by omega)).weaken ?_)
    rintro collected after _ ⟨rfl, ancestors, collects, rfl⟩
    refine .update (.single ?_) trivial
    have later := Nat.not_le.mp above
    have step : Step setup name around after _ :=
      .commit block ancestors decided (commits later) later collects
    simpa using step

end Core

/-- The state in which `commit` runs while `process_block` handles the block. -/
structure Core.Processing (core : Core) (block : Block) (later : Core) : Prop where
  store : later.store = core.store.write block.digest (.block block)
  lastCommittedRound : later.lastCommittedRound = core.lastCommittedRound
  txCommit : later.txCommit = core.txCommit

/-- The block completes a two-chain above the last committed round on the given head. -/
def Core.Decides (setup : Setup) (core : Core) (block b0 : Block) : Prop :=
  ∃ b1, setup.parentOf core.store block = some b1 ∧ setup.parentOf core.store b1 = some b0 ∧
    b0.round + 1 = b1.round ∧ core.lastCommittedRound < b0.round

/-- The commit that the block would bring about meets the condition. -/
def Surroundings.Allows (around : Surroundings) (setup : Setup) (core : Core) (block : Block) :
    Prop :=
  ∀ b0 later, core.Decides setup block b0 → core.Processing block later → around.commits later b0

namespace Core

/-- The two-chain rule decides, cleans up and commits. -/
theorem commitTwoChain_leads (core : Core) (b0 b1 block : Block)
    (processed : .processed b0 b1 block ∈ core.history)
    (commits : ∀ later, later.store = core.store →
      later.lastCommittedRound = core.lastCommittedRound → later.txCommit = core.txCommit →
      b0.round + 1 = b1.round → core.lastCommittedRound < b0.round → around.commits later b0) :
    (commitTwoChain setup b0 b1).Leads (Step setup name around) (Fault setup) core
      fun _ _ => True := by
  unfold commitTwoChain
  split
  · rename_i consecutive
    refine .bind (.update (.single (.decide b0 b1 block processed consecutive)) ?_)
    exact commit_leads _ b0 (List.mem_append_right _ (List.mem_singleton.mpr rfl))
      fun above => commits _ rfl rfl rfl consecutive above
  · exact .return trivial

/-- The vote is verified before the aggregator changes, and a QC is processed at once. -/
theorem handleVote_run (core : Core) (vote : Vote) :
    handleVote setup name vote core =
      if vote.round < core.round then (.ok (), core)
      else match vote.verify setup.committee with
        | .error failure => (.error failure, core)
        | .ok _ =>
            match core.aggregator.addVote vote setup.committee with
            | (.error failure, aggregator) => (.error failure, core.setAggregator aggregator)
            | (.ok none, aggregator) => (.ok (), core.setAggregator aggregator)
            | (.ok (some qc), aggregator) => (.ok (), proposeAsLeader setup name none
                (((core.setAggregator aggregator).record (.assembledQc qc)).processQc qc)) := by
  unfold handleVote
  change Handler.bind Handler.read _ core = _
  simp only [Handler.bind, Handler.read]
  split
  · rfl
  · change Handler.bind (Handler.check (vote.verify setup.committee)) _ core = _
    cases vote.verify setup.committee with
    | error failure => rfl
    | ok _ =>
        change Handler.bind (Handler.check (core.aggregator.addVote vote setup.committee).1) _
          (core.setAggregator (core.aggregator.addVote vote setup.committee).2) = _
        rcases core.aggregator.addVote vote setup.committee with ⟨result, aggregator⟩
        cases result with
        | error failure => rfl
        | ok made => cases made <;> rfl

/-- A vote is collected and may complete a QC. -/
theorem handleVote_leads (core : Core) (vote : Vote) (arrived : core.VoteArrived setup name vote) :
    (handleVote setup name vote).Leads (Step setup name around) (Fault setup) core
      fun _ _ => True := by
  unfold Handler.Leads
  rw [handleVote_run]
  by_cases old : vote.round < core.round
  · rw [if_pos old]
    exact ⟨.refl, trivial⟩
  · rw [if_neg old]
    have current := Nat.not_lt.mp old
    cases verified : vote.verify setup.committee with
    | error failure => exact Relation.ReflTransGen.refl
    | ok _ =>
        rcases outcome : core.aggregator.addVote vote setup.committee with ⟨result, aggregator⟩
        have collect : Step setup name around core _ := .collectVote vote arrived current verified
        rw [outcome] at collect
        cases result with
        | error failure => exact .single collect
        | ok made =>
            cases made with
            | none => exact ⟨.single collect, trivial⟩
            | some qc =>
                have assemble : Step setup name around core _ :=
                  .assembleQc vote qc arrived current verified (by rw [outcome])
                rw [outcome] at assemble
                exact ⟨.single assemble, trivial⟩

/-- The QC of a timeout is processed before the aggregator changes. -/
theorem handleTimeout_run (core : Core) (timeout : Timeout) :
    handleTimeout setup name timeout core =
      if timeout.round < core.round then (.ok (), core)
      else match timeout.verify setup.committee with
        | .error failure => (.error failure, core)
        | .ok _ =>
            let core := core.processQc timeout.highQc
            match core.aggregator.addTimeout timeout setup.committee with
            | (.error failure, aggregator) => (.error failure, core.setAggregator aggregator)
            | (.ok none, aggregator) => (.ok (), core.setAggregator aggregator)
            | (.ok (some tc), aggregator) => (.ok (), proposeAsLeader setup name (some tc)
                (broadcast setup name (.tc tc)
                  (((core.setAggregator aggregator).record (.assembledTc tc)).advanceRound
                    tc.round))) := by
  unfold handleTimeout
  change Handler.bind Handler.read _ core = _
  simp only [Handler.bind, Handler.read]
  split
  · rfl
  · change Handler.bind (Handler.check (timeout.verify setup.committee)) _ core = _
    cases timeout.verify setup.committee with
    | error failure => rfl
    | ok _ =>
        dsimp only
        change Handler.bind (Handler.check
            ((core.processQc timeout.highQc).aggregator.addTimeout timeout setup.committee).1) _
          ((core.processQc timeout.highQc).setAggregator
            ((core.processQc timeout.highQc).aggregator.addTimeout timeout setup.committee).2) = _
        rcases (core.processQc timeout.highQc).aggregator.addTimeout timeout setup.committee
          with ⟨result, aggregator⟩
        cases result with
        | error failure => rfl
        | ok made => cases made <;> rfl

/-- A timeout is collected and may complete a TC. -/
theorem handleTimeout_leads (core : Core) (timeout : Timeout)
    (arrived : core.TimeoutArrived timeout) :
    (handleTimeout setup name timeout).Leads (Step setup name around) (Fault setup) core
      fun _ _ => True := by
  unfold Handler.Leads
  rw [handleTimeout_run]
  by_cases old : timeout.round < core.round
  · rw [if_pos old]
    exact ⟨.refl, trivial⟩
  · rw [if_neg old]
    have current := Nat.not_lt.mp old
    cases verified : timeout.verify setup.committee with
    | error failure => exact Relation.ReflTransGen.refl
    | ok _ =>
        dsimp only
        rcases outcome : (core.processQc timeout.highQc).aggregator.addTimeout timeout
          setup.committee with ⟨result, aggregator⟩
        have collect : Step setup name around core _ :=
          .collectTimeout timeout arrived current verified
        rw [outcome] at collect
        cases result with
        | error failure => exact .single collect
        | ok made =>
            cases made with
            | none => exact ⟨.single collect, trivial⟩
            | some tc =>
                have assemble : Step setup name around core _ :=
                  .assembleTc timeout tc arrived current verified (by rw [outcome])
                rw [outcome] at assemble
                exact ⟨.single assemble, trivial⟩

/-- The timer gives up voting in the round and handles the own timeout. -/
theorem localTimeoutRound_leads (core : Core) :
    (localTimeoutRound setup name).Leads (Step setup name around) (Fault setup) core
      fun _ _ => True := by
  let timeout := Timeout.new core.highQc core.round name (setup.sign name)
  let expired := broadcast setup name (.timeout timeout)
    ((core.increaseLastVotedRound core.round).record (.expired timeout))
  have recorded : expired.TimeoutArrived timeout :=
    .inr (List.mem_append_right _ (List.mem_singleton.mpr rfl))
  have first : Step setup name around core expired := .expire timeout rfl
  exact Handler.Leads.after (.single first) rfl (handleTimeout_leads expired timeout recorded)

/-- The second rule of the code decides the voting rule, and an empty TC is a fault. -/
theorem safetyRule2_leads (core : Core) (block : Block) (handed : core.Handed block) :
    (safetyRule2 block).Leads (Step setup name around) (Fault setup) core
      fun rule2 after => after = core ∧ (rule2 = true → block.Votable) := by
  unfold safetyRule2
  cases carried : block.tc with
  | none =>
      refine .return ⟨rfl, fun decided => .inl ?_⟩
      simpa using decided
  | some tc =>
      dsimp only
      cases found : tc.highQcRounds.max? with
      | none =>
          refine .crash (.emptyTc block tc handed carried ?_)
          rw [List.max?_eq_none_iff] at found
          simpa [TC.highQcRounds] using found
      | some highest =>
          refine .return ⟨rfl, fun decided => ?_⟩
          rw [decide_eq_true_iff] at decided
          rcases decided with consecutive | ⟨next, bound⟩
          · exact .inl consecutive
          · refine .inr ⟨tc, carried, next, fun round listed => ?_⟩
            have below := (List.max?_eq_some_iff.mp found).2 round listed
            omega

/-- The voting rule only reads. -/
theorem safetyRule2_same (block : Block) (core : Core) : (safetyRule2 block core).2 = core := by
  unfold safetyRule2
  cases block.tc with
  | none => rfl
  | some tc =>
      dsimp only
      cases tc.highQcRounds.max? with
      | none => rfl
      | some highest => rfl

/-- A vote is recorded when it is made, and otherwise nothing changes. -/
theorem makeVote_cases (core : Core) (block : Block) :
    ((makeVote setup name block core).2 = core ∧
        ∀ vote, (makeVote setup name block core).1 ≠ .ok (some vote)) ∨
      makeVote setup name block core = (.ok (some (Vote.new block name (setup.sign name))),
        (core.increaseLastVotedRound block.round).record (.voted block)) := by
  have same := safetyRule2_same block core
  unfold makeVote
  rw [Handler.read_bind]
  change _ ∨ Handler.bind (safetyRule2 block) _ core = _
  change ((Handler.bind (safetyRule2 block) _ core).2 = core ∧
    ∀ vote, (Handler.bind (safetyRule2 block) _ core).1 ≠ _) ∨ _
  unfold Handler.bind
  rcases outcome : safetyRule2 block core with ⟨result, middle⟩
  rw [outcome] at same
  subst same
  cases result with
  | ok rule2 =>
      dsimp only
      split
      · exact .inr rfl
      · exact .inl ⟨rfl, by simp [pure]⟩
  | error failure => exact .inl ⟨rfl, by simp⟩
  | panic message => exact .inl ⟨rfl, by simp⟩
  | diverge => exact .inl ⟨rfl, by simp⟩

/-- A vote that is made is on record. -/
theorem makeVote_leads (core : Core) (b0 b1 block : Block)
    (processed : .processed b0 b1 block ∈ core.history) (handed : core.Handed block)
    (inRound : block.round = core.round) :
    (makeVote setup name block).Leads (Step setup name around) (Fault setup) core
      fun found after => ∀ vote, found = some vote → after.VoteArrived setup name vote := by
  unfold makeVote
  refine .bind (.read (.bind ((safetyRule2_leads core block handed).weaken ?_)))
  rintro rule2 after _ ⟨rfl, votable⟩
  split
  · rename_i allowed
    refine .bind (.update (.single
      (.vote b0 b1 block processed handed inRound allowed.1 (votable allowed.2))) ?_)
    refine .return fun vote same => ?_
    cases same
    exact .inr ⟨block, List.mem_append_right _ (List.mem_singleton.mpr rfl), rfl⟩
  · exact .return fun _ same => nomatch same

/-- The leader of the next round is in the committee, so its address is known. -/
theorem sendVote_leads (core : Core) (vote : Vote) (arrived : core.VoteArrived setup name vote) :
    (sendVote setup name vote).Leads (Step setup name around) (Fault setup) core
      fun _ _ => True := by
  unfold sendVote
  refine .bind (.read ?_)
  dsimp only
  split
  · exact handleVote_leads core vote arrived
  · have member := setup.committee.getLeader_mem (Rounds.next core.round)
    obtain ⟨address, known⟩ := Option.isSome_iff_exists.mp (setup.committee.address_isSome member)
    rw [known]
    exact .update (.single (.send [address] (.vote vote))) trivial

/-- A vote for a block of the round is cast and sent. -/
theorem voteInRound_leads (core : Core) (b0 b1 block : Block)
    (processed : .processed b0 b1 block ∈ core.history) (handed : core.Handed block) :
    (voteInRound setup name block).Leads (Step setup name around) (Fault setup) core
      fun _ _ => True := by
  unfold voteInRound
  refine .bind (.read ?_)
  split
  · exact .return trivial
  · rename_i inRound
    refine .bind ((makeVote_leads core b0 b1 block processed handed (not_not.mp inRound)).weaken ?_)
    intro found after _ arrived
    cases found with
    | none => exact .return trivial
    | some vote => exact sendVote_leads after vote (arrived vote rfl)

/-- A block that was handed over stays so. -/
theorem Handed.mono {core after : Core} {block : Block} (handed : core.Handed block)
    (keeps : ∀ action ∈ core.history, action ∈ after.history) : after.Handed block :=
  handed.imp (keeps _) (keeps _)

/-- The task of a block takes the listed steps only. -/
theorem processBlock_leads (core : Core) (block : Block)
    (handed : (.accepted block ∈ core.history ∧
      ∀ digest ∈ block.payload, (core.store.read digest).isSome) ∨ .resumed block ∈ core.history)
    (allows : around.Allows setup core block) :
    (processBlock setup name block).Leads (Step setup name around) (Fault setup) core
      fun _ _ => True := by
  have isHanded : core.Handed block := handed.imp And.left id
  unfold processBlock
  refine .bind ((getAncestors_leads core block handed).weaken ?_)
  intro found after _ ancestors
  cases found with
  | none => exact .return trivial
  | some pair =>
      obtain ⟨b0, b1⟩ := pair
      obtain ⟨parent, grandparent, rfl⟩ := ancestors b0 b1 rfl
      refine .bind (.update (.single (.process b0 b1 block handed parent grandparent)) ?_)
      have processed : Action.processed b0 b1 block ∈
          ((after.storeBlock block).cleanupProposer b0 b1 block).history :=
        List.mem_append_right _ (List.mem_singleton.mpr rfl)
      refine .bind ((commitTwoChain_leads _ b0 b1 block processed ?_).weaken ?_)
      · intro later store round commit consecutive above
        exact allows b0 later ⟨b1, parent, grandparent, consecutive, above⟩ ⟨store, round, commit⟩
      · intro _ last steps _
        apply voteInRound_leads last b0 b1 block (steps_history_subset steps processed)
        exact isHanded.mono fun action inside =>
          steps_history_subset steps (List.mem_append_left _ inside)

/-- The payload is present, or the payload waiter gets the block. -/
theorem verifyPayload_leads (core : Core) (block : Block)
    (accepted : .accepted block ∈ core.history) :
    (verifyPayload block).Leads (Step setup name around) (Fault setup) core
      fun present after => present = true →
        after = core ∧ ∀ digest ∈ block.payload, (core.store.read digest).isSome := by
  unfold verifyPayload
  refine .bind (.read ?_)
  dsimp only
  split
  · rename_i none
    refine .return fun _ => ⟨rfl, fun digest inside => ?_⟩
    have present := List.filter_eq_nil_iff.mp none digest inside
    cases read : core.store.read digest <;> simp_all
  · rename_i missing
    refine .bind (.update (.single (.awaitPayload block _ accepted rfl missing)) ?_)
    exact .return fun same => nomatch same

/-- The checks of `handle_proposal` succeed for the block, and its payload is in the store. -/
structure Ready (setup : Setup) (core : Core) (block : Block) : Prop where
  leader : block.author = setup.committee.getLeader block.round
  verified : block.verify setup.committee = .ok ()
  payload : ∀ digest ∈ block.payload, (core.store.read digest).isSome

/-- A proposal is checked, taken up and handed on. -/
theorem handleProposal_leads (core : Core) (block : Block)
    (arrived : .received (.propose block) ∈ core.history)
    (allows : core.Ready setup block → around.Allows setup core block) :
    (handleProposal setup name block).Leads (Step setup name around) (Fault setup) core
      fun _ _ => True := by
  unfold handleProposal
  refine .bind (.check fun _ leader => .bind (.check fun _ verified => ?_))
  have isLeader := decide_eq_true_iff.mp (ensure_ok.mp leader)
  refine .bind (.update (.single (.accept block arrived isLeader verified)) ?_)
  have books : SameBooks core
      ((advanceByTc block.tc (core.processQc block.qc)).record (.accepted block)) :=
    accept_books ..
  have accepted : Action.accepted block ∈
      ((advanceByTc block.tc (core.processQc block.qc)).record (.accepted block)).history :=
    List.mem_append_right _ (List.mem_singleton.mpr rfl)
  refine .bind ((verifyPayload_leads _ block accepted).weaken ?_)
  intro present after _ held
  split
  · rename_i isPresent
    obtain ⟨rfl, payload⟩ := held isPresent
    refine processBlock_leads _ block (.inl ⟨accepted, payload⟩) ?_
    rw [books.store] at payload
    rintro b0 later ⟨b1, parent, grandparent, consecutive, above⟩ ⟨store, round, commit⟩
    rw [books.store] at parent grandparent store
    rw [books.lastCommittedRound] at above round
    rw [books.txCommit] at commit
    exact allows ⟨isLeader, verified, payload⟩ b0 later
      ⟨b1, parent, grandparent, consecutive, above⟩ ⟨store, round, commit⟩
  · exact .return trivial

/-- A TC message is taken as it is. -/
theorem handleTc_leads (core : Core) (tc : TC) (arrived : .received (.tc tc) ∈ core.history)
    (admits : around.admits core tc) :
    (handleTc setup name tc).Leads (Step setup name around) (Fault setup) core
      fun _ _ => True :=
  ⟨.single (.takeTc tc arrived admits), trivial⟩

/-- Every message of the core leads to the listed steps only. -/
theorem handleMessage_leads (core : Core) (message : ConsensusMessage)
    (arrived : .received message ∈ core.history) (forCore : message.forCore = true)
    (admits : ∀ tc, message = .tc tc → around.admits core tc)
    (allows : ∀ block, message = .propose block → core.Ready setup block →
      around.Allows setup core block) :
    (handleMessage setup name message).Leads (Step setup name around) (Fault setup) core
      fun _ _ => True := by
  cases message with
  | propose block => exact handleProposal_leads core block arrived (allows block rfl)
  | vote vote => exact handleVote_leads core vote (.inl arrived)
  | timeout timeout => exact handleTimeout_leads core timeout (.inl arrived)
  | tc tc => exact handleTc_leads core tc arrived (admits tc rfl)
  | syncRequest missing origin => cases forCore

end Core

end DeflHotstuff
