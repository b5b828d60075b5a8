import DeflHotstuff.Construction.Application
import DeflHotstuff.Proof.Batches

namespace DeflHotstuff

open Verification

section

variable [Crypto] {setup : Setup} {name : PublicKey}

namespace Node

/-- The mempool announces no digest that a cleanup has named before. -/
def announcesNew (node : Node) : Event → Bool
  | .digest index =>
      match node.rxMempool[index]? with
      | some digest => node.core.history.all fun action => match action with
          | .cleaned digests => decide (digest ∉ digests)
          | _ => true
      | none => true
  | _ => true

/-- An announcement that is new names no digest of a clean-up. -/
theorem not_cleaned_of_announcesNew {node : Node} {index : Nat} {digest : Digest}
    (allowed : node.announcesNew (.digest index) = true)
    (next : node.rxMempool[index]? = some digest) : ¬ node.core.Cleaned digest := by
  rintro ⟨digests, cleaned, named⟩
  simp only [announcesNew, next] at allowed
  exact of_decide_eq_true (List.all_eq_true.mp allowed _ cleaned) named

/-- The payload repeats no digest, and none of a block processed before the request was sent. -/
structure BuildsNew (history : List Action) (sent : Nat) (block : Block) : Prop where
  within : sent ≤ history.length
  distinct : block.payload.Nodup
  unprocessed : ∀ b0 b1 processed, .processed b0 b1 processed ∈ history.take sent →
    block.payload.Disjoint processed.payload

/-- The buffer holds no digest twice and none that a cleanup has named. -/
structure Fresh (node : Node) : Prop where
  distinct : node.proposer.buffer.Nodup
  uncleaned : ∀ digest ∈ node.proposer.buffer, ¬ node.core.Cleaned digest
  built : ∀ sent qc tc block, .built sent qc tc block ∈ node.core.history →
    BuildsNew node.core.history sent block

/-- A longer record changes nothing about a block that was built. -/
theorem BuildsNew.mono {history later : List Action} {sent : Nat} {block : Block}
    (buildsNew : BuildsNew history sent block) (grows : history <+: later) :
    BuildsNew later sent block where
  within := buildsNew.within.trans grows.length_le
  distinct := buildsNew.distinct
  unprocessed b0 b1 processed inside := by
    rw [Core.take_of_start grows buildsNew.within] at inside
    exact buildsNew.unprocessed b0 b1 processed inside

/-- A block is new when the buffer is and its request is the next message. -/
theorem Fresh.builds {node : Node} (fresh : node.Fresh) (channelled : node.core.Channelled)
    {drained : List Digest} {sent round : Nat} {qc : QC} {tc : Option TC} {rest : List Stamped}
    (drains : drained.Perm node.proposer.buffer)
    (next : node.core.txProposer = ⟨sent, .make round qc tc⟩ :: rest) (block : Block)
    (isPayload : block.payload = drained) : BuildsNew node.core.history sent block where
  within := channelled.stamps ⟨sent, .make round qc tc⟩ (next ▸ List.mem_cons_self ..)
  distinct := by
    rw [isPayload]
    exact drains.nodup_iff.mpr fresh.distinct
  unprocessed b0 b1 processed inside := by
    intro digest ours theirs
    rw [isPayload] at ours
    obtain cleaned | ⟨_, _, queued, _⟩ :=
      channelled.requests [] sent round qc tc rest next b0 b1 processed inside digest theirs
    · exact fresh.uncleaned digest (drains.mem_iff.mp ours) cleaned
    · cases queued

/-- A turn that announces new digests keeps the buffer fresh. -/
theorem Turn.fresh {node after : Node} {event : Event} (turn : Turn setup name node event after)
    (sound : node.Sound) (channelled : node.core.Channelled)
    (allowed : node.announcesNew event = true) (fresh : node.Fresh) : after.Fresh := by
  have grows := turn.history_prefix sound
  have untouched := turn.untouched sound
  -- blocks built before this turn stay new, and no cleanup of before is forgotten
  have old {sent : Nat} {qc : QC} {tc : Option TC} {block : Block}
      (built : .built sent qc tc block ∈ node.core.history) :
      BuildsNew after.core.history sent block := (fresh.built sent qc tc block built).mono grows
  have kept (only : ∀ action ∈ after.core.history, action.Buffers →
      action ∈ node.core.history) {digest : Digest} (cleaned : after.core.Cleaned digest) :
      node.core.Cleaned digest := by
    obtain ⟨digests, recorded, named⟩ := cleaned
    exact ⟨digests, only _ recorded trivial, named⟩
  cases turn with
  | digest index digest next =>
      have uncleaned := not_cleaned_of_announcesNew allowed next
      constructor
      · exact fresh.distinct.insert
      · rintro other inside ⟨digests, recorded, named⟩
        obtain before | new := Core.mem_history_append recorded
        · rcases List.mem_insert_iff.mp inside with rfl | buffered
          · exact uncleaned ⟨digests, before, named⟩
          · exact fresh.uncleaned other buffered ⟨digests, before, named⟩
        · cases new
      · intro sent qc tc block built
        obtain built | new := Core.mem_history_append built
        · exact old built
        · cases new
  | clean drained sent digests rest next =>
      constructor
      · exact fresh.distinct.filter _
      · rintro other inside ⟨named, recorded, isNamed⟩
        obtain ⟨buffered, unnamed⟩ := List.mem_filter.mp inside
        obtain before | new := Core.mem_history_append recorded
        · exact fresh.uncleaned other buffered ⟨named, before, isNamed⟩
        · cases new
          exact of_decide_eq_true unnamed isNamed
      · intro stamp qc tc block built
        obtain built | new := Core.mem_history_append built
        · exact old built
        · cases new
  | skip drained sent round qc rest late empty next =>
      exact ⟨fresh.distinct, fresh.uncleaned, fresh.built⟩
  | build drained sent round qc tc rest drains full next =>
      constructor
      · exact List.nodup_nil
      · exact fun _ inside => nomatch inside
      · intro stamp qc' tc' block built
        obtain built | new := Core.mem_history_append built
        · exact old built
        · cases new
          exact (fresh.builds channelled drains next _ rfl).mono grows
  | _ =>
      obtain ⟨same, only⟩ := untouched (fun _ => (nomatch ·)) (fun _ => (nomatch ·))
      constructor
      · rw [same]
        exact fresh.distinct
      · rw [same]
        exact fun digest buffered cleaned => fresh.uncleaned digest buffered (kept only cleaned)
      · exact fun sent qc tc block built => old (only _ built trivial)

end Node

/-- The digests of the batches that `analyze_block` executes for the blocks of the commit channel,
in order. -/
def analyzedDigests : List Block → List Digest
  | [] => []
  | block :: rest =>
      if block.payload.isEmpty then analyzedDigests rest
      else block.payload ++ analyzedDigests rest

namespace Application

variable (formats : Formats) (store : Store)

/-- One payload after another is one long payload. -/
theorem analyzeBlock_append (first second : List Digest) :
    analyzeBlock formats store (first ++ second) =
      analyzeBlock formats store first >>= fun _ => analyzeBlock formats store second := by
  induction first with
  | nil => rfl
  | cons digest rest ih =>
      rw [List.cons_append, analyzeBlock, analyzeBlock, ih]
      cases store.read digest with
      | none => rfl
      | some value => exact (Handler.bind_assoc _ _ _).symm

/-- The application loop executes the batches with these digests and nothing else. -/
theorem analyzeBlocks_eq (blocks : List Block) :
    analyzeBlocks formats store blocks = analyzeBlock formats store (analyzedDigests blocks) := by
  induction blocks with
  | nil => rfl
  | cons block rest ih =>
      rw [analyzeBlocks, analyzedDigests]
      split
      · exact ih
      · rw [analyzeBlock_append, ih]

end Application

end

namespace Plain

end Plain

end DeflHotstuff
