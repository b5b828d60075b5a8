import DeflHotstuff.Construction.Helper
import DeflHotstuff.Construction.Plain
import DeflHotstuff.Proof.Storage

namespace DeflHotstuff

open Verification

section

variable [Crypto] {setup : Setup}

/-- The requester is in the committee and the store has a batch under the digest. -/
def SyncRequest.ForBatch (setup : Setup) (request : SyncRequest) : Prop :=
  (setup.committee.address request.origin).isSome ∧
    ∃ bytes, request.store.read request.digest = some (.batch bytes)

/-- The reply is a block with the requested digest. -/
def Reply.Matches (reply : Reply) : Prop :=
  ∃ block : Block, reply.message = .propose block ∧ block.digest = reply.requested

namespace Helper

/-- Every stored value is a block under its digest or a batch under its digest. -/
def Stores (request : SyncRequest) : Prop :=
  ∀ value, request.store.read request.digest = some value →
    (∃ block, value = .block block ∧ block.digest = request.digest) ∨
      ∃ bytes, value = .batch bytes ∧ sha512 (.batch bytes) = request.digest

/-- In every reachable state of a node a sync request meets a store as the helper assumes it. -/
theorem reachable_stores {name : PublicKey} {node : Node}
    (reachable : (Node.machine setup name).Reachable node) (digest : Digest) (origin : PublicKey) :
    Stores ⟨node.core.store, digest, origin⟩ := by
  intro value found
  have kept := (Node.reachable_regular reachable).stocked.entries _ _ (Store.mem_of_read found)
  cases kept with
  | batch bytes => exact .inr ⟨bytes, rfl, rfl⟩
  | block block => exact .inl ⟨block, rfl, rfl⟩

/-- A request that is for no batch gets a matching reply or none. -/
theorem answer_ok {request : SyncRequest} (stores : Stores request)
    (notBatch : ¬ request.ForBatch setup) (helper : Helper) :
    ∃ replies, (∀ reply ∈ replies, reply.Matches) ∧
      answer setup request helper = (.ok (), ⟨helper.network ++ replies⟩) := by
  have nothing : ((.ok (), helper) : Exit ConsensusError Unit × Helper) =
      (.ok (), ⟨helper.network ++ []⟩) := by rw [List.append_nil]
  unfold answer
  cases known : setup.committee.address request.origin with
  | none => exact ⟨[], by simp, nothing⟩
  | some address =>
      cases found : request.store.read request.digest with
      | none => exact ⟨[], by simp, nothing⟩
      | some value =>
          obtain ⟨block, rfl, isDigest⟩ | ⟨bytes, rfl, _⟩ := stores value found
          · refine ⟨[⟨request.digest, address, .propose block⟩], fun reply inside => ?_, rfl⟩
            cases List.mem_singleton.mp inside
            exact ⟨block, rfl, isDigest⟩
          · refine absurd ⟨?_, bytes, found⟩ notBatch
            rw [known]
            rfl

/-- A request for a batch makes the helper panic or send a block that nobody asked for. -/
theorem answer_batch (collisionFree : CollisionFree) {request : SyncRequest}
    (stores : Stores request) (forBatch : request.ForBatch setup) (helper : Helper) :
    (∃ message, answer setup request helper = (.panic message, helper)) ∨
      ∃ reply, ¬ reply.Matches ∧
        answer setup request helper = (.ok (), ⟨helper.network ++ [reply]⟩) := by
  obtain ⟨member, bytes, found⟩ := forBatch
  obtain ⟨address, known⟩ := Option.isSome_iff_exists.mp member
  have isDigest : sha512 (.batch bytes) = request.digest := by
    obtain ⟨block, isBlock, _⟩ | ⟨stored, isBatch, isDigest⟩ := stores _ found
    · cases isBlock
    · cases isBatch
      exact isDigest
  unfold answer
  rw [known, found]
  dsimp only
  cases setup.decode (.batch bytes) with
  | none => exact .inl ⟨_, rfl⟩
  | some block =>
      refine .inr ⟨⟨request.digest, address, .propose block⟩, ?_, rfl⟩
      rintro ⟨other, same, matched⟩
      cases same
      exact collisionFree.block_ne_batch block bytes (matched.trans isDigest.symm)

/-- What the helper sent stays sent. -/
theorem answer_network {request : SyncRequest} {helper after : Helper}
    (answers : answer setup request helper = (.ok (), after)) : helper.network ⊆ after.network := by
  have still : helper = after → helper.network ⊆ after.network := by
    rintro rfl
    exact List.Subset.refl _
  unfold answer at answers
  cases known : setup.committee.address request.origin with
  | none =>
      rw [known] at answers
      exact still (congrArg Prod.snd answers)
  | some address =>
      rw [known] at answers
      dsimp only at answers
      cases found : request.store.read request.digest with
      | none =>
          rw [found] at answers
          exact still (congrArg Prod.snd answers)
      | some value =>
          rw [found] at answers
          dsimp only at answers
          cases decoded : setup.decode value with
          | none =>
              rw [decoded] at answers
              cases answers
          | some block =>
              rw [decoded] at answers
              cases answers
              exact List.subset_append_left _ _

/-- The helper takes back no reply. -/
theorem run_network {requests : List SyncRequest} {helper after : Helper}
    (runs : run setup requests helper = (.ok (), after)) : helper.network ⊆ after.network := by
  induction requests generalizing helper with
  | nil =>
      cases runs
      exact List.Subset.refl _
  | cons request rest ih =>
      obtain ⟨_, middle, answers, runs⟩ := Handler.bind_ok.mp runs
      exact List.Subset.trans (answer_network answers) (ih runs)

/-- The helper answers all requests rightly exactly when none is for a stored batch that it cannot
read as a block. -/
theorem run_iff (collisionFree : CollisionFree) {requests : List SyncRequest}
    (stores : ∀ request ∈ requests, Stores request) (helper : Helper)
    (sound : ∀ reply ∈ helper.network, reply.Matches) :
    (∃ after, run setup requests helper = (.ok (), after) ∧
      ∀ reply ∈ after.network, reply.Matches) ↔
        ∀ request ∈ requests, ¬ request.ForBatch setup := by
  induction requests generalizing helper with
  | nil => exact ⟨fun _ => by simp, fun _ => ⟨helper, rfl, sound⟩⟩
  | cons request rest ih =>
      obtain ⟨here, later⟩ := List.forall_mem_cons.mp stores
      rw [List.forall_mem_cons]
      by_cases forBatch : request.ForBatch setup
      · refine ⟨?_, fun both => absurd forBatch both.1⟩
        rintro ⟨after, runs, matched⟩
        obtain ⟨_, middle, answers, runs⟩ := Handler.bind_ok.mp runs
        obtain ⟨message, panics⟩ | ⟨reply, mismatched, replies⟩ :=
          answer_batch collisionFree here forBatch helper
        · rw [panics] at answers
          cases answers
        · rw [replies] at answers
          cases answers
          refine absurd (matched reply (run_network runs ?_)) mismatched
          exact List.mem_append_right _ (List.mem_singleton.mpr rfl)
      · obtain ⟨replies, matched, returns⟩ := answer_ok here forBatch helper
        rw [← ih later ⟨helper.network ++ replies⟩ (List.forall_mem_append.mpr ⟨sound, matched⟩)]
        have same (after : Helper) : run setup (request :: rest) helper = (.ok (), after) ↔
            run setup rest ⟨helper.network ++ replies⟩ = (.ok (), after) := by
          refine Handler.bind_ok.trans ⟨?_, fun runs => ⟨(), _, returns, runs⟩⟩
          rintro ⟨_, middle, answers, runs⟩
          rw [returns] at answers
          cases answers
          exact runs
        simp only [same, forBatch, not_false_eq_true, true_and]

/-- The helper survives any requests and answers them with the right blocks exactly when no
member asks for the digest of a stored batch. -/
theorem helper_answers (collisionFree : CollisionFree) (setup : Setup) (name : PublicKey)
    (requests : List SyncRequest)
    (reachable : ∀ request ∈ requests, ∃ node,
      (Node.machine setup name).Reachable node ∧ request.store = node.core.store) :
    (∃ after, run setup requests .new = (.ok (), after) ∧
      ∀ reply ∈ after.network, reply.Matches) ↔
        ∀ request ∈ requests, ¬ request.ForBatch setup := by
  refine run_iff collisionFree (fun request inside => ?_) .new (by simp [new])
  obtain ⟨node, reached, isStore⟩ := reachable request inside
  have stores := reachable_stores reached request.digest request.origin
  rw [← isStore] at stores
  exact stores

end Helper

end

namespace Plain

/-- A member asks for the digest. -/
def request (node : Node) (digest : List Nat) : SyncRequest :=
  ⟨node.core.store, digest, (1 : Nat)⟩

/-- The block of the first round. -/
def opening : Block := propose .genesis none 1 1

def holdsBlock (node : Node) (digest : List Nat) : Bool :=
  match node.core.store.read digest with
  | some (.block _) => true
  | _ => false

/-- The check of the store finds a block. -/
theorem of_holdsBlock {node : Node} {digest : List Nat} (holds : holdsBlock node digest = true) :
    ∃ block, node.core.store.read digest = some (.block block) := by
  unfold holdsBlock at holds
  split at holds
  · exact ⟨_, ‹_›⟩
  · cases holds

/-- The request for a stored block is answered with it. -/
theorem helper_answers_block : ∃ node, (Node.machine four.setup (2 : Nat)).Reachable node ∧
    (node.core.store.read opening.digest).isSome ∧
    ∃ after, Helper.run four.setup [request node opening.digest] .new = (.ok (), after) ∧
      ∀ reply ∈ after.network, reply.Matches := by
  have taken : (((Node.machine four.setup (2 : Nat)).execute (Node.boot four.setup (2 : Nat))
      [.message (.propose opening)]).map fun node =>
        holdsBlock node opening.digest) = some true := by
    decide +kernel
  obtain ⟨node, executed, stored⟩ := Option.map_eq_some_iff.mp taken
  have reachable : (Node.machine four.setup (2 : Nat)).Reachable node := .execute executed
  obtain ⟨block, found⟩ := of_holdsBlock stored
  refine ⟨node, reachable, by rw [found]; rfl, ?_⟩
  refine (Helper.helper_answers collisionFree four.setup (2 : Nat) _ ?_).mpr ?_
  · intro asked inside
    cases List.mem_singleton.mp inside
    exact ⟨node, reachable, rfl⟩
  · rintro asked inside ⟨_, bytes, isBatch⟩
    cases List.mem_singleton.mp inside
    rw [request, found] at isBatch
    cases isBatch

/-- The bytes of a batch without transactions. -/
def emptyBatch : List UInt8 := [0, 0, 0, 0, 0, 0, 0, 0, 0, 0, 0, 0]

/-- The request for a stored batch stops the helper. -/
theorem helper_answers_fails : ∃ node, (Node.machine four.setup (0 : Nat)).Reachable node ∧
    ∃ message, Helper.run four.setup [request node (hash (.batch emptyBatch))] .new =
      (.panic message, .new) := by
  have steps : (Node.machine four.setup (0 : Nat)).step (Node.boot four.setup (0 : Nat))
      (.batch emptyBatch) = some _ := rfl
  exact ⟨_, .next .start steps, _, rfl⟩

end Plain

end DeflHotstuff
