import Mathlib.Data.Set.Insert

namespace Verification

/-- Items with one key wait for the same key and raise the bound to the same weights. A lost item
is never finished, and it may be dropped at any time. -/
structure Worklist (Item Key : Type) where
  key : Item → Key
  needs : Item → Option Key
  weighs : Key → Nat → Prop
  lost : Item → Prop
  same_needs : ∀ item other, ¬ lost item → ¬ lost other → key item = key other →
    needs item = needs other

namespace Worklist

/-- The keys that are done, the largest weight so far and the items that still wait. -/
structure Progress (Item Key : Type) where
  finished : Set Key
  bound : Nat
  waiting : Set Item

variable {Item Key : Type} (worklist : Worklist Item Key)

/-- An item with the key that is not lost is among the waiting items. -/
def Queued (waiting : Set Item) (key : Key) : Prop :=
  ∃ copy ∈ waiting, ¬ worklist.lost copy ∧ worklist.key copy = key

/-- A step may take in a new item. It keeps every item in the queue up to its key, or it finishes
one item whose need is met. -/
inductive Step (taken : Option Item) (before after : Progress Item Key) : Prop
  | keep (finished : after.finished = before.finished) (bound : after.bound = before.bound)
      (within : ∀ item ∈ after.waiting, item ∈ before.waiting ∨ taken = some item)
      (kept : ∀ item, item ∈ before.waiting ∨ taken = some item → ¬ worklist.lost item →
        worklist.Queued after.waiting (worklist.key item))
  | finish (item : Item) (offered : item ∈ before.waiting ∨ taken = some item)
      (viable : ¬ worklist.lost item)
      (met : ∀ key, worklist.needs item = some key → key ∈ before.finished)
      (finished : after.finished = insert (worklist.key item) before.finished)
      (grows : before.bound ≤ after.bound)
      (covers : ∀ weight, worklist.weighs (worklist.key item) weight → weight ≤ after.bound)
      (least : after.bound = before.bound ∨ worklist.weighs (worklist.key item) after.bound)
      (within : ∀ item ∈ after.waiting, item ∈ before.waiting)
      (kept : ∀ other, other ∈ before.waiting ∨ taken = some other → ¬ worklist.lost other →
        worklist.key other = worklist.key item ∨
          worklist.Queued after.waiting (worklist.key other))

/-- A run with the items that it takes in. -/
inductive Run (start : Progress Item Key) : List Item → Progress Item Key → Prop
  | start : Run start [] start
  | next {items : List Item} {before after : Progress Item Key} (taken : Option Item)
      (run : Run start items before) (step : worklist.Step taken before after) :
      Run start (items ++ taken.toList) after

/-- Nothing that waits can go on. -/
def AtRest (progress : Progress Item Key) : Prop :=
  ∀ item ∈ progress.waiting, ¬ worklist.lost item →
    ∃ key, worklist.needs item = some key ∧ key ∉ progress.finished

/-- The key is done, and its weights are below the bound. -/
structure Done (progress : Progress Item Key) (key : Key) : Prop where
  finished : key ∈ progress.finished
  covered : ∀ weight, worklist.weighs key weight → weight ≤ progress.bound

/-- The key is done, or an item with the key waits. -/
def Covered (progress : Progress Item Key) (key : Key) : Prop :=
  worklist.Done progress key ∨ worklist.Queued progress.waiting key

variable {worklist} {start before after first second : Progress Item Key}
  {items others : List Item} {taken : Option Item}

/-- A step keeps what is done. -/
theorem Step.done (step : worklist.Step taken before after) {key : Key}
    (done : worklist.Done before key) : worklist.Done after key := by
  cases step with
  | keep finished bound => exact ⟨finished ▸ done.finished, bound ▸ done.covered⟩
  | finish item offered viable met finished grows =>
      constructor
      · rw [finished]
        exact Set.mem_insert_of_mem _ done.finished
      · exact fun weight weighs => (done.covered weight weighs).trans grows

/-- A step covers what was covered and what it takes in. -/
theorem Step.covered (step : worklist.Step taken before after) {item : Item}
    (viable : ¬ worklist.lost item)
    (covered : worklist.Covered before (worklist.key item) ∨ taken = some item) :
    worklist.Covered after (worklist.key item) := by
  rcases covered with (done | ⟨copy, waits, viable', same⟩) | isTaken
  · exact .inl (step.done done)
  · rw [← same]
    cases step with
    | keep finished bound within kept => exact .inr (kept copy (.inl waits) viable')
    | finish item offered _ met finished grows covers least within kept =>
        rcases kept copy (.inl waits) viable' with isItem | queued
        · rw [isItem]
          exact .inl ⟨finished ▸ Set.mem_insert .., covers⟩
        · exact .inr queued
  · cases step with
    | keep finished bound within kept => exact .inr (kept item (.inr isTaken) viable)
    | finish other offered _ met finished grows covers least within kept =>
        rcases kept item (.inr isTaken) viable with isOther | queued
        · rw [isOther]
          exact .inl ⟨finished ▸ Set.mem_insert .., covers⟩
        · exact .inr queued

/-- A run covers what waited at its start and what it took in, unless it is lost. -/
theorem Run.covered (run : worklist.Run start items after) {item : Item}
    (viable : ¬ worklist.lost item) (offered : item ∈ start.waiting ∨ item ∈ items) :
    worklist.Covered after (worklist.key item) := by
  induction run with
  | start => exact .inr ⟨item, offered.resolve_right List.not_mem_nil, viable, rfl⟩
  | next taken run step ih =>
      apply step.covered viable
      rcases offered with waits | inside
      · exact .inl (ih (.inl waits))
      · rcases List.mem_append.mp inside with old | new
        · exact .inl (ih (.inr old))
        · exact .inr (Option.mem_toList.mp new)

/-- At rest, every item that the run was offered and whose need is met is done. -/
theorem Run.closed (run : worklist.Run start items after) (rest : worklist.AtRest after)
    {item : Item} (viable : ¬ worklist.lost item) (offered : item ∈ start.waiting ∨ item ∈ items)
    (met : ∀ key, worklist.needs item = some key → key ∈ after.finished) :
    worklist.Done after (worklist.key item) := by
  rcases run.covered viable offered with done | ⟨copy, waits, viable', same⟩
  · exact done
  · obtain ⟨key, needed, missing⟩ := rest copy waits viable'
    rw [worklist.same_needs copy item viable' viable same] at needed
    exact absurd (met key needed) missing

/-- A run finishes more and never lowers its bound. -/
theorem Run.grows (run : worklist.Run start items after) :
    start.finished ⊆ after.finished ∧ start.bound ≤ after.bound := by
  induction run with
  | start => exact ⟨Set.Subset.rfl, le_rfl⟩
  | next taken run step ih =>
      cases step with
      | keep finished bound =>
          rw [finished, bound]
          exact ih
      | finish item offered viable met finished grows =>
          rw [finished]
          exact ⟨ih.1.trans (Set.subset_insert ..), ih.2.trans grows⟩

/-- A run gets no further than one at rest that was offered the same items, up to lost ones. -/
theorem Run.within (run : worklist.Run start items first)
    (complete : worklist.Run start others second) (rest : worklist.AtRest second)
    (offered : ∀ item ∈ items, ¬ worklist.lost item → item ∈ others) :
    first.finished ⊆ second.finished ∧ first.bound ≤ second.bound ∧
      ∀ item ∈ first.waiting, item ∈ start.waiting ∨ item ∈ items := by
  induction run with
  | start => exact ⟨complete.grows.1, complete.grows.2, fun item => .inl⟩
  | next taken run step ih =>
      rename_i items before after
      obtain ⟨finishes, bounded, waits⟩ :=
        ih fun item inside => offered item (List.mem_append_left _ inside)
      have given {item : Item} (isOffered : item ∈ before.waiting ∨ taken = some item) :
          item ∈ start.waiting ∨ item ∈ items ++ taken.toList := by
        rcases isOffered with old | new
        · exact (waits item old).imp_right (List.mem_append_left _)
        · exact .inr (List.mem_append_right _ (Option.mem_toList.mpr new))
      cases step with
      | keep finished bound within kept =>
          rw [finished, bound]
          exact ⟨finishes, bounded, fun item inside => given (within item inside)⟩
      | finish item isOffered viable met finished grows covers least within kept =>
          have done := complete.closed rest viable
            ((given isOffered).imp_right fun inside => offered item inside viable)
            fun key needed => finishes (met key needed)
          refine ⟨?_, ?_, fun other inside => given (.inl (within other inside))⟩
          · rw [finished]
            exact Set.insert_subset done.finished finishes
          · rcases least with same | weighs
            · exact same ▸ bounded
            · exact done.covered _ weighs

/-- Two runs that end at rest after the same items, up to lost ones, end with the same keys and the
same bound. -/
theorem Run.confluent (run : worklist.Run start items first) (rest : worklist.AtRest first)
    (run' : worklist.Run start others second) (rest' : worklist.AtRest second)
    (same : ∀ item, ¬ worklist.lost item → (item ∈ items ↔ item ∈ others)) :
    first.finished = second.finished ∧ first.bound = second.bound := by
  obtain ⟨finishes, bounded, _⟩ := run.within run' rest' fun item inside viable =>
    (same item viable).mp inside
  obtain ⟨finishes', bounded', _⟩ := run'.within run rest fun item inside viable =>
    (same item viable).mpr inside
  exact ⟨finishes.antisymm finishes', bounded.antisymm bounded'⟩

end Worklist

end Verification
