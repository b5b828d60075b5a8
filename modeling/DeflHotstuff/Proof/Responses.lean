import DeflHotstuff.Construction.Committer

namespace DeflHotstuff

open Verification

/-- The request of the call got an acknowledgement. -/
def CallPhase.acknowledged : CallPhase → Bool
  | .transmitting => false
  | .returned none => false
  | _ => true

namespace Committer

variable {committer after : Committer} {event : CommitterEvent}

/-- The call is at its queue with the response in it, or it has returned the response. -/
def Got (call : Call) (response : Response) : Prop :=
  call.phase = .waiting (some response) ∨ call.phase = .returned (some response)

/-- No response failed, and every acknowledged call got each response to its request. -/
def Serves (committer : Committer) : Prop :=
  committer.failed = [] ∧ ∀ requestUuid call, committer.calls requestUuid = some call →
    call.phase.acknowledged = true → ∀ response ∈ committer.delivered,
      response.requestUuid = requestUuid → Got call response

/-- A response arrives while its request is in the response map. -/
def registered (committer : Committer) : CommitterEvent → Bool
  | .active response => response.requestUuid ∈ committer.responseMap
  | _ => true

/-- The map holds the calls at an empty queue, and without a failure all responses have arrived at
their calls. -/
structure Matched (committer : Committer) : Prop where
  reads : ∀ requestUuid, committer.reading = some requestUuid →
    ∃ call, committer.calls requestUuid = some call ∧ call.phase = .transmitting
  distinct : committer.responseMap.Nodup
  registers : ∀ requestUuid, requestUuid ∈ committer.responseMap ↔
    ∃ call, committer.calls requestUuid = some call ∧ call.phase = .waiting none
  arrived : committer.failed = [] → ∀ response ∈ committer.delivered,
    ∃ call, committer.calls response.requestUuid = some call ∧ Got call response

/-- One call moves on, and everything else is as before. -/
theorem Matched.moves (matched : committer.Matched) {requestUuid : String} {call : Call}
    (calls : after.calls = Function.update committer.calls requestUuid (some call))
    (reads : ∀ other, after.reading = some other →
      (other = requestUuid ∧ call.phase = .transmitting) ∨
        (other ≠ requestUuid ∧ committer.reading = some other))
    (distinct : after.responseMap.Nodup)
    (registers : ∀ other, other ∈ after.responseMap ↔
      (other = requestUuid ∧ call.phase = .waiting none) ∨
        (other ≠ requestUuid ∧ other ∈ committer.responseMap))
    (arrived : after.failed = [] → committer.failed = [] ∧ ∀ response ∈ after.delivered,
      (response.requestUuid = requestUuid ∧ Got call response) ∨
        (response.requestUuid ≠ requestUuid ∧ response ∈ committer.delivered)) :
    after.Matched := by
  constructor
  · intro other reading
    rw [calls]
    rcases reads other reading with ⟨rfl, transmitting⟩ | ⟨different, old⟩
    · simp [transmitting]
    · rw [Function.update_of_ne different]
      exact matched.reads other old
  · exact distinct
  · intro other
    rw [registers, calls]
    by_cases same : other = requestUuid
    · simp [same]
    · simp [same, matched.registers]
  · intro unfailed response inside
    obtain ⟨before, places⟩ := arrived unfailed
    rw [calls]
    rcases places response inside with ⟨same, got⟩ | ⟨different, old⟩
    · simp [same, got]
    · rw [Function.update_of_ne different]
      exact matched.arrived before response old

/-- A call outside the map that moves on elsewhere leaves the map as it is. -/
theorem Matched.outside (matched : committer.Matched) {requestUuid : String} {call : Call}
    (before : ∀ old, committer.calls requestUuid = some old → old.phase ≠ .waiting none)
    (later : call.phase ≠ .waiting none) (other : String) :
    other ∈ committer.responseMap ↔ (other = requestUuid ∧ call.phase = .waiting none) ∨
      (other ≠ requestUuid ∧ other ∈ committer.responseMap) := by
  have absent : requestUuid ∉ committer.responseMap := by
    intro inside
    obtain ⟨old, found, waits⟩ := (matched.registers requestUuid).mp inside
    exact before old found waits
  grind

/-- Every response so far is for another call when this one got none. -/
theorem Matched.elsewhere (matched : committer.Matched) {requestUuid : String}
    (before : ∀ old, committer.calls requestUuid = some old → ∀ response, ¬ Got old response)
    (unfailed : committer.failed = []) {response : Response}
    (inside : response ∈ committer.delivered) : response.requestUuid ≠ requestUuid := by
  rintro rfl
  obtain ⟨old, found, got⟩ := matched.arrived unfailed response inside
  exact before old found response got

/-- The responses so far stay where they are when a call without one moves on. -/
theorem Matched.arrived_elsewhere (matched : committer.Matched) {requestUuid : String} {call : Call}
    (before : ∀ old, committer.calls requestUuid = some old → ∀ response, ¬ Got old response)
    (unfailed : committer.failed = []) :
    committer.failed = [] ∧ ∀ response ∈ committer.delivered,
      (response.requestUuid = requestUuid ∧ Got call response) ∨
        (response.requestUuid ≠ requestUuid ∧ response ∈ committer.delivered) := by
  refine ⟨unfailed, fun response inside => ?_⟩
  exact .inr ⟨matched.elsewhere before unfailed inside, inside⟩

/-- A call that does not transmit is not the one that reads. -/
theorem Matched.reads_other (matched : committer.Matched) {requestUuid other : String}
    {old call : Call} (found : committer.calls requestUuid = some old)
    (idle : old.phase ≠ .transmitting) (reading : committer.reading = some other) :
    (other = requestUuid ∧ call.phase = .transmitting) ∨
      (other ≠ requestUuid ∧ committer.reading = some other) := by
  right
  refine ⟨?_, reading⟩
  rintro rfl
  obtain ⟨reader, isReader, transmitting⟩ := matched.reads other reading
  rw [found] at isReader
  cases isReader
  exact idle transmitting

/-- A response keeps the calls matched. -/
theorem Matched.handleActive (matched : committer.Matched) (response : Response) :
    (committer.handleActive response).Matched := by
  unfold Committer.handleActive
  dsimp only
  split
  · rename_i inside
    obtain ⟨call, found, waits⟩ := (matched.registers response.requestUuid).mp inside
    rw [found]
    apply matched.moves rfl
    · intro other reading
      exact matched.reads_other found (by simp [waits]) reading
    · exact matched.distinct.erase _
    · intro other
      simp [setPhase, matched.distinct.mem_erase_iff]
    · intro unfailed
      refine ⟨unfailed, fun other delivered => ?_⟩
      rcases List.mem_append.mp delivered with old | new
      · right
        refine ⟨matched.elsewhere ?_ unfailed old, old⟩
        intro before isBefore earlier got
        rw [found] at isBefore
        cases isBefore
        simp [Got, waits] at got
      · rw [List.mem_singleton.mp new]
        exact .inl ⟨rfl, .inl rfl⟩
  · exact ⟨matched.reads, matched.distinct, matched.registers, by simp⟩

/-- A step keeps the calls matched. -/
theorem Matched.step (matched : committer.Matched) (steps : committer.step event = some after) :
    after.Matched := by
  cases event with
  | call requestUuid method =>
      simp only [Committer.step] at steps
      split at steps
      · rename_i fresh idle
        cases steps
        apply matched.moves rfl
        · rintro other ⟨⟩
          exact .inl ⟨rfl, rfl⟩
        · exact matched.distinct
        · apply matched.outside
          · simp [fresh]
          · simp
        · apply matched.arrived_elsewhere
          simp [fresh]
      · cases steps
  | answer ack =>
      simp only [Committer.step] at steps
      split at steps
      · cases steps
      · rename_i requestUuid reading
        obtain ⟨call, found, rfl⟩ := Option.map_eq_some_iff.mp steps
        obtain ⟨reader, isReader, transmitting⟩ := matched.reads requestUuid reading
        rw [found] at isReader
        cases isReader
        apply matched.moves rfl
        · simp
        · exact matched.distinct
        · apply matched.outside
          · simp [found, transmitting]
          · cases ack <;> simp
        · apply matched.arrived_elsewhere
          simp [found, Got, transmitting]
  | collect requestUuid =>
      simp only [Committer.step] at steps
      split at steps
      · rename_i method found
        cases steps
        have absent : requestUuid ∉ committer.responseMap := by
          simp [matched.registers, found]
        apply matched.moves rfl
        · intro other reading
          exact matched.reads_other found (by simp) reading
        · exact List.nodup_cons.mpr ⟨absent, matched.distinct⟩
        · intro other
          by_cases same : other = requestUuid <;> simp [same]
        · apply matched.arrived_elsewhere
          simp [found, Got]
      · cases steps
  | active response =>
      cases steps
      exact matched.handleActive response
  | resume requestUuid =>
      simp only [Committer.step] at steps
      split at steps
      · rename_i method response found
        cases steps
        apply matched.moves rfl
        · intro other reading
          exact matched.reads_other found (by simp) reading
        · exact matched.distinct
        · apply matched.outside
          · simp [found]
          · simp
        · intro unfailed
          refine ⟨unfailed, fun other inside => ?_⟩
          by_cases same : other.requestUuid = requestUuid
          · obtain ⟨before, isBefore, got⟩ := matched.arrived unfailed other inside
            rw [same, found] at isBefore
            cases isBefore
            left
            refine ⟨same, .inr ?_⟩
            simpa [Got] using got
          · exact .inr ⟨same, inside⟩
      · cases steps

end Committer

namespace Plain

/-- A call that is acknowledged and registered before its response arrives. -/
def ordered : List CommitterEvent :=
  [.call "a" .updWeights, .answer true, .collect "a", .active ⟨0, "r", "a"⟩, .resume "a"]

end Plain

end DeflHotstuff
