import Mathlib.Data.List.Basic
import Mathlib.Logic.Relation

namespace Verification

section

variable {Entry : Type} {below : Entry → Entry → Prop}

/-- An ordered log is a prefix of another one that has its entries and adds none below them. -/
theorem prefix_of_closed (asymmetric : ∀ earlier later, below earlier later → ¬ below later earlier)
    {first second : List Entry} (ordered : first.Pairwise below) (ordered' : second.Pairwise below)
    (inside : ∀ entry ∈ first, entry ∈ second)
    (closed : ∀ earlier ∈ second, ∀ later ∈ first, below earlier later → earlier ∈ first) :
    first <+: second := by
  induction first generalizing second with
  | nil => exact List.nil_prefix
  | cons entry rest ih =>
      cases second with
      | nil => exact absurd (inside entry List.mem_cons_self) List.not_mem_nil
      | cons other others =>
          rw [List.pairwise_cons] at ordered ordered'
          have same : entry = other := by
            by_contra different
            have behind := (List.mem_cons.mp (inside entry List.mem_cons_self)).resolve_left different
            have lower := ordered'.1 entry behind
            have before := closed other List.mem_cons_self entry List.mem_cons_self lower
            have upper := ordered.1 other ((List.mem_cons.mp before).resolve_left (Ne.symm different))
            exact asymmetric _ _ lower upper
          subst same
          apply (List.prefix_cons_inj entry).mpr
          apply ih ordered.2 ordered'.2
          · intro later isLater
            have above := ordered.1 later isLater
            apply (List.mem_cons.mp (inside later (List.mem_cons_of_mem _ isLater))).resolve_left
            rintro rfl
            exact asymmetric _ _ above above
          · intro earlier isEarlier later isLater lower
            have above := ordered'.1 earlier isEarlier
            apply (List.mem_cons.mp (closed earlier (List.mem_cons_of_mem _ isEarlier) later
              (List.mem_cons_of_mem _ isLater) lower)).resolve_left
            rintro rfl
            exact asymmetric _ _ above above

/-- The entries above which a third one lies are in line where every entry has one predecessor. -/
theorem line_of_unique {link : Entry → Entry → Prop}
    (unique : ∀ first second entry, link first entry → link second entry → first = second)
    {first second last : Entry} (descends : Relation.ReflTransGen link first last)
    (descends' : Relation.ReflTransGen link second last) :
    Relation.ReflTransGen link first second ∨ Relation.ReflTransGen link second first := by
  have functional : Relator.RightUnique (Function.swap link) := fun entry first second =>
    unique first second entry
  have backward := Relation.reflTransGen_swap.mpr descends
  have backward' := Relation.reflTransGen_swap.mpr descends'
  rcases backward.total_of_right_unique functional backward' with further | further
  · exact .inr (Relation.reflTransGen_swap.mp further)
  · exact .inl (Relation.reflTransGen_swap.mp further)

end

end Verification
