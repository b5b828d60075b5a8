import Mathlib.Data.List.Sort
import Mathlib.Data.List.FinRange
import Mathlib.Data.List.Perm.Basic
import Mathlib.Data.Fintype.Basic
import Mathlib.Data.Finset.Card
import Mathlib.Algebra.Order.BigOperators.Group.List
import Mathlib.Algebra.Order.Ring.Rat
import Mathlib.Tactic.Linarith

namespace Verification

section Selecting

variable {Item Key : Type} [LinearOrder Key] {key : Item → Key} {items others : List Item}

/-- Items come in the order of their keys, and items with equal keys keep their order. -/
def sortBy (key : Item → Key) (items : List Item) : List Item :=
  items.insertionSort fun first second => key first ≤ key second

/-- The items with the smallest keys are selected, earlier items first among equal keys. -/
def select (key : Item → Key) (count : Nat) (items : List Item) : List Item :=
  (sortBy key items).take count

/-- The keys on both sides of the cut equal the key of the item. -/
def Straddles (key : Item → Key) (count : Nat) (items : List Item) (item : Item) : Prop :=
  items.countP (key · < key item) < count ∧ count < items.countP (key · ≤ key item)

instance {count : Nat} {item : Item} : Decidable (Straddles key count items item) :=
  inferInstanceAs (Decidable (_ ∧ _))

/-- To straddle the count does not depend on the order of the items. -/
theorem Straddles.perm {count : Nat} {item : Item} (straddles : Straddles key count items item)
    (same : others.Perm items) : Straddles key count others item := by
  simpa only [Straddles, same.countP_eq] using straddles

/-- To straddle the count depends on the key alone. -/
theorem Straddles.of_key_eq {count : Nat} {first second : Item}
    (straddles : Straddles key count items first) (equal : key first = key second) :
    Straddles key count items second := by
  simpa only [Straddles, equal] using straddles

/-- A fold that changes to a strictly greater key ends at an item with the greatest key. -/
theorem foldl_latest (key : Item → Key) (first : Item) (items : List Item) :
    items.foldl (fun best item => if key best < key item then item else best) first ∈
        first :: items ∧
      ∀ item ∈ first :: items, key item ≤
        key (items.foldl (fun best item => if key best < key item then item else best) first) := by
  induction items generalizing first with
  | nil => simp
  | cons second rest ih =>
      rw [List.foldl_cons]
      obtain ⟨inside, latest⟩ := ih (if key first < key second then second else first)
      have chosen := latest _ List.mem_cons_self
      simp only [List.mem_cons, forall_eq_or_imp] at inside latest ⊢
      split_ifs at inside latest chosen ⊢ with order
      · have earlier := order.le.trans chosen
        tauto
      · have earlier := (not_lt.mp order).trans chosen
        tauto

/-- Sorting permutes the items. -/
theorem sortBy_perm (key : Item → Key) (items : List Item) : (sortBy key items).Perm items :=
  List.perm_insertionSort _ items

@[simp] theorem length_sortBy : (sortBy key items).length = items.length :=
  (sortBy_perm key items).length_eq

@[simp] theorem mem_sortBy {item : Item} : item ∈ sortBy key items ↔ item ∈ items :=
  (sortBy_perm key items).mem_iff

/-- The sorted items ascend in their keys. -/
theorem pairwise_sortBy (key : Item → Key) (items : List Item) :
    (sortBy key items).Pairwise fun first second => key first ≤ key second := by
  have : Std.Total fun first second : Item => key first ≤ key second :=
    ⟨fun first second => le_total (key first) (key second)⟩
  have : IsTrans Item fun first second => key first ≤ key second :=
    ⟨fun _ _ _ => le_trans⟩
  exact List.pairwise_insertionSort _ items

/-- The first item is inserted into the others sorted. -/
theorem sortBy_cons (item : Item) :
    sortBy key (item :: items) =
      (sortBy key items).orderedInsert (fun first second => key first ≤ key second) item := rfl

/-- An item with a small key is inserted among the items with small keys. -/
theorem orderedInsert_append_left {item : Item} (lower : List Item) {upper : List Item}
    (small : ∀ other ∈ upper, key item ≤ key other) :
    (lower ++ upper).orderedInsert (fun first second => key first ≤ key second) item =
      lower.orderedInsert (fun first second => key first ≤ key second) item ++ upper := by
  induction lower with
  | nil =>
    cases upper with
    | nil => rfl
    | cons head rest => simp [small head]
  | cons head rest ih =>
    simp only [List.cons_append, List.orderedInsert_cons]
    split
    · rfl
    · rw [ih, List.cons_append]

/-- An item with a large key passes over the items with smaller keys. -/
theorem orderedInsert_append_right {item : Item} {lower : List Item} (upper : List Item)
    (large : ∀ other ∈ lower, key other < key item) :
    (lower ++ upper).orderedInsert (fun first second => key first ≤ key second) item =
      lower ++ upper.orderedInsert (fun first second => key first ≤ key second) item := by
  induction lower with
  | nil => rfl
  | cons head rest ih =>
    have passed : ¬ key item ≤ key head := not_le.mpr (large head List.mem_cons_self)
    have others := ih fun other member => large other (List.mem_cons_of_mem head member)
    simp only [List.cons_append, List.orderedInsert_cons, passed, if_false, others]

/-- A value splits the sorted items, and those that have it keep their order. -/
theorem sortBy_split (key : Item → Key) (items : List Item) (value : Key) :
    sortBy key items =
      sortBy key (items.filter (key · < value)) ++ items.filter (key · = value) ++
        sortBy key (items.filter (value < key ·)) := by
  induction items with
  | nil => rfl
  | cons item items ih =>
    have lower : ∀ other ∈ sortBy key (items.filter (key · < value)), key other < value := by
      simp
    have tied : ∀ other ∈ items.filter (key · = value), key other = value := by
      simp
    have upper : ∀ other ∈ sortBy key (items.filter (value < key ·)), value < key other := by
      simp
    rw [sortBy_cons, ih]
    rcases lt_trichotomy (key item) value with below | same | above
    · have larger : ∀ other ∈ items.filter (key · = value) ++
          sortBy key (items.filter (value < key ·)), key item ≤ key other := by
        intro other member
        rcases List.mem_append.mp member with member | member
        · exact below.le.trans (tied other member).ge
        · exact below.le.trans (upper other member).le
      rw [List.append_assoc, orderedInsert_append_left _ larger]
      simp [below, below.ne, below.not_gt, sortBy_cons]
    · have larger : ∀ other ∈ items.filter (key · = value) ++
          sortBy key (items.filter (value < key ·)), key item ≤ key other := by
        intro other member
        rcases List.mem_append.mp member with member | member
        · exact same.le.trans (tied other member).ge
        · exact same.le.trans (upper other member).le
      rw [List.append_assoc, orderedInsert_append_right _ (same ▸ lower)]
      have first := orderedInsert_append_left [] larger
      simp only [List.nil_append] at first
      simp [first, same]
    · have smaller : ∀ other ∈ sortBy key (items.filter (key · < value)) ++
          items.filter (key · = value), key other < key item := by
        intro other member
        rcases List.mem_append.mp member with member | member
        · exact (lower other member).trans above
        · exact (tied other member).trans_lt above
      rw [orderedInsert_append_right _ smaller]
      simp [above, above.ne', above.not_gt, sortBy_cons]

/-- The keys up to a value are the smaller and the equal ones. -/
theorem countP_le_key (key : Item → Key) (items : List Item) (value : Key) :
    items.countP (key · ≤ value) =
      items.countP (key · < value) + items.countP (key · = value) := by
  induction items with
  | nil => rfl
  | cons item items ih =>
    rcases lt_trichotomy (key item) value with below | same | above
    · simp [below, below.le, below.ne, ih]
      omega
    · simp [same, ih]
      omega
    · simp [above.not_gt, above.not_ge, above.ne', ih]

/-- Up to the items with one value, the smaller ones are selected and then the first of these. -/
theorem select_between {count : Nat} {value : Key}
    (lower : items.countP (key · < value) ≤ count) (upper : count ≤ items.countP (key · ≤ value)) :
    select key count items =
      sortBy key (items.filter (key · < value)) ++
        (items.filter (key · = value)).take (count - items.countP (key · < value)) := by
  have within : (sortBy key (items.filter (key · < value)) ++
      items.filter (key · = value)).length = items.countP (key · ≤ value) := by
    rw [countP_le_key]
    simp [List.countP_eq_length_filter]
  rw [select, sortBy_split key items value, List.take_append_of_le_length (within ▸ upper),
    List.take_append, length_sortBy, ← List.countP_eq_length_filter,
    List.take_of_length_le (by simpa [← List.countP_eq_length_filter] using lower)]

/-- The first item after the cut tells where the cut falls among the keys. -/
theorem exists_cut (key : Item → Key) {count : Nat} (cut : count < items.length) :
    ∃ item ∈ items, items.countP (key · < key item) ≤ count ∧
      count < items.countP (key · ≤ key item) := by
  have inside : count < (sortBy key items).length := by simpa using cut
  obtain ⟨before, item, after, sorted, size⟩ :
      ∃ before item after, sortBy key items = before ++ item :: after ∧ before.length = count :=
    ⟨_, _, _, by rw [← List.drop_eq_getElem_cons inside, List.take_append_drop],
      List.length_take_of_le inside.le⟩
  have ordered := pairwise_sortBy key items
  rw [sorted, List.pairwise_append, List.pairwise_cons] at ordered
  obtain ⟨_, ⟨later, _⟩, earlier⟩ := ordered
  refine ⟨item, mem_sortBy.mp (by rw [sorted]; simp), ?_, ?_⟩
  · have none_later : (item :: after).countP (key · < key item) = 0 := by
      simpa [List.countP_eq_zero] using later
    rw [← (sortBy_perm key items).countP_eq, sorted, List.countP_append, none_later, ← size]
    exact List.countP_le_length
  · have all_earlier : before.countP (key · ≤ key item) = before.length := by
      simpa [List.countP_eq_length] using fun other member =>
        earlier other member item List.mem_cons_self
    rw [← (sortBy_perm key items).countP_eq, sorted, List.countP_append, all_earlier, size]
    simp

/-- A selection ignores the order of the items when equal keys across its cut mean equal items. -/
theorem select_perm {count : Nat} (same : others.Perm items)
    (tied : ∀ first ∈ items, ∀ second ∈ items, key first = key second →
      Straddles key count items first → first = second) :
    (select key count others).Perm (select key count items) := by
  by_cases cut : count < items.length
  · obtain ⟨item, member, lower, upper⟩ := exists_cut key cut
    have lower' : others.countP (key · < key item) ≤ count := (same.countP_eq _).trans_le lower
    have upper' : count ≤ others.countP (key · ≤ key item) :=
      upper.le.trans_eq (same.countP_eq _).symm
    rw [select_between lower' upper', select_between lower upper.le, same.countP_eq]
    have smaller : (sortBy key (others.filter (key · < key item))).Perm
        (sortBy key (items.filter (key · < key item))) :=
      (sortBy_perm ..).trans ((same.filter _).trans (sortBy_perm ..).symm)
    apply smaller.append
    rcases lower.eq_or_lt with exact_cut | straddled
    · simp [exact_cut]
    · have repeated : ∀ other ∈ items.filter (key · = key item), other = item := by
        intro other found
        obtain ⟨found, equal⟩ := List.mem_filter.mp found
        exact (tied item member other found (of_decide_eq_true equal).symm
          ⟨straddled, upper⟩).symm
      have replicated := List.eq_replicate_of_mem repeated
      have unchanged := same.filter (key · = key item)
      rw [replicated, List.perm_replicate] at unchanged
      rw [unchanged, ← replicated]
  · have whole : select key count items = sortBy key items :=
      List.take_of_length_le (by simpa using cut)
    have whole' : select key count others = sortBy key others :=
      List.take_of_length_le (by simpa [same.length_eq] using cut)
    rw [whole, whole']
    exact (sortBy_perm key others).trans (same.trans (sortBy_perm key items).symm)

/-- The first of the items that share the key across the cut is selected, and the last is not. -/
theorem select_leading {count : Nat} {item last : Item} {rest : List Item}
    (equal : key item = key last) (straddles : Straddles key count (item :: rest ++ [last]) item) :
    select key count (item :: rest ++ [last]) =
      sortBy key (rest.filter (key · < key item)) ++
        item :: (rest.filter (key · = key item)).take
          (count - rest.countP (key · < key item) - 1) := by
  obtain ⟨lower, upper⟩ := straddles
  rw [select_between lower.le upper.le]
  simp only [List.cons_append, List.countP_cons, List.countP_append, List.countP_nil,
    countP_le_key, ← equal, lt_irrefl, le_refl, decide_false, decide_true, Bool.false_eq_true, if_false,
    if_true, List.filter_cons, List.filter_append, List.filter_nil, List.append_nil] at lower upper ⊢
  have positive : count - (rest.countP (key · < key item) + 0 + 0) =
      count - rest.countP (key · < key item) - 1 + 1 := by omega
  have within : count - rest.countP (key · < key item) - 1 ≤
      (rest.filter (key · = key item)).length := by
    rw [← List.countP_eq_length_filter]
    omega
  rw [positive, List.take_succ_cons, List.take_append_of_le_length within]

/-- Two items that share the key across the cut are exchanged by an order of the items. -/
theorem select_exchange {count : Nat} {first second : Item} (member : first ∈ items)
    (member' : second ∈ items) (distinct : first ≠ second) (equal : key first = key second)
    (straddles : Straddles key count items first) :
    ∃ one other common, one.Perm items ∧ other.Perm items ∧
      (select key count one).Perm (first :: common) ∧
      (select key count other).Perm (second :: common) := by
  classical
  obtain ⟨rest, split⟩ : ∃ rest, items.Perm (first :: second :: rest) := by
    have remaining : second ∈ items.erase first :=
      (List.mem_erase_of_ne distinct.symm).mpr member'
    exact ⟨_, (List.perm_cons_erase member).trans ((List.perm_cons_erase remaining).cons first)⟩
  have one : (first :: rest ++ [second]).Perm items :=
    ((List.perm_append_singleton second rest).cons first).trans split.symm
  have other : (second :: rest ++ [first]).Perm items :=
    ((List.perm_append_singleton first rest).cons second).trans
      ((List.Perm.swap first second rest).trans split.symm)
  have taken := select_leading equal (straddles.perm one)
  have taken' := select_leading equal.symm ((straddles.of_key_eq equal).perm other)
  rw [← equal] at taken'
  exact ⟨_, _, _, one, other, taken ▸ List.perm_middle, taken' ▸ List.perm_middle⟩

end Selecting

section Cutting

variable {Item Key : Type} [LinearOrder Key] {key : Item → Key} {items : List Item}

/-- The items of a group that pass a test are counted. -/
theorem card_le_countP {group : Finset (Fin items.length)} {test : Item → Bool}
    (passes : ∀ index ∈ group, test items[index]) : group.card ≤ items.countP test := by
  have counted : items.countP test =
      ((List.finRange items.length).filter fun index => test items[index]).length := by
    conv_lhs => rw [← List.map_getElem_finRange items]
    rw [List.countP_map, List.countP_eq_length_filter]
    rfl
  rw [counted, ← Finset.length_toList]
  apply (List.Nodup.subperm group.nodup_toList _).length_le
  intro index member
  simpa using passes index (Finset.mem_toList.mp member)

/-- What sorts strictly before an item on this side of the cut is on this side. -/
theorem mem_take_of_lt {count : Nat} {first second : Item}
    (sorted : items.Pairwise fun first second => key first ≤ key second)
    (taken : second ∈ items.take count) (member : first ∈ items) (before : key first < key second) :
    first ∈ items.take count := by
  rw [← List.take_append_drop count items, List.mem_append] at member
  rw [← List.take_append_drop count items, List.pairwise_append] at sorted
  rcases member with early | late
  · exact early
  · exact absurd before (not_lt.mpr (sorted.2.2 second taken first late))

/-- An item with enough others strictly before it is beyond the cut. -/
theorem notMem_take_of_lt {count : Nat} {last : Item} (group : Finset Item)
    (sorted : items.Pairwise fun first second => key first ≤ key second)
    (members : ∀ item ∈ group, item ∈ items) (before : ∀ item ∈ group, key item < key last)
    (size : count ≤ group.card) : last ∉ items.take count := by
  classical
  intro taken
  have outside : last ∉ group := fun member => lt_irrefl _ (before last member)
  have within : insert last group ⊆ (items.take count).toFinset := by
    intro item member
    rw [List.mem_toFinset]
    rcases Finset.mem_insert.mp member with rfl | member
    · exact taken
    · exact mem_take_of_lt sorted taken (members item member) (before item member)
  have larger := (Finset.card_le_card within).trans (List.toFinset_card_le _)
  rw [Finset.card_insert_of_notMem outside] at larger
  have limited := List.length_take_le count items
  omega

end Cutting

section Slices

variable {Key : Type} [LinearOrder Key] {values kept rest : List Key}

/-- Permutations sort to the same list. -/
theorem insertionSort_eq_of_perm {others : List Key} (same : others.Perm values) :
    others.insertionSort (· ≤ ·) = values.insertionSort (· ≤ ·) := by
  apply List.Perm.eq_of_pairwise' (List.pairwise_insertionSort (· ≤ ·) others)
    (List.pairwise_insertionSort (· ≤ ·) values)
  exact (List.perm_insertionSort _ others).trans
    (same.trans (List.perm_insertionSort _ values).symm)

/-- Of the values, more than those before the slice are at most a value of the slice, and those
behind the slice and the value itself are at least as great. -/
theorem slice_ranks {low high : Nat} {value : Key}
    (taken : value ∈ ((values.insertionSort (· ≤ ·)).take high).drop low) :
    low < values.countP (· ≤ value) ∧ values.length < values.countP (value ≤ ·) + high := by
  have sorted := List.pairwise_insertionSort (· ≤ ·) values
  rw [← (List.perm_insertionSort (· ≤ ·) values).countP_eq,
    ← (List.perm_insertionSort (· ≤ ·) values).countP_eq,
    ← (List.perm_insertionSort (· ≤ ·) values).length_eq]
  generalize values.insertionSort (· ≤ ·) = ordered at *
  obtain ⟨offset, bound, isValue⟩ := List.mem_iff_getElem.mp taken
  simp only [List.length_drop, List.length_take] at bound
  have inside : low + offset < ordered.length := by omega
  have split := List.take_append_drop (low + offset) ordered
  rw [List.drop_eq_getElem_cons inside] at split
  have same : ordered[low + offset] = value := by simpa using isValue
  rw [same] at split
  have size : (ordered.take (low + offset)).length = low + offset := by
    simp only [List.length_take]
    omega
  have length := congrArg List.length split
  generalize ordered.take (low + offset) = before at *
  generalize ordered.drop (low + offset + 1) = behind at *
  subst split
  obtain ⟨-, sorted, below⟩ := List.pairwise_append.mp sorted
  have smaller : before.countP (· ≤ value) = before.length :=
    List.countP_eq_length.mpr fun other member => by
      simpa using below other member value List.mem_cons_self
  have greater : behind.countP (value ≤ ·) = behind.length :=
    List.countP_eq_length.mpr fun other member => by
      simpa using (List.pairwise_cons.mp sorted).1 other member
  simp only [List.countP_append, List.countP_cons, List.length_append, List.length_cons, le_refl,
    decide_true, if_true, smaller, greater] at *
  omega

/-- A slice that leaves out as many values on each side as are not kept lies between kept ones. -/
theorem slice_between {low high : Nat} {value : Key} (split : values.Perm (kept ++ rest))
    (below : rest.length ≤ low) (above : high + rest.length ≤ values.length)
    (taken : value ∈ ((values.insertionSort (· ≤ ·)).take high).drop low) :
    (∃ lower ∈ kept, lower ≤ value) ∧ ∃ upper ∈ kept, value ≤ upper := by
  obtain ⟨smaller, greater⟩ := slice_ranks taken
  rw [split.countP_eq, List.countP_append] at smaller greater
  have fewSmaller := @List.countP_le_length _ (· ≤ value) rest
  have fewGreater := @List.countP_le_length _ (value ≤ ·) rest
  constructor
  · have some : 0 < kept.countP (· ≤ value) := by omega
    simpa using List.countP_pos_iff.mp some
  · have some : 0 < kept.countP (value ≤ ·) := by omega
    simpa using List.countP_pos_iff.mp some

/-- The mean of some values lies between two of them. -/
theorem mean_between {values : List ℚ} (some_value : values ≠ []) :
    (∃ value ∈ values, value ≤ values.sum / values.length) ∧
      ∃ value ∈ values, values.sum / values.length ≤ value := by
  have positive : (0 : ℚ) < values.length := by
    exact_mod_cast List.length_pos_iff.mpr some_value
  have total : (values.map fun _ => values.sum / values.length).sum = values.sum := by
    rw [List.map_const', List.sum_replicate, nsmul_eq_mul]
    exact mul_div_cancel₀ _ positive.ne'
  constructor
  · apply List.exists_le_of_sum_le some_value id
    rw [total, List.map_id]
  · apply List.exists_le_of_sum_le some_value _ id
    rw [total, List.map_id]

end Slices

section Smallest

variable {values : List ℚ} {bound : ℚ} {count : Nat}

/-- The sum of the smallest values. -/
def sumSmallest (count : Nat) (values : List ℚ) : ℚ :=
  ((values.insertionSort (· ≤ ·)).take count).sum

/-- The sum of the smallest values does not depend on their order. -/
theorem sumSmallest_perm {others : List ℚ} (same : others.Perm values) :
    sumSmallest count others = sumSmallest count values := by
  rw [sumSmallest, sumSmallest, insertionSort_eq_of_perm same]

/-- As many values of a sorted list are small as come first. -/
theorem le_of_mem_take {ordered : List ℚ} (sorted : ordered.Pairwise (· ≤ ·))
    (enough : count ≤ ordered.countP (· ≤ bound)) : ∀ value ∈ ordered.take count, value ≤ bound := by
  induction ordered generalizing count with
  | nil => simp
  | cons head rest ih =>
    obtain ⟨least, sorted⟩ := List.pairwise_cons.mp sorted
    cases count with
    | zero => simp
    | succ count =>
      have head_le : head ≤ bound := by
        by_contra large
        have none_small : (head :: rest).countP (· ≤ bound) = 0 := by
          simpa [List.countP_eq_zero, not_le.mp large] using fun value member =>
            (not_le.mp large).trans_le (least value member)
        omega
      simp only [List.countP_cons, head_le, decide_true, if_true] at enough
      simpa [head_le] using ih sorted (by omega)

/-- Enough small values besides a zero bound the sum of the smallest. -/
theorem sumSmallest_le (zero : 0 ∈ values) (enough : count < values.countP (· ≤ bound)) :
    sumSmallest (count + 1) values ≤ count * bound := by
  rw [sumSmallest]
  have sorted := List.pairwise_insertionSort (· ≤ ·) values
  rw [← (List.perm_insertionSort (· ≤ ·) values).countP_eq] at enough
  rw [← List.mem_insertionSort (· ≤ ·)] at zero
  generalize values.insertionSort (· ≤ ·) = ordered at *
  cases ordered with
  | nil => cases zero
  | cons head rest =>
    obtain ⟨least, sorted⟩ := List.pairwise_cons.mp sorted
    have head_le : head ≤ 0 := by
      rcases List.mem_cons.mp zero with same | later
      · exact same.ge
      · exact least 0 later
    have small : ∀ value ∈ rest.take count, value ≤ bound := by
      intro value member
      apply le_of_mem_take (List.pairwise_cons.mpr ⟨least, sorted⟩) enough value
      exact List.mem_cons_of_mem head member
    have size : (rest.take count).length = count := by
      have limited := enough.trans_le List.countP_le_length
      simp only [List.length_cons] at limited
      simp
      omega
    have rest_le := List.sum_le_card_nsmul _ bound small
    rw [size, nsmul_eq_mul] at rest_le
    simp only [List.take_succ_cons, List.sum_cons]
    linarith

/-- With too few small values the smallest reach beyond the bound. -/
theorem lt_sumSmallest (nonneg : ∀ value ∈ values, 0 ≤ value) (size : count ≤ values.length)
    (few : values.countP (· ≤ bound) < count) : bound < sumSmallest count values := by
  obtain ⟨value, taken, large⟩ : ∃ value ∈ (values.insertionSort (· ≤ ·)).take count,
      bound < value := by
    by_contra small
    push Not at small
    have all_small : ((values.insertionSort (· ≤ ·)).take count).countP (· ≤ bound) = count := by
      rw [List.countP_eq_length.mpr (by simpa using small)]
      simpa using size
    have counted := (List.take_sublist count (values.insertionSort (· ≤ ·))).countP_le
      (p := (· ≤ bound))
    rw [all_small, (List.perm_insertionSort (· ≤ ·) values).countP_eq] at counted
    omega
  have within : value ≤ ((values.insertionSort (· ≤ ·)).take count).sum := by
    apply List.single_le_sum _ value taken
    intro other member
    exact nonneg other ((List.mem_insertionSort (· ≤ ·)).mp (List.mem_of_mem_take member))
  exact large.trans_le within

end Smallest

end Verification
