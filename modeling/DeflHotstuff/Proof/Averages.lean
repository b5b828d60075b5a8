import DeflHotstuff.Construction.Averages
import DeflHotstuff.Proof.Ties

namespace DeflHotstuff

open Verification

namespace NDArray

variable {arrays others : List NDArray} {shape : List Nat}

/-- Arrays in another order have a permuted column. -/
theorem column_perm (same : others.Perm arrays) (position : Nat) :
    (column others position).Perm (column arrays position) := same.map _

/-- Beyond the shape of the arrays all entries are zero. -/
theorem column_outside (shaped : ∀ array ∈ arrays, array.shape = shape) {position : Nat}
    (outside : shape.prod ≤ position) :
    column arrays position = List.replicate arrays.length 0 := by
  rw [column, List.map_congr_left, List.map_const']
  intro array member
  have size : array.data.length ≤ position := by
    rw [array.sized, shaped array member]
    exact outside
  rw [List.getD, List.getElem?_eq_none size, Option.getD_none]

/-- Sorting along the first axis keeps the number of arrays. -/
theorem length_sort (arrays : List NDArray) : (sort arrays).length = arrays.length := by
  cases arrays <;> simp [sort]

/-- Sorting along the first axis keeps the shapes. -/
theorem sort_shaped (shaped : ∀ array ∈ arrays, array.shape = shape) :
    ∀ array ∈ sort arrays, array.shape = shape := by
  cases arrays with
  | nil => simp [sort]
  | cons first rest =>
      intro array member
      obtain ⟨row, _, rfl⟩ := List.mem_map.mp member
      exact shaped first List.mem_cons_self

/-- The sorted arrays have the sorted columns. -/
theorem column_sort (shaped : ∀ array ∈ arrays, array.shape = shape) (position : Nat) :
    column (sort arrays) position = (column arrays position).insertionSort (· ≤ ·) := by
  by_cases outside : shape.prod ≤ position
  · rw [column_outside (sort_shaped shaped) outside, column_outside shaped outside, length_sort]
    exact (List.Pairwise.insertionSort_eq (List.pairwise_replicate.mpr (.inr le_rfl))).symm
  · cases arrays with
    | nil => rfl
    | cons first rest =>
        have bound : position < first.data.length := by
          rw [first.sized, shaped first List.mem_cons_self]
          omega
        have size : ((column (first :: rest) position).insertionSort (· ≤ ·)).length =
            (first :: rest).length := by
          rw [List.length_insertionSort, column, List.length_map]
        have entries : column (sort (first :: rest)) position =
            (List.range (first :: rest).length).map
              (((column (first :: rest) position).insertionSort (· ≤ ·)).getD · 0) := by
          rw [column, sort, List.map_map]
          apply List.map_congr_left
          intro row _
          simp only [Function.comp_apply]
          rw [List.getD, List.getElem?_map, List.getElem?_range bound]
          rfl
        rw [entries, ← size, map_getD_range]

/-- Arrays of one shape with the same columns are the same. -/
theorem eq_of_column (shaped : ∀ array ∈ arrays, array.shape = shape)
    (shaped' : ∀ array ∈ others, array.shape = shape)
    (same : ∀ position, column others position = column arrays position) : others = arrays := by
  have size : others.length = arrays.length := by
    simpa [column] using congrArg List.length (same 0)
  apply List.ext_getElem size
  intro row bound bound'
  apply eq_of_getD
  · exact (shaped' _ (List.getElem_mem bound)).trans (shaped _ (List.getElem_mem bound')).symm
  · intro position
    have entry := congrArg (·[row]?) (same position)
    simpa [column, List.getElem?_eq_getElem bound, List.getElem?_eq_getElem bound'] using entry

/-- The order of the arrays does not matter once they are sorted. -/
theorem sort_perm (shaped : ∀ array ∈ arrays, array.shape = shape) (same : others.Perm arrays) :
    sort others = sort arrays := by
  have shaped' : ∀ array ∈ others, array.shape = shape := fun array member =>
    shaped array (same.mem_iff.mp member)
  apply eq_of_column (sort_shaped shaped) (sort_shaped shaped')
  intro position
  rw [column_sort shaped, column_sort shaped', insertionSort_eq_of_perm (column_perm same position)]

/-- The order of the arrays does not matter to their mean. -/
theorem mean_perm (shaped : ∀ array ∈ arrays, array.shape = shape) (same : others.Perm arrays) :
    mean others = mean arrays := by
  by_cases empty : arrays = []
  · rw [empty] at same ⊢
    rw [same.eq_nil]
  · have shaped' : ∀ array ∈ others, array.shape = shape := fun array member =>
      shaped array (same.mem_iff.mp member)
    have some_other : others ≠ [] := fun none => empty (none ▸ same).nil_eq.symm
    obtain ⟨result, found, isShape, entries⟩ := mean_eq_some empty shape shaped
    obtain ⟨result', found', isShape', entries'⟩ := mean_eq_some some_other shape shaped'
    rw [found, found']
    congr 1
    apply eq_of_getD (isShape'.trans isShape.symm)
    intro position
    rw [entries, entries', same.length_eq, (same.map _).sum_eq]

/-- A reduction keeps the shape of the arrays and pays no attention to their order. -/
structure Reduces (reduce : List NDArray → Option NDArray) : Prop where
  shape : ∀ shape arrays result, (∀ array ∈ arrays, array.shape = shape) →
    reduce arrays = some result → result.shape = shape
  perm : ∀ shape arrays others, (∀ array ∈ arrays, array.shape = shape) → others.Perm arrays →
    reduce others = reduce arrays

/-- The mean does not depend on the order of the arrays and keeps their shape. -/
theorem mean_reduces : Reduces mean where
  shape shape arrays result shaped found := by
    cases arrays with
    | nil => cases found
    | cons first rest =>
        cases found
        exact shaped first List.mem_cons_self
  perm _ _ _ := mean_perm

/-- The mean of some of the sorted arrays is a reduction. -/
theorem mean_sort_reduces (pick : Nat → List NDArray → List NDArray)
    (picks : ∀ count arrays, pick count arrays ⊆ arrays) :
    Reduces fun arrays => mean (pick arrays.length (sort arrays)) where
  shape shape arrays result shaped found := by
    refine mean_reduces.shape shape _ result ?_ found
    exact fun array member => sort_shaped shaped array (picks _ _ member)
  perm shape arrays others shaped same := by
    rw [sort_perm shaped same, same.length_eq]

/-- The median does not depend on the order of the arrays and keeps their shape. -/
theorem median_reduces : Reduces median :=
  mean_sort_reduces (fun count arrays => (arrays.take (count / 2 + 1)).drop
    (if count % 2 = 0 then count / 2 - 1 else count / 2)) fun _ _ =>
      List.Subset.trans (List.drop_subset _ _) (List.take_subset _ _)

end NDArray

/-- A slice takes only entries of the list. -/
theorem slice_subset {Item : Type} (start stop : Int) (items : List Item) :
    slice start stop items ⊆ items :=
  List.Subset.trans (List.drop_subset _ _) (List.take_subset _ _)

section Layers

variable {Item Result : Type} {clients others : List ClientWeight} {shapes : List (List Nat)}
  {reduce : List NDArray → Option NDArray}

/-- A call that succeeds on a list has its results in order. -/
theorem forall₂_of_mapM {items : List Item} {results : List Result} {call : Item → Option Result}
    (found : items.mapM call = some results) :
    List.Forall₂ (fun item result => call item = some result) items results := by
  induction items generalizing results with
  | nil =>
      cases found
      exact .nil
  | cons item rest ih =>
      rw [List.mapM_cons] at found
      obtain ⟨result, called, found⟩ := Option.bind_eq_some_iff.mp found
      obtain ⟨later, calls, same⟩ := Option.bind_eq_some_iff.mp found
      cases same
      exact .cons called (ih calls)

/-- One layer of clients with the same layers stacks. -/
theorem EqualShapes.stack (shaped : EqualShapes shapes clients) {layer : Nat}
    (bound : layer < shapes.length) (some_client : clients ≠ []) :
    NDArray.stack (clients.map (·.getD layer default)) =
      some (clients.map (·.getD layer default)) := by
  apply stackBy_eq_some (by simpa using some_client) shapes[layer]
  intro array member
  obtain ⟨client, found, rfl⟩ := List.mem_map.mp member
  exact shaped.shape_getD found bound

/-- The arrays of one layer have one shape. -/
theorem EqualShapes.layer (shaped : EqualShapes shapes clients) {layer : Nat}
    (bound : layer < shapes.length) :
    ∀ array ∈ clients.map (·.getD layer default), array.shape = shapes[layer] := by
  intro array member
  obtain ⟨client, found, rfl⟩ := List.mem_map.mp member
  exact shaped.shape_getD found bound

/-- A reduction of all layers does not depend on the order of the clients. -/
theorem reduceLayers_perm (reduces : NDArray.Reduces reduce) (shaped : EqualShapes shapes clients)
    (same : others.Perm clients) :
    reduceLayers reduce (layersOf shapes.length others) =
      reduceLayers reduce (layersOf shapes.length clients) := by
  by_cases empty : clients = []
  · rw [empty] at same ⊢
    rw [same.eq_nil]
  · have some_other : others ≠ [] := fun none => empty (none ▸ same).nil_eq.symm
    simp only [reduceLayers, layersOf, List.mapM_map]
    apply mapM_congr
    intro layer member
    have bound := List.mem_range.mp member
    simp only [Function.comp_apply]
    rw [shaped.stack bound empty, (shaped.perm same).stack bound some_other]
    exact reduces.perm _ _ _ (shaped.layer bound) (same.map _)

/-- A reduction of all layers gives a model of the common shapes. -/
theorem reduceLayers_shapes (reduces : NDArray.Reduces reduce) (shaped : EqualShapes shapes clients)
    {result : ClientWeight}
    (found : reduceLayers reduce (layersOf shapes.length clients) = some result) :
    result.map NDArray.shape = shapes := by
  have layers := forall₂_of_mapM found
  have size : result.length = shapes.length := by
    rw [← layers.length_eq]
    simp [layersOf]
  apply List.ext_getElem (by simpa using size)
  intro layer _ bound
  have reduced := layers.get (by simpa [layersOf] using bound) (size ▸ bound)
  simp only [layersOf, List.get_eq_getElem, List.getElem_map, List.getElem_range] at reduced ⊢
  by_cases empty : clients = []
  · rw [empty] at reduced
    cases reduced
  · rw [shaped.stack bound empty] at reduced
    exact reduces.shape _ _ _ (shaped.layer bound) reduced

end Layers

section Orders

variable {clients others : List ClientWeight} {shapes : List (List Nat)} {m numByzantine : Int}
  {average : Average}

/-- The aggregate keeps the layers of the clients and pays no attention to their order. -/
structure Averages (average : Average) : Prop where
  shapes : ∀ {shapes clients numByzantine result}, EqualShapes shapes clients →
    average (layersOf shapes.length clients) numByzantine = some result →
      result.map NDArray.shape = shapes
  perm : ∀ {shapes clients others numByzantine}, EqualShapes shapes clients →
    others.Perm clients → average (layersOf shapes.length others) numByzantine =
      average (layersOf shapes.length clients) numByzantine

/-- FedAvg is an average in this sense. -/
theorem fedAvg_averages : Averages FedAvgAggregator.aggregate where
  shapes shaped found := reduceLayers_shapes NDArray.mean_reduces shaped found
  perm := reduceLayers_perm NDArray.mean_reduces

/-- The median aggregator is an average in this sense. -/
theorem median_averages : Averages MedianAggregator.aggregate where
  shapes shaped found := reduceLayers_shapes NDArray.median_reduces shaped found
  perm := reduceLayers_perm NDArray.median_reduces

/-- The mean of a slice of the sorted arrays depends on no order and keeps the shape. -/
theorem trimmed_reduces (low high : Int) :
    NDArray.Reduces fun stacked => NDArray.mean (slice low high (NDArray.sort stacked)) :=
  NDArray.mean_sort_reduces (fun _ => slice low high) fun _ => slice_subset low high

/-- The first layer has an array of each client. -/
theorem head_layersOf (layered : shapes ≠ []) :
    (layersOf shapes.length clients).head?.map List.length = some clients.length := by
  obtain ⟨count, size⟩ := Nat.exists_eq_succ_of_ne_zero (List.length_eq_zero_iff.not.mpr layered)
  simp [layersOf, size, List.range_succ_eq_map]

/-- The trimmed mean of clients with some layers reduces each of them by the same slice. -/
theorem trimmedMean_eq (layered : shapes ≠ []) (some_client : clients ≠ []) :
    TrimmedMeanAggregator.aggregate (layersOf shapes.length clients) numByzantine =
      reduceLayers (fun stacked => NDArray.mean
          (slice (TrimmedMeanAggregator.bounds clients.length numByzantine).1
            (TrimmedMeanAggregator.bounds clients.length numByzantine).2 (NDArray.sort stacked)))
        (layersOf shapes.length clients) := by
  have positive : clients.length ≠ 0 := by simpa using some_client
  rw [TrimmedMeanAggregator.aggregate, head_layersOf layered]
  simp [positive]

/-- The trimmed mean aggregator is an average in this sense. -/
theorem trimmedMean_averages : Averages TrimmedMeanAggregator.aggregate where
  shapes {shapes clients numByzantine result} shaped found := by
    by_cases layered : shapes = []
    · subst layered
      cases found
    · by_cases empty : clients = []
      · rw [TrimmedMeanAggregator.aggregate, head_layersOf layered, empty] at found
        cases found
      · rw [trimmedMean_eq layered empty] at found
        exact reduceLayers_shapes (trimmed_reduces _ _) shaped found
  perm {shapes clients others numByzantine} shaped same := by
    by_cases layered : shapes = []
    · subst layered
      rfl
    · by_cases empty : clients = []
      · rw [empty] at same ⊢
        rw [same.eq_nil]
      · have some_other : others ≠ [] := fun none => empty (none ▸ same).nil_eq.symm
        rw [trimmedMean_eq layered empty, trimmedMean_eq layered some_other, same.length_eq]
        exact reduceLayers_perm (trimmed_reduces _ _) shaped same

/-- The aggregate of the clients when they are added in the order of the list. -/
def averageAll (average : Average) (m numByzantine : Int) (clients : List ClientWeight) :
    Option ClientWeight :=
  (clients.foldlM MultiKrumAggregator.addClientWeight (.new m)).bind
    fun agg => average agg.layersWeight numByzantine

/-- Adding all clients and aggregating is averaging the layers of the clients. -/
theorem averageAll_eq (shaped : EqualShapes shapes clients) (some_client : clients ≠ []) :
    averageAll average m numByzantine clients =
      average (layersOf shapes.length clients) numByzantine := by
  rw [averageAll, MultiKrumAggregator.addAll shaped, if_neg some_client, Option.bind_some]

/-- The order in which the clients are added does not matter. -/
theorem averageAll_perm (averages : Averages average) (shaped : EqualShapes shapes clients)
    (same : others.Perm clients) :
    averageAll average m numByzantine others = averageAll average m numByzantine clients := by
  by_cases empty : clients = []
  · rw [empty] at same ⊢
    rw [same.eq_nil]
  · have some_other : others ≠ [] := fun none => empty (none ▸ same).nil_eq.symm
    rw [averageAll_eq shaped empty, averageAll_eq (shaped.perm same) some_other]
    exact averages.perm shaped same

/-- The trainer sets the average of the clients. -/
theorem Trainer.averageWeights_model (averages : Averages average) {trainer : Trainer}
    {deserialize : List UInt8 → Option ClientWeight} {initial : ClientWeight}
    {entries : List (String × List UInt8)} (ready : trainer.Ready m numByzantine shapes initial)
    (shaped : EqualShapes shapes clients)
    (decoded : entries.map (deserialize ·.2) = clients.map some) :
    (trainer.averageWeights average deserialize entries).map Trainer.model =
      if entries = [] then some initial else averageAll average m numByzantine clients := by
  rw [Trainer.averageWeights]
  by_cases empty : entries = []
  · have replaced : setTrainableWeights trainer.model trainer.initTrainableWeights =
        some initial := by
      rw [ready.initTrainableWeights]
      exact setTrainableWeights_eq_some (ready.initial.trans ready.model.symm)
    simp [empty, replaced]
  · have some_client : clients ≠ [] := by
      rintro rfl
      exact empty (by simpa using decoded)
    have shape (result : ClientWeight)
        (found : average (layersOf shapes.length clients) numByzantine = some result) :
        setTrainableWeights trainer.model result = some result :=
      setTrainableWeights_eq_some ((averages.shapes shaped found).trans ready.model.symm)
    rw [if_neg (by simpa using empty), if_neg empty, Trainer.foldlM_decoded decoded, ready.agg,
      ready.numByzantine, averageAll, MultiKrumAggregator.addAll shaped, if_neg some_client]
    cases found : average (layersOf shapes.length clients) numByzantine with
    | none => simp [found]
    | some result => simp [found, shape result found]

/-- Trainers that average by layers set the same model from one map of weights, in whatever order
each of them iterates over it. -/
theorem averages_order (average : Average)
    (isAverage : average ∈ [FedAvgAggregator.aggregate, MedianAggregator.aggregate,
      TrimmedMeanAggregator.aggregate])
    (shaped : EqualShapes shapes clients) (deserialize : List UInt8 → Option ClientWeight)
    (wLast : ClientWeights) (entries others : List (String × List UInt8)) (initial : ClientWeight)
    (trainer peer : Trainer) (iterates : Iterates wLast entries) (iterates' : Iterates wLast others)
    (decoded : entries.map (deserialize ·.2) = clients.map some)
    (ready : trainer.Ready m numByzantine shapes initial)
    (ready' : peer.Ready m numByzantine shapes initial) :
    (trainer.averageWeights average deserialize entries).map Trainer.model =
      (peer.averageWeights average deserialize others).map Trainer.model := by
  have averages : Averages average := by
    simp only [List.mem_cons, List.not_mem_nil, or_false] at isAverage
    rcases isAverage with rfl | rfl | rfl
    · exact fedAvg_averages
    · exact median_averages
    · exact trimmedMean_averages
  have same := iterates.perm iterates'
  obtain ⟨decodings, decoded', same'⟩ := exists_decodings decoded same
  have empty : others = [] ↔ entries = [] := by
    rw [← List.length_eq_zero_iff, same.length_eq, List.length_eq_zero_iff]
  rw [Trainer.averageWeights_model averages ready shaped decoded,
    Trainer.averageWeights_model averages ready' (shaped.perm same') decoded',
    averageAll_perm averages shaped same']
  simp only [empty]

end Orders

section Robustness

variable {clients honest byzantine : List ClientWeight} {shapes : List (List Nat)} {m : Int}

/-- The mean of a slice of the sorted arrays, position by position. -/
theorem NDArray.mean_slice {arrays : List NDArray} {shape : List Nat}
    (shaped : ∀ array ∈ arrays, array.shape = shape) {low high : Nat} (some_row : low < high)
    (within : high ≤ arrays.length) :
    ∃ result, mean (((sort arrays).take high).drop low) = some result ∧ result.shape = shape ∧
      ∀ position, ∃ middle, middle =
          ((column arrays position).insertionSort (· ≤ ·) |>.take high).drop low ∧ middle ≠ [] ∧
        result.data.getD position 0 = middle.sum / middle.length := by
  have some_array : ((sort arrays).take high).drop low ≠ [] := by
    rw [← List.length_pos_iff, List.length_drop, List.length_take, length_sort]
    omega
  obtain ⟨result, found, isShape, entries⟩ := mean_eq_some some_array shape fun array member =>
    sort_shaped shaped array (List.mem_of_mem_take (List.mem_of_mem_drop member))
  refine ⟨result, found, isShape, fun position => ⟨_, rfl, ?_, ?_⟩⟩
  · rw [← List.length_pos_iff, List.length_drop, List.length_take, List.length_insertionSort,
      column, List.length_map]
    omega
  · rw [entries, List.map_drop, List.map_take, ← column_sort shaped]
    simp [column]

/-- The value lies between the entries of two of the clients. -/
def Between (honest : List ClientWeight) (layer position : Nat) (value : ℚ) : Prop :=
  (∃ client ∈ honest, weight client layer position ≤ value) ∧
    ∃ client ∈ honest, value ≤ weight client layer position

/-- The mean of a slice that leaves out enough extreme values lies between two honest values. -/
theorem between_of_slice (split : clients.Perm (honest ++ byzantine)) {low high : Nat}
    (below : byzantine.length ≤ low) (above : high + byzantine.length ≤ clients.length)
    {layer position : Nat} {middle : List ℚ} (isMiddle : middle =
      (((clients.map (weight · layer position)).insertionSort (· ≤ ·)).take high).drop low)
    (some_value : middle ≠ []) : Between honest layer position (middle.sum / middle.length) := by
  have values : (clients.map (weight · layer position)).Perm
      (honest.map (weight · layer position) ++ byzantine.map (weight · layer position)) := by
    rw [← List.map_append]
    exact split.map _
  have kept (value : ℚ) (taken : value ∈ middle) := by
    rw [isMiddle] at taken
    exact slice_between values (by simpa using below) (by simpa using above) taken
  obtain ⟨⟨lower, isLower, under⟩, upper, isUpper, reaches⟩ := mean_between some_value
  constructor
  · obtain ⟨value, isHonest, least⟩ := (kept lower isLower).1
    obtain ⟨client, member, rfl⟩ := List.mem_map.mp isHonest
    exact ⟨client, member, least.trans under⟩
  · obtain ⟨value, isHonest, greatest⟩ := (kept upper isUpper).2
    obtain ⟨client, member, rfl⟩ := List.mem_map.mp isHonest
    exact ⟨client, member, reaches.trans greatest⟩

/-- A reduction by a slice that leaves out as many clients as are Byzantine on each side stays
between the honest ones. -/
theorem reduceLayers_between (shaped : EqualShapes shapes clients)
    (split : clients.Perm (honest ++ byzantine)) {low high : Nat}
    {reduce : List NDArray → Option NDArray} (slices : ∀ arrays, arrays.length = clients.length →
      reduce arrays = NDArray.mean (((NDArray.sort arrays).take high).drop low))
    (some_row : low < high) (below : byzantine.length ≤ low)
    (above : high + byzantine.length ≤ clients.length) :
    ∃ result, reduceLayers reduce (layersOf shapes.length clients) = some result ∧
      result.map NDArray.shape = shapes ∧ ∀ layer position,
        Between honest layer position (weight result layer position) := by
  have total := split.length_eq
  rw [List.length_append] at total
  have some_client : clients ≠ [] := by
    rw [← List.length_pos_iff]
    omega
  have reduced {layer : Nat} (bound : layer < shapes.length) :
      ∃ array, reduce (clients.map (·.getD layer default)) = some array ∧
        array.shape = shapes[layer] ∧ ∀ position,
          Between honest layer position (array.data.getD position 0) := by
    obtain ⟨array, found, shape, entries⟩ := NDArray.mean_slice (shaped.layer bound) some_row
      (by rw [List.length_map]; omega)
    refine ⟨array, (slices _ (List.length_map _)).trans found, shape, fun position => ?_⟩
    obtain ⟨middle, isMiddle, some_value, mean⟩ := entries position
    rw [mean]
    apply between_of_slice split below above _ some_value
    rw [isMiddle, NDArray.column, List.map_map]
    rfl
  let value (layer : Nat) : NDArray :=
    (reduce (clients.map (·.getD layer default))).getD default
  refine ⟨(List.range shapes.length).map value, ?_, ?_, ?_⟩
  · rw [reduceLayers, layersOf, List.mapM_map]
    apply mapM_eq_some value
    intro layer member
    have bound := List.mem_range.mp member
    obtain ⟨array, found, _⟩ := reduced bound
    simp only [Function.comp_apply, shaped.stack bound some_client, Option.bind_eq_bind,
      Option.bind_some, value, found, Option.getD_some]
  · apply List.ext_getElem (by simp)
    intro layer _ bound
    obtain ⟨array, found, shape, _⟩ := reduced bound
    simp only [List.getElem_map, List.getElem_range, value, found, Option.getD_some, shape]
  · intro layer position
    by_cases bound : layer < shapes.length
    · obtain ⟨array, found, _, between⟩ := reduced bound
      have chosen : value layer = array := by
        simp only [value, found, Option.getD_some]
      have entry : weight ((List.range shapes.length).map value) layer position =
          array.data.getD position 0 := by
        simp [weight, bound, chosen]
      rw [entry]
      exact between position
    · obtain ⟨client, member⟩ := List.exists_mem_of_length_pos (show 0 < honest.length by omega)
      have inside : client ∈ clients := split.mem_iff.mpr (List.mem_append_left _ member)
      have outside := weight_eq_zero position (shaped.length_eq inside ▸ not_lt.mp bound)
      rw [weight_eq_zero position (by simpa using bound)]
      exact ⟨⟨client, member, outside.le⟩, client, member, outside.ge⟩

/-- A slice with bounds inside the list takes and drops. -/
theorem slice_eq {Item : Type} (low high : Nat) (items : List Item) :
    slice low high items = (items.take high).drop low := by
  simp [slice, upTo, Int.not_lt.mpr (Int.natCast_nonneg _)]

/-- With a majority of honest clients the bounds leave out the Byzantine number on each side. -/
theorem TrimmedMeanAggregator.bounds_eq {numClients numByzantine : Nat}
    (majority : 2 * numByzantine < numClients) :
    bounds numClients numByzantine =
      ((numByzantine : Int), ((numClients - numByzantine : Nat) : Int)) := by
  have positive : (numClients : ℚ) ≠ 0 := by
    have some_client : numClients ≠ 0 := by omega
    exact_mod_cast some_client
  have exclusions : round (2 * ((numByzantine : ℚ) / numClients) * numClients) =
      2 * (numByzantine : Int) := by
    rw [mul_assoc, div_mul_cancel₀ _ positive]
    exact_mod_cast round_intCast (α := ℚ) (2 * (numByzantine : Int))
  have unequal : (numByzantine : Int) ≠ numClients - numByzantine := by omega
  simp only [bounds, Int.cast_natCast, exclusions, Int.mul_ediv_cancel_left _ two_ne_zero,
    Int.mul_emod_right, add_zero, if_neg unequal, Prod.mk.injEq, true_and]
  omega

/-- With less than half of the clients Byzantine, each weight of the median and of the trimmed mean
lies between those of two honest clients. -/
theorem averages_between (shaped : EqualShapes shapes clients) (layered : shapes ≠ [])
    (split : clients.Perm (honest ++ byzantine)) (numByzantine : Nat)
    (few : byzantine.length ≤ numByzantine) (majority : 2 * numByzantine < clients.length)
    (average : Average)
    (isAverage : average ∈ [MedianAggregator.aggregate, TrimmedMeanAggregator.aggregate]) :
    ∃ result, averageAll average m numByzantine clients = some result ∧
      result.map NDArray.shape = shapes ∧ ∀ layer position,
        Between honest layer position (weight result layer position) := by
  have some_client : clients ≠ [] := by
    rw [← List.length_pos_iff]
    omega
  rw [averageAll_eq shaped some_client]
  simp only [List.mem_cons, List.not_mem_nil, or_false] at isAverage
  rcases isAverage with rfl | rfl
  · have slices (arrays : List NDArray) (size : arrays.length = clients.length) :
        NDArray.median arrays = NDArray.mean
          (((NDArray.sort arrays).take (clients.length / 2 + 1)).drop
            (if clients.length % 2 = 0 then clients.length / 2 - 1 else clients.length / 2)) := by
      rw [NDArray.median, size]
    apply reduceLayers_between shaped split slices
    · split_ifs <;> omega
    · split_ifs <;> omega
    · omega
  · rw [trimmedMean_eq layered some_client, TrimmedMeanAggregator.bounds_eq majority]
    have slices (arrays : List NDArray) (_ : arrays.length = clients.length) :
        NDArray.mean (slice numByzantine ((clients.length - numByzantine : Nat) : Int)
            (NDArray.sort arrays)) = NDArray.mean
          (((NDArray.sort arrays).take (clients.length - numByzantine)).drop numByzantine) := by
      rw [slice_eq]
    apply reduceLayers_between shaped split slices
    all_goals omega

end Robustness

namespace Plain

/-- Of four clients with one far away, the averages stay between the others. -/
theorem averages_between_far : ∃ result,
    averageAll MedianAggregator.aggregate 1 1 ([100, 0, 1, 2].map scalar) = some result ∧
      Between ([0, 1, 2].map scalar) 0 0 (weight result 0 0) := by
  have reordered : ([100, 0, 1, 2].map scalar).Perm ([0, 1, 2].map scalar ++ [scalar 100]) := by
    change ([scalar 100] ++ [0, 1, 2].map scalar).Perm _
    exact List.perm_append_comm
  obtain ⟨result, found, _, between⟩ := averages_between (m := 1)
    (scalar_shapes [100, 0, 1, 2]) (by decide) reordered 1
    (by decide) (by decide) MedianAggregator.aggregate (by simp)
  exact ⟨result, found, between 0 0⟩

/-- The map of the four weights. -/
def fourMap : ClientWeights :=
  (((ClientWeights.empty.insert "a" [0]).insert "b" [1]).insert "c" [10]).insert "d" [20]

/-- The four weights are one way to iterate over the map. -/
theorem fourWeights_iterates : Iterates fourMap fourWeights where
  nodup := by decide
  mem_iff name weights := by
    simp only [fourWeights, fourMap, ClientWeights.insert, ClientWeights.empty, List.mem_cons,
      Prod.mk.injEq, List.not_mem_nil, or_false]
    split_ifs with d c b a <;> simp_all [eq_comm]

/-- Two trainers that iterate in opposite orders set the same model. -/
theorem averages_order_reverse :
    (trainer.averageWeights FedAvgAggregator.aggregate decodeByte fourWeights).map Trainer.model =
      (trainer.averageWeights FedAvgAggregator.aggregate decodeByte fourWeights.reverse).map
        Trainer.model := by
  have ready : trainer.Ready 1 1 [[1]] (scalar 1) := ⟨rfl, rfl, rfl, rfl, rfl⟩
  have reversed : Iterates fourMap fourWeights.reverse :=
    ⟨by decide, fun name weights => by rw [List.mem_reverse, fourWeights_iterates.mem_iff]⟩
  exact averages_order FedAvgAggregator.aggregate (by simp) (scalar_shapes [0, 1, 10, 20])
    decodeByte fourMap fourWeights fourWeights.reverse (scalar 1) trainer trainer
    fourWeights_iterates reversed rfl ready ready

end Plain

end DeflHotstuff
