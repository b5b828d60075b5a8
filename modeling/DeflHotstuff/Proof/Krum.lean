import DeflHotstuff.Construction.Krum
import DeflHotstuff.Library.Selection

namespace DeflHotstuff

open Verification

section Distances

variable {deltas : List (List ℚ)} {numClients : Nat}

/-- A squared distance is never negative. -/
theorem squaredDistance_nonneg (first second : List ℚ) : 0 ≤ squaredDistance first second := by
  apply List.sum_nonneg
  intro value member
  obtain ⟨index, bound, rfl⟩ := List.getElem_of_mem member
  rw [List.getElem_zipWith]
  positivity

@[simp] theorem squaredDistance_self (weights : List ℚ) : squaredDistance weights weights = 0 := by
  induction weights with
  | nil => rfl
  | cons weight weights ih => simp_all [squaredDistance]

/-- The distance is symmetric. -/
theorem squaredDistance_comm (first second : List ℚ) :
    squaredDistance first second = squaredDistance second first := by
  rw [squaredDistance, squaredDistance, List.zipWith_comm]
  simp only [sub_sq_comm]

namespace MultiKrumAggregator

theorem assignPair_apply (matrix : Nat → Nat → ℚ) (i j row column : Nat) :
    assignPair deltas matrix i j row column =
      if row = i ∧ column = j ∨ column = i ∧ row = j then
        squaredDistance (deltas.getD row []) (deltas.getD column [])
      else matrix row column := by
  by_cases mirrored : row = j ∧ column = i
  · obtain ⟨rfl, rfl⟩ := mirrored
    simp [assignPair, setEntry, squaredDistance_comm]
  · by_cases direct : row = i ∧ column = j
    · obtain ⟨rfl, rfl⟩ := direct
      simp [assignPair, setEntry, mirrored]
    · have other : ¬ (column = i ∧ row = j) := fun same => mirrored same.symm
      simp [assignPair, setEntry, mirrored, direct, other]

/-- The inner loop assigns the entries of one client and the later ones. -/
theorem assignRow_apply (matrix : Nat → Nat → ℚ) (i : Nat) (later : List Nat)
    (row column : Nat) :
    later.foldl (assignPair deltas · i ·) matrix row column =
      if row = i ∧ column ∈ later ∨ column = i ∧ row ∈ later then
        squaredDistance (deltas.getD row []) (deltas.getD column [])
      else matrix row column := by
  induction later generalizing matrix with
  | nil => simp
  | cons j later ih =>
    rw [List.foldl_cons, ih, assignPair_apply]
    simp only [List.mem_cons]
    split_ifs <;> first | rfl | grind

/-- The loops assign every pair of different clients. -/
theorem distances_apply {row column : Nat} (inRange : row < numClients)
    (inRange' : column < numClients) :
    distances deltas numClients row column =
      squaredDistance (deltas.getD row []) (deltas.getD column []) := by
  have assigned (visited : List Nat) (matrix : Nat → Nat → ℚ) :
      visited.foldl (fun distances i => (List.range' (i + 1) (numClients - (i + 1))).foldl
          (assignPair deltas · i ·) distances) matrix row column =
        if row ∈ visited ∧ row < column ∨ column ∈ visited ∧ column < row then
          squaredDistance (deltas.getD row []) (deltas.getD column [])
        else matrix row column := by
    induction visited generalizing matrix with
    | nil => simp
    | cons i visited ih =>
      have paired : row = i ∧ column ∈ List.range' (i + 1) (numClients - (i + 1)) ∨
          column = i ∧ row ∈ List.range' (i + 1) (numClients - (i + 1)) ↔
            row = i ∧ row < column ∨ column = i ∧ column < row := by
        simp only [List.mem_range'_1]
        omega
      rw [List.foldl_cons, ih, assignRow_apply]
      simp only [paired, List.mem_cons]
      split_ifs <;> first | rfl | grind
  rw [distances, assigned]
  rcases lt_trichotomy row column with before | rfl | after
  · simp [inRange, before]
  · simp
  · simp [inRange', after]

end MultiKrumAggregator

end Distances

section Lists

variable {Item Result Size : Type}

/-- Calls that agree on the items give the same results. -/
theorem mapM_congr {items : List Item} {call other : Item → Option Result}
    (same : ∀ item ∈ items, call item = other item) : items.mapM call = items.mapM other := by
  induction items with
  | nil => rfl
  | cons item items ih =>
    rw [List.mapM_cons, List.mapM_cons, same item List.mem_cons_self,
      ih fun later member => same later (List.mem_cons_of_mem item member)]

/-- A call that succeeds on every item succeeds on the list. -/
theorem mapM_eq_some {items : List Item} {call : Item → Option Result} (value : Item → Result)
    (succeeds : ∀ item ∈ items, call item = some (value item)) :
    items.mapM call = some (items.map value) :=
  (mapM_congr succeeds).trans List.mapM_pure

/-- Items of one size stack. -/
theorem stackBy_eq_some [DecidableEq Size] {size : Item → Size} {items : List Item}
    (some_item : items ≠ []) (common : Size) (agree : ∀ item ∈ items, size item = common) :
    stackBy size items = some items := by
  cases items with
  | nil => exact absurd rfl some_item
  | cons first rest =>
    simp only [List.forall_mem_cons] at agree
    simp +contextual [stackBy, agree]

/-- Reading a list at all its positions gives it back. -/
theorem map_getD_range (items : List Item) (default : Item) :
    (List.range items.length).map (items.getD · default) = items := by
  apply List.ext_getElem
  · simp
  · intro index _ bound
    simp [List.getElem?_eq_getElem bound]

end Lists

section Loading

variable {clients : List ClientWeight} {shapes : List (List Nat)} {m : Int}

/-- The clients train models with the same layers. -/
def EqualShapes (shapes : List (List Nat)) (clients : List ClientWeight) : Prop :=
  ∀ client ∈ clients, client.map NDArray.shape = shapes

/-- The arrays of the clients by layer. -/
def layersOf (count : Nat) (clients : List ClientWeight) : List (List NDArray) :=
  (List.range count).map fun layer => clients.map (·.getD layer default)

/-- The flattened weight vector of a client. -/
def flatten (client : ClientWeight) : List ℚ := client.flatMap NDArray.data

/-- A client has as many layers as there are shapes. -/
theorem EqualShapes.length_eq (shaped : EqualShapes shapes clients) {client : ClientWeight}
    (member : client ∈ clients) : client.length = shapes.length := by
  rw [← shaped client member, List.length_map]

/-- The flattened updates of the clients have one length. -/
theorem EqualShapes.length_flatten (shaped : EqualShapes shapes clients) {client : ClientWeight}
    (member : client ∈ clients) : (flatten client).length = (shapes.map List.prod).sum := by
  rw [← shaped client member, flatten, List.length_flatMap, List.map_map]
  congr 2
  funext array
  exact array.sized

/-- Equal shapes do not depend on the order of the clients. -/
theorem EqualShapes.perm {others : List ClientWeight} (shaped : EqualShapes shapes clients)
    (same : others.Perm clients) : EqualShapes shapes others :=
  fun client member => shaped client (same.mem_iff.mp member)

/-- Clients that are chosen by position have the shapes of all. -/
theorem EqualShapes.chosen (shaped : EqualShapes shapes clients) {best : List Nat}
    (inRange : ∀ index ∈ best, index < clients.length) :
    EqualShapes shapes (best.map (clients.getD · [])) := by
  intro client member
  obtain ⟨index, taken, rfl⟩ := List.mem_map.mp member
  apply shaped
  simp [List.getElem?_eq_getElem (inRange index taken)]

namespace MultiKrumAggregator

/-- Appending a client with as many layers cannot fail. -/
theorem appendLayers_eq {layers : List (List NDArray)} {client : ClientWeight}
    (size : layers.length = client.length) :
    appendLayers layers client =
      some (List.zipWith (fun layer delta => layer ++ [delta]) layers client) := by
  induction layers generalizing client with
  | nil =>
    cases client with
    | nil => rfl
    | cons delta deltas => simp at size
  | cons layer layers ih =>
    cases client with
    | nil => simp at size
    | cons delta deltas =>
      rw [appendLayers, ih (by simpa using size)]
      rfl

/-- The layers of one client more have its deltas at their ends. -/
theorem layersOf_append (client : ClientWeight) :
    layersOf client.length (clients ++ [client]) =
      List.zipWith (fun layer delta => layer ++ [delta]) (layersOf client.length clients)
        client := by
  apply List.ext_getElem
  · simp [layersOf]
  · intro index _ bound
    simp only [List.length_zipWith, lt_inf_iff] at bound
    simp [layersOf, List.getElem?_eq_getElem bound.2]

/-- Each added client is the last one of every layer. -/
theorem addClientWeight_layersOf (clients : List ClientWeight) (client : ClientWeight) :
    addClientWeight ⟨m, if clients = [] then [] else layersOf client.length clients⟩ client =
      some ⟨m, layersOf client.length (clients ++ [client])⟩ := by
  have layers : (if (if clients = [] then [] else layersOf client.length clients).isEmpty then
      client.map fun _ => [] else if clients = [] then [] else layersOf client.length clients) =
      layersOf client.length clients := by
    by_cases first : clients = []
    · simp [first, layersOf, List.map_const']
    · by_cases empty : client = [] <;> simp [first, empty, layersOf]
  rw [addClientWeight, layers, appendLayers_eq (by simp [layersOf]), layersOf_append]
  rfl

/-- Clients with the same layers are all added. -/
theorem addAll (shaped : EqualShapes shapes clients) :
    clients.foldlM addClientWeight (new m) =
      some ⟨m, if clients = [] then [] else layersOf shapes.length clients⟩ := by
  induction clients using List.reverseRecOn with
  | nil => rfl
  | append_singleton clients client ih =>
    have earlier := ih fun other member => shaped other (List.mem_append_left _ member)
    have size := shaped.length_eq (List.mem_append_right clients List.mem_cons_self)
    rw [List.foldlM_append, earlier]
    simp [← size, addClientWeight_layersOf]

/-- The data of a client are its layers in one list. -/
theorem clientData_eq (shaped : EqualShapes shapes clients) {index : Nat}
    (inRange : index < clients.length) :
    clientData ⟨m, layersOf shapes.length clients⟩ index = some (flatten clients[index]) := by
  have size := shaped.length_eq (List.getElem_mem inRange)
  have found : (layersOf shapes.length clients).mapM (fun layer => layer[index]?) =
      some clients[index] := by
    rw [layersOf, List.mapM_map, mapM_eq_some fun layer => clients[index].getD layer default]
    · rw [← size, map_getD_range]
    · intro layer _
      simp [List.getElem?_eq_getElem inRange]
  rw [clientData, found]
  rfl

end MultiKrumAggregator

end Loading

section Means

variable {clients others : List ClientWeight} {shapes : List (List Nat)}

/-- The mean of the clients, layer by layer. -/
def layerMeans (count : Nat) (clients : List ClientWeight) : Option ClientWeight :=
  (List.range count).mapM fun layer => NDArray.mean (clients.map (·.getD layer default))

/-- One weight of a client. -/
def weight (client : ClientWeight) (layer position : Nat) : ℚ :=
  (client.getD layer default).data.getD position 0

/-- A layer past the last one counts as zero. -/
theorem weight_eq_zero {client : ClientWeight} {layer : Nat} (position : Nat)
    (outside : client.length ≤ layer) : weight client layer position = 0 := by
  have missing : client.getD layer default = default := by
    rw [List.getD, List.getElem?_eq_none outside, Option.getD_none]
  rw [weight, missing]
  rfl

/-- Each weight of the result is the mean of the weights of the clients. -/
structure MeanOf (shapes : List (List Nat)) (clients : List ClientWeight)
    (result : ClientWeight) : Prop where
  shapes : result.map NDArray.shape = shapes
  weights : ∀ layer position, weight result layer position =
    (clients.map (weight · layer position)).sum / clients.length

/-- A layer of a client has its shape. -/
theorem EqualShapes.shape_getD (shaped : EqualShapes shapes clients) {client : ClientWeight}
    (member : client ∈ clients) {layer : Nat} (bound : layer < shapes.length) :
    (client.getD layer default).shape = shapes[layer] := by
  have size := shaped.length_eq member
  have shape := shaped client member
  subst shape
  simp [List.getElem?_eq_getElem (size ▸ bound)]

namespace NDArray

/-- Arrays of one shape that agree at each position are equal. -/
theorem eq_of_getD {first second : NDArray} (shape : first.shape = second.shape)
    (same : ∀ position, first.data.getD position 0 = second.data.getD position 0) :
    first = second := by
  have size : first.data.length = second.data.length := by
    rw [first.sized, second.sized, shape]
  have data : first.data = second.data := by
    apply List.ext_getElem size
    intro position bound bound'
    simpa [List.getElem?_eq_getElem bound, List.getElem?_eq_getElem bound'] using same position
  cases first
  cases second
  simp_all

/-- Arrays of one shape have a mean, position by position. -/
theorem mean_eq_some {arrays : List NDArray} (some_array : arrays ≠ []) (shape : List Nat)
    (shaped : ∀ array ∈ arrays, array.shape = shape) :
    ∃ result, mean arrays = some result ∧ result.shape = shape ∧
      ∀ position, result.data.getD position 0 =
        (arrays.map (·.data.getD position 0)).sum / arrays.length := by
  cases arrays with
  | nil => exact absurd rfl some_array
  | cons first rest =>
    refine ⟨_, rfl, shaped first List.mem_cons_self, fun position => ?_⟩
    by_cases bound : position < first.data.length
    · simp [bound]
    · have outside : ∀ array ∈ first :: rest, array.data.getD position 0 = 0 := by
        intro array member
        have size : array.data.length ≤ position := by
          rw [array.sized, shaped array member, ← shaped first List.mem_cons_self, ← first.sized]
          exact not_lt.mp bound
        rw [List.getD, List.getElem?_eq_none size, Option.getD_none]
      rw [List.map_congr_left outside, List.getD, List.getElem?_eq_none (by simpa using bound)]
      simp

end NDArray

/-- Clients with the same layers and the same weights are equal. -/
theorem eq_of_weight {first second : ClientWeight}
    (shape : first.map NDArray.shape = second.map NDArray.shape)
    (same : ∀ layer position, weight first layer position = weight second layer position) :
    first = second := by
  have size : first.length = second.length := by
    simpa using congrArg List.length shape
  apply List.ext_getElem size
  intro layer bound bound'
  apply NDArray.eq_of_getD
  · have entry := congrArg (·[layer]?) shape
    simpa [List.getElem?_eq_getElem bound, List.getElem?_eq_getElem bound'] using entry
  · intro position
    simpa [weight, List.getElem?_eq_getElem bound, List.getElem?_eq_getElem bound'] using
      same layer position

/-- The mean of one layer has its shape and averages every position. -/
theorem mean_layer (shaped : EqualShapes shapes clients) (some_client : clients ≠ [])
    {layer : Nat} (bound : layer < shapes.length) :
    ∃ array, NDArray.mean (clients.map (·.getD layer default)) = some array ∧
      array.shape = shapes[layer] ∧ ∀ position, array.data.getD position 0 =
        (clients.map (weight · layer position)).sum / clients.length := by
  have agree : ∀ array ∈ clients.map (·.getD layer default), array.shape = shapes[layer] := by
    intro array member
    obtain ⟨client, found, rfl⟩ := List.mem_map.mp member
    exact shaped.shape_getD found bound
  obtain ⟨array, found, shape, average⟩ :=
    NDArray.mean_eq_some (by simpa using some_client) shapes[layer] agree
  refine ⟨array, found, shape, fun position => ?_⟩
  rw [average, List.map_map, List.length_map]
  rfl

/-- Clients with the same layers have a mean. -/
theorem layerMeans_eq_some (shaped : EqualShapes shapes clients) (some_client : clients ≠ []) :
    ∃ result, layerMeans shapes.length clients = some result ∧ MeanOf shapes clients result := by
  let mean (layer : Nat) : NDArray :=
    (NDArray.mean (clients.map (·.getD layer default))).getD default
  refine ⟨(List.range shapes.length).map mean, mapM_eq_some mean ?_, ?_, ?_⟩
  · intro layer member
    obtain ⟨array, found, _⟩ := mean_layer shaped some_client (List.mem_range.mp member)
    simp only [mean, found, Option.getD_some]
  · apply List.ext_getElem (by simp)
    intro layer _ bound
    obtain ⟨array, found, shape, _⟩ := mean_layer shaped some_client bound
    simp only [List.getElem_map, List.getElem_range, mean, found, Option.getD_some, shape]
  · intro layer position
    by_cases bound : layer < shapes.length
    · obtain ⟨array, found, _, average⟩ := mean_layer shaped some_client bound
      have chosen : mean layer = array := by
        simp only [mean, found, Option.getD_some]
      rw [← average position, weight]
      simp [bound, chosen]
    · have outside : ∀ client ∈ clients, weight client layer position = 0 := by
        intro client member
        exact weight_eq_zero position (shaped.length_eq member ▸ not_lt.mp bound)
      rw [List.map_congr_left outside, weight_eq_zero position (by simpa using bound)]
      simp

/-- The order of the clients does not matter to their mean. -/
theorem layerMeans_perm (shaped : EqualShapes shapes clients) (same : others.Perm clients) :
    layerMeans shapes.length others = layerMeans shapes.length clients := by
  by_cases none : clients = []
  · rw [none] at same
    rw [same.eq_nil, none]
  · obtain ⟨result, found, mean⟩ := layerMeans_eq_some shaped none
    obtain ⟨result', found', mean'⟩ := layerMeans_eq_some (shaped.perm same)
      fun empty => none (empty ▸ same).nil_eq.symm
    have equal : result' = result := by
      apply eq_of_weight (mean'.shapes.trans mean.shapes.symm)
      intro layer position
      rw [mean'.weights, mean.weights, same.length_eq, (same.map _).sum_eq]
    rw [found', found, equal]

/-- The mean changes with any one of the clients. -/
theorem layerMeans_cons_injective {first second : ClientWeight} {common : List ClientWeight}
    (shaped : EqualShapes shapes (first :: common)) (shaped' : EqualShapes shapes (second :: common))
    (same : layerMeans shapes.length (first :: common) =
      layerMeans shapes.length (second :: common)) : first = second := by
  obtain ⟨result, found, mean⟩ := layerMeans_eq_some shaped (List.cons_ne_nil _ _)
  obtain ⟨result', found', mean'⟩ := layerMeans_eq_some shaped' (List.cons_ne_nil _ _)
  obtain rfl : result = result' := Option.some.inj (found.symm.trans (same.trans found'))
  apply eq_of_weight ((shaped _ List.mem_cons_self).trans (shaped' _ List.mem_cons_self).symm)
  intro layer position
  have equal := (mean.weights layer position).symm.trans (mean'.weights layer position)
  have positive : ((first :: common).length : ℚ) ≠ 0 := by
    simp only [List.length_cons]
    positivity
  simp only [List.length_cons] at equal positive
  rw [div_left_inj' positive] at equal
  simpa using equal

end Means

/-- The positions of the scores come in the order of the scores. -/
structure Argsorts (argsort : List ℚ → List Nat) : Prop where
  perm : ∀ scores, (argsort scores).Perm (List.range scores.length)
  sorted : ∀ scores, (argsort scores).Pairwise fun first second =>
    scores.getD first 0 ≤ scores.getD second 0

theorem stableArgsort_sorts : Argsorts stableArgsort where
  perm _ := List.perm_insertionSort _ _
  sorted scores := pairwise_sortBy (scores.getD · 0) (List.range scores.length)

/-- Sorting the positions keeps their number. -/
theorem Argsorts.length_eq {argsort : List ℚ → List Nat} (sorts : Argsorts argsort)
    (scores : List ℚ) : (argsort scores).length = scores.length := by
  rw [(sorts.perm scores).length_eq, List.length_range]

/-- A sorted position is in range. -/
theorem Argsorts.lt_length {argsort : List ℚ → List Nat} (sorts : Argsorts argsort)
    {scores : List ℚ} {index : Nat} (member : index ∈ argsort scores) : index < scores.length :=
  List.mem_range.mp ((sorts.perm scores).mem_iff.mp member)

section Scores

variable {clients : List ClientWeight} {shapes : List (List Nat)} {m numByzantine : Int}
  {argsort : List ℚ → List Nat}

/-- The number of neighbours that the score of a client counts. -/
def numNeighbours (numClients : Nat) (numByzantine : Int) : Nat :=
  (max 1 ((numClients : Int) - numByzantine - 2)).toNat

/-- The smallest distances of a client from all of them, itself among these, added up. -/
def closeness (clients : List ClientWeight) (numByzantine : Int) (client : ClientWeight) : ℚ :=
  sumSmallest (numNeighbours clients.length numByzantine + 1)
    (clients.map fun other => squaredDistance (flatten client) (flatten other))

/-- The number of clients that the slice of the sorted ones takes. -/
def numSelected (m : Int) (numClients : Nat) : Nat :=
  (if m < 0 then numClients + m else min m numClients).toNat

/-- The positions of the closest clients. -/
def closest (argsort : List ℚ → List Nat) (m numByzantine : Int) (clients : List ClientWeight) :
    List Nat :=
  (argsort (clients.map (closeness clients numByzantine))).take (numSelected m clients.length)

/-- The closeness of a client does not depend on the order of the others. -/
theorem closeness_perm {others : List ClientWeight} (same : others.Perm clients) :
    closeness others numByzantine = closeness clients numByzantine := by
  funext client
  rw [closeness, closeness, same.length_eq]
  exact sumSmallest_perm (same.map _)

/-- The slice up to the smaller of `m` and the length takes that many items. -/
theorem upTo_eq_take {Item : Type} (m : Int) (items : List Item) :
    upTo (min m items.length) items = items.take (numSelected m items.length) := by
  rw [upTo, numSelected]
  congr 2
  split_ifs <;> omega

/-- A chosen position is that of a client. -/
theorem lt_of_mem_closest (sorts : Argsorts argsort) {index : Nat}
    (member : index ∈ closest argsort m numByzantine clients) : index < clients.length := by
  simpa using sorts.lt_length (List.mem_of_mem_take member)

/-- No client is chosen twice. -/
theorem nodup_closest (sorts : Argsorts argsort) :
    (closest argsort m numByzantine clients).Nodup := by
  apply List.Nodup.sublist (List.take_sublist _ _)
  exact (sorts.perm _).nodup_iff.mpr List.nodup_range

/-- As many clients are chosen as the slice takes. -/
theorem length_closest (sorts : Argsorts argsort) :
    (closest argsort m numByzantine clients).length =
      min (numSelected m clients.length) clients.length := by
  rw [closest, List.length_take, sorts.length_eq, List.length_map]

namespace MultiKrumAggregator

/-- The score of a client is its closeness to the nearest ones. -/
theorem clientScore_eq (clients : List ClientWeight) (numByzantine : Int) :
    clientScore (distances (clients.map flatten) clients.length) clients.length
        (max 1 ((clients.length : Int) - numByzantine - 2)) =
      clients.map (closeness clients numByzantine) := by
  apply List.ext_getElem
  · simp [clientScore]
  · intro client _ bound
    have inRange : client < clients.length := by simpa using bound
    have column : (List.range clients.length).map
        (distances (clients.map flatten) clients.length · client) =
          clients.map fun other => squaredDistance (flatten clients[client]) (flatten other) := by
      apply List.ext_getElem
      · simp
      · intro row _ bound
        have inRange' : row < clients.length := by simpa using bound
        simp [distances_apply inRange' inRange, List.getElem?_eq_getElem inRange,
          List.getElem?_eq_getElem inRange', squaredDistance_comm (flatten clients[row])]
    have entries : (max 1 ((clients.length : Int) - numByzantine - 2) + 1).toNat =
        numNeighbours clients.length numByzantine + 1 := by
      rw [numNeighbours]
      omega
    have positive : ¬ max 1 ((clients.length : Int) - numByzantine - 2) + 1 < 0 := by omega
    simp only [clientScore, List.getElem_map, List.getElem_range, column, upTo, positive, if_false,
      entries, closeness, sumSmallest]

/-- The best clients are the closest ones. -/
theorem bestClients_eq (sorts : Argsorts argsort) (m numByzantine : Int)
    (shaped : EqualShapes shapes clients) (some_client : clients ≠ []) (layered : shapes ≠ []) :
    bestClients argsort ⟨m, layersOf shapes.length clients⟩ numByzantine =
      some (closest argsort m numByzantine clients) := by
  have numClients : (layersOf shapes.length clients).head?.map List.length =
      some clients.length := by
    obtain ⟨count, size⟩ := Nat.exists_eq_succ_of_ne_zero
      (List.length_eq_zero_iff.not.mpr layered)
    simp [layersOf, size, List.range_succ_eq_map]
  have flattened : (List.range clients.length).mapM
      (clientData ⟨m, layersOf shapes.length clients⟩) = some (clients.map flatten) := by
    rw [mapM_eq_some fun index => flatten (clients.getD index [])]
    · rw [← Function.comp_def flatten, ← List.map_map, map_getD_range]
    · intro index member
      have inRange := List.mem_range.mp member
      simp [clientData_eq shaped inRange, List.getElem?_eq_getElem inRange]
  have stacked : vstack (clients.map flatten) = some (clients.map flatten) := by
    apply stackBy_eq_some (by simpa using some_client) (shapes.map List.prod).sum
    intro row member
    obtain ⟨client, found, rfl⟩ := List.mem_map.mp member
    exact shaped.length_flatten found
  have size : (argsort (clients.map (closeness clients numByzantine))).length = clients.length := by
    rw [sorts.length_eq, List.length_map]
  have cut := upTo_eq_take m (argsort (clients.map (closeness clients numByzantine)))
  rw [size] at cut
  simp only [bestClients, numClients, flattened, stacked, Option.bind_eq_bind, Option.bind_some,
    clientScore_eq, Option.pure_def, cut, closest]

/-- The result is the mean of the closest clients in each layer. -/
theorem aggregate_eq (sorts : Argsorts argsort) (m numByzantine : Int)
    (shaped : EqualShapes shapes clients) (some_client : clients ≠ []) (layered : shapes ≠ []) :
    aggregate argsort ⟨m, layersOf shapes.length clients⟩ numByzantine =
      layerMeans shapes.length
        ((closest argsort m numByzantine clients).map (clients.getD · [])) := by
  have stacked {layer : Nat} (bound : layer < shapes.length) :
      NDArray.stack (clients.map (·.getD layer default)) =
        some (clients.map (·.getD layer default)) := by
    apply stackBy_eq_some (by simpa using some_client) shapes[layer]
    intro array member
    obtain ⟨client, found, rfl⟩ := List.mem_map.mp member
    exact shaped.shape_getD found bound
  rw [aggregate, bestClients_eq sorts m numByzantine shaped some_client layered, layersOf,
    layerMeans]
  simp only [Option.bind_eq_bind, Option.bind_some, List.mapM_map]
  apply mapM_congr
  intro layer member
  rw [Function.comp_apply]
  have chosen : (closest argsort m numByzantine clients).mapM
      (fun index => (clients.map (·.getD layer default))[index]?) =
        some (((closest argsort m numByzantine clients).map (clients.getD · [])).map
          (·.getD layer default)) := by
    rw [mapM_eq_some fun index => (clients.getD index []).getD layer default]
    · rw [List.map_map]
      rfl
    · intro index member
      simp [List.getElem?_eq_getElem (lt_of_mem_closest sorts member)]
  rw [stacked (List.mem_range.mp member), Option.bind_some, chosen, Option.bind_some]

end MultiKrumAggregator

end Scores

namespace Plain

/-- A model with a single weight. -/
def scalar (value : ℚ) : ClientWeight := [⟨[1], [value], rfl⟩]

/-- Clients with one number each have equal shapes. -/
theorem scalar_shapes (values : List ℚ) : EqualShapes [[1]] (values.map scalar) := by
  intro client member
  obtain ⟨value, _, rfl⟩ := List.mem_map.mp member
  rfl

end Plain

end DeflHotstuff
