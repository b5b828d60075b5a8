import DeflHotstuff.Proof.Krum

namespace DeflHotstuff

open Verification

section Orders

variable {clients others : List ClientWeight} {shapes : List (List Nat)} {m numByzantine : Int}

/-- The aggregate of the clients when they are added in the order of the list. -/
def aggregateAll (m numByzantine : Int) (clients : List ClientWeight) : Option ClientWeight :=
  (clients.foldlM MultiKrumAggregator.addClientWeight (.new m)).bind
    (·.aggregate stableArgsort numByzantine)

/-- A stable sort of the positions sorts the clients. -/
theorem stableArgsort_map (score : ClientWeight → ℚ) (clients : List ClientWeight) :
    (stableArgsort (clients.map score)).map (clients.getD · []) = sortBy score clients := by
  have agree : ∀ first ∈ List.range clients.length, ∀ second ∈ List.range clients.length,
      (clients.map score).getD first 0 ≤ (clients.map score).getD second 0 ↔
        score (clients.getD first []) ≤ score (clients.getD second []) := by
    intro first member second member'
    have inRange := List.mem_range.mp member
    have inRange' := List.mem_range.mp member'
    simp [List.getElem?_eq_getElem inRange, List.getElem?_eq_getElem inRange']
  rw [stableArgsort, List.length_map,
    List.map_insertionSort _ (fun first second => score first ≤ score second) _ _ agree,
    map_getD_range, sortBy]

/-- The aggregate is the mean of the closest clients. -/
theorem aggregateAll_eq (shaped : EqualShapes shapes clients) (some_client : clients ≠ [])
    (layered : shapes ≠ []) :
    aggregateAll m numByzantine clients = layerMeans shapes.length
      (select (closeness clients numByzantine) (numSelected m clients.length) clients) := by
  rw [aggregateAll, MultiKrumAggregator.addAll shaped, if_neg some_client, Option.bind_some,
    MultiKrumAggregator.aggregate_eq stableArgsort_sorts m numByzantine shaped some_client layered,
    closest, List.map_take, stableArgsort_map, select]

/-- Clients without layers have no aggregate, and no clients have none. -/
theorem aggregateAll_eq_none (shaped : EqualShapes shapes clients)
    (missing : clients = [] ∨ shapes = []) : aggregateAll m numByzantine clients = none := by
  have empty : (if clients = [] then [] else layersOf shapes.length clients) = [] := by
    rcases missing with rfl | rfl <;> simp [layersOf]
  rw [aggregateAll, MultiKrumAggregator.addAll shaped, empty]
  rfl

/-- Clients across the cut with the same closeness are equal. -/
def Untied (m numByzantine : Int) (clients : List ClientWeight) : Prop :=
  ∀ first ∈ clients, ∀ second ∈ clients,
    closeness clients numByzantine first = closeness clients numByzantine second →
      Straddles (closeness clients numByzantine) (numSelected m clients.length) clients first →
        first = second

instance : Decidable (Untied m numByzantine clients) :=
  inferInstanceAs (Decidable (∀ first ∈ clients, ∀ second ∈ clients, _))

/-- An order of the clients selects from them by the same closeness. -/
theorem aggregateAll_perm (shaped : EqualShapes shapes clients) (some_client : clients ≠ [])
    (layered : shapes ≠ []) (same : others.Perm clients) :
    aggregateAll m numByzantine others = layerMeans shapes.length
      (select (closeness clients numByzantine) (numSelected m clients.length) others) := by
  have some_other : others ≠ [] := by
    rintro rfl
    exact some_client same.nil_eq.symm
  rw [aggregateAll_eq (shaped.perm same) some_other layered, closeness_perm same, same.length_eq]

/-- Selected clients have the shapes of all. -/
theorem EqualShapes.select (shaped : EqualShapes shapes clients) {score : ClientWeight → ℚ}
    {count : Nat} : EqualShapes shapes (select score count clients) :=
  fun client member => shaped client (mem_sortBy.mp (List.mem_of_mem_take member))

/-- Without a tie across the cut the order of the clients does not matter. -/
theorem aggregateAll_of_untied (shaped : EqualShapes shapes clients)
    (untied : Untied m numByzantine clients) (same : others.Perm clients) :
    aggregateAll m numByzantine others = aggregateAll m numByzantine clients := by
  by_cases missing : clients = [] ∨ shapes = []
  · have missing' : others = [] ∨ shapes = [] :=
      missing.imp_left fun none => (none ▸ same).eq_nil
    rw [aggregateAll_eq_none shaped missing, aggregateAll_eq_none (shaped.perm same) missing']
  · obtain ⟨some_client, layered⟩ := not_or.mp missing
    rw [aggregateAll_perm shaped some_client layered same,
      aggregateAll_eq shaped some_client layered]
    exact layerMeans_perm shaped.select (select_perm same untied)

/-- A tie across the cut between different clients is broken by their order. -/
theorem untied_of_aggregateAll (shaped : EqualShapes shapes clients)
    (ordered : ∀ others, others.Perm clients →
      aggregateAll m numByzantine others = aggregateAll m numByzantine clients) :
    Untied m numByzantine clients := by
  intro first member second member' equal straddles
  by_contra distinct
  have some_client : clients ≠ [] := List.ne_nil_of_mem member
  have layered : shapes ≠ [] := by
    rintro rfl
    have empty := List.map_eq_nil_iff.mp (shaped first member)
    exact distinct (empty.trans (List.map_eq_nil_iff.mp (shaped second member')).symm)
  obtain ⟨one, other, common, same, same', taken, taken'⟩ :=
    select_exchange member member' distinct equal straddles
  have results := (ordered one same).trans (ordered other same').symm
  rw [aggregateAll_perm shaped some_client layered same,
    aggregateAll_perm shaped some_client layered same',
    ← layerMeans_perm ((shaped.perm same).select) taken.symm,
    ← layerMeans_perm ((shaped.perm same').select) taken'.symm] at results
  exact distinct (layerMeans_cons_injective ((shaped.perm same).select.perm taken.symm)
    ((shaped.perm same').select.perm taken'.symm) results)

end Orders

section Trainers

variable {clients : List ClientWeight} {shapes : List (List Nat)} {m numByzantine : Int}
  {deserialize : List UInt8 → Option ClientWeight} {initial : ClientWeight}

/-- The entries are those of the map, each name once, in some order. -/
structure Iterates (wLast : ClientWeights) (entries : List (String × List UInt8)) : Prop where
  nodup : (entries.map Prod.fst).Nodup
  mem_iff : ∀ name weights, (name, weights) ∈ entries ↔ wLast name = some weights

/-- Two iterations over one map are permutations of each other. -/
theorem Iterates.perm {wLast : ClientWeights} {entries others : List (String × List UInt8)}
    (iterates : Iterates wLast entries) (iterates' : Iterates wLast others) :
    others.Perm entries := by
  rw [List.perm_ext_iff_of_nodup (List.Nodup.of_map _ iterates'.nodup)
    (List.Nodup.of_map _ iterates.nodup)]
  intro entry
  exact (iterates'.mem_iff entry.1 entry.2).trans (iterates.mem_iff entry.1 entry.2).symm

/-- The trainer is between two aggregations, and its model has the layers of the clients. -/
structure Trainer.Ready (trainer : Trainer) (m numByzantine : Int) (shapes : List (List Nat))
    (initial : ClientWeight) : Prop where
  agg : trainer.agg = .new m
  numByzantine : trainer.numByzantine = numByzantine
  model : trainer.model.map NDArray.shape = shapes
  initTrainableWeights : trainer.initTrainableWeights = initial
  initial : initial.map NDArray.shape = shapes

/-- Arrays with the shapes of the model replace all of it. -/
theorem setTrainableWeights_eq_some {model arrays : ClientWeight}
    (shape : arrays.map NDArray.shape = model.map NDArray.shape) :
    setTrainableWeights model arrays = some arrays := by
  induction model generalizing arrays with
  | nil =>
    rw [List.map_nil, List.map_eq_nil_iff] at shape
    rw [shape]
    rfl
  | cons weight weights ih =>
    cases arrays with
    | nil => simp at shape
    | cons array arrays =>
      obtain ⟨same, rest⟩ := List.cons.inj shape
      rw [setTrainableWeights, if_pos same, ih rest]
      rfl

/-- The aggregate has the layers of the clients. -/
theorem aggregateAll_shapes (shaped : EqualShapes shapes clients) {result : ClientWeight}
    (found : aggregateAll m numByzantine clients = some result) :
    result.map NDArray.shape = shapes := by
  by_cases missing : clients = [] ∨ shapes = []
  · rw [aggregateAll_eq_none shaped missing] at found
    cases found
  · obtain ⟨some_client, layered⟩ := not_or.mp missing
    rw [aggregateAll_eq shaped some_client layered] at found
    cases taken : select (closeness clients numByzantine) (numSelected m clients.length) clients with
    | nil =>
      cases shapes with
      | nil => exact absurd rfl layered
      | cons shape shapes =>
        rw [taken, layerMeans, List.length_cons, List.range_succ_eq_map, List.mapM_cons] at found
        cases found
    | cons first rest =>
      have chosen : EqualShapes shapes (first :: rest) := taken ▸ shaped.select
      obtain ⟨mean, averaged, meanOf⟩ := layerMeans_eq_some chosen (List.cons_ne_nil _ _)
      rw [taken, averaged] at found
      cases found
      exact meanOf.shapes

/-- The decoded weights are added like those of the clients. -/
theorem Trainer.foldlM_decoded {entries : List (String × List UInt8)}
    (decoded : entries.map (deserialize ·.2) = clients.map some) (agg : MultiKrumAggregator) :
    (entries.foldlM (fun agg entry => do
      let clientWeights ← deserialize entry.2
      agg.addClientWeight clientWeights) agg) =
        clients.foldlM MultiKrumAggregator.addClientWeight agg := by
  let addDecoded (agg : MultiKrumAggregator) (weights : Option ClientWeight) :=
    weights.bind agg.addClientWeight
  calc
    _ = (entries.map (deserialize ·.2)).foldlM addDecoded agg := List.foldlM_map.symm
    _ = (clients.map some).foldlM addDecoded agg := by rw [decoded]
    _ = clients.foldlM MultiKrumAggregator.addClientWeight agg := List.foldlM_map

/-- Entries in another order are decoded to the clients in another order. -/
theorem exists_decodings {entries others : List (String × List UInt8)}
    (decoded : entries.map (deserialize ·.2) = clients.map some) (same : others.Perm entries) :
    ∃ decodings : List ClientWeight,
      others.map (deserialize ·.2) = decodings.map some ∧ decodings.Perm clients := by
  have values : entries.map (fun entry => (deserialize entry.2).getD []) = clients := by
    have unwrapped := congrArg (List.map (·.getD [])) decoded
    simpa [List.map_map, Function.comp_def] using unwrapped
  refine ⟨others.map fun entry => (deserialize entry.2).getD [], ?_, ?_⟩
  · rw [List.map_map]
    apply List.map_congr_left
    intro entry member
    have found : deserialize entry.2 ∈ clients.map some :=
      decoded ▸ List.mem_map_of_mem (same.mem_iff.mp member)
    obtain ⟨client, _, equal⟩ := List.mem_map.mp found
    simp [← equal]
  · rw [← values]
    exact same.map _

/-- The trainer sets the aggregate of the clients. -/
theorem Trainer.aggregateWeights_model {trainer : Trainer} {entries : List (String × List UInt8)}
    (ready : trainer.Ready m numByzantine shapes initial) (shaped : EqualShapes shapes clients)
    (decoded : entries.map (deserialize ·.2) = clients.map some) :
    (trainer.aggregateWeights stableArgsort deserialize entries).map Trainer.model =
      if entries = [] then some initial else aggregateAll m numByzantine clients := by
  rw [Trainer.aggregateWeights]
  by_cases empty : entries = []
  · have replaced : setTrainableWeights trainer.model trainer.initTrainableWeights =
        some initial := by
      rw [ready.initTrainableWeights]
      exact setTrainableWeights_eq_some (ready.initial.trans ready.model.symm)
    simp [empty, replaced]
  · rw [if_neg (by simpa using empty), if_neg empty, Trainer.foldlM_decoded decoded, ready.agg,
      ready.numByzantine, aggregateAll]
    cases added : clients.foldlM MultiKrumAggregator.addClientWeight (.new m) with
    | none => rfl
    | some agg =>
      cases found : agg.aggregate stableArgsort numByzantine with
      | none => simp [found]
      | some result =>
        have shape : result.map NDArray.shape = shapes := by
          apply aggregateAll_shapes (m := m) shaped
          rw [aggregateAll, added]
          exact found
        have replaced := setTrainableWeights_eq_some (shape.trans ready.model.symm)
        simp [found, replaced]

namespace MultiKrumAggregator

/-- The order of the clients does not matter to the aggregate and to the models that the trainers
set exactly when no tie between different clients is at the cut. -/
theorem order_iff_untied (m numByzantine : Int) (shaped : EqualShapes shapes clients) :
    ((∀ others, others.Perm clients →
        aggregateAll m numByzantine others = aggregateAll m numByzantine clients) ∧
      ∀ (deserialize : List UInt8 → Option ClientWeight) (wLast : ClientWeights)
        (entries others : List (String × List UInt8)) (initial : ClientWeight)
        (trainer peer : Trainer), Iterates wLast entries → Iterates wLast others →
        entries.map (deserialize ·.2) = clients.map some →
        trainer.Ready m numByzantine shapes initial → peer.Ready m numByzantine shapes initial →
        (trainer.aggregateWeights stableArgsort deserialize entries).map Trainer.model =
          (peer.aggregateWeights stableArgsort deserialize others).map Trainer.model) ↔
      Untied m numByzantine clients := by
  constructor
  · rintro ⟨ordered, _⟩
    exact untied_of_aggregateAll shaped ordered
  · intro untied
    refine ⟨fun others same => aggregateAll_of_untied shaped untied same, ?_⟩
    intro deserialize wLast entries others initial trainer peer iterates iterates' decoded ready
      ready'
    have same := iterates.perm iterates'
    obtain ⟨decodings, decoded', same'⟩ := exists_decodings decoded same
    have empty : others = [] ↔ entries = [] := by
      rw [← List.length_eq_zero_iff, same.length_eq, List.length_eq_zero_iff]
    rw [Trainer.aggregateWeights_model ready shaped decoded,
      Trainer.aggregateWeights_model ready' (shaped.perm same') decoded',
      aggregateAll_of_untied shaped untied same']
    simp [empty]

end MultiKrumAggregator

end Trainers

namespace Plain

/-- Three equally close clients of four are all averaged, in either order. -/
theorem order_iff_untied_three :
    aggregateAll 3 1 ([100, 2, 1, 0].map scalar) = aggregateAll 3 1 ([0, 1, 2, 100].map scalar) :=
  ((MultiKrumAggregator.order_iff_untied 3 1 (scalar_shapes [0, 1, 2, 100])).mpr
    (by decide +kernel)).1 _ (by decide +kernel)

/-- A client that starts with the weight one. -/
def trainer : Trainer := ⟨scalar 1, KrumAggregator.new, 1, scalar 1⟩

/-- A weight is written as one byte. -/
def decodeByte : List UInt8 → Option ClientWeight
  | [byte] => some (scalar byte.toNat)
  | _ => none

/-- The weights of four clients, where the first two are nearest to each other. -/
def fourWeights : List (String × List UInt8) := [("a", [0]), ("b", [1]), ("c", [10]), ("d", [20])]

/-- The two nearest clients are equally close, and the one that comes first is selected. -/
theorem order_selects :
    ([1, 0, 10, 20].map scalar).Perm ([0, 1, 10, 20].map scalar) ∧
      aggregateAll 1 1 ([0, 1, 10, 20].map scalar) = some (scalar 0) ∧
      aggregateAll 1 1 ([1, 0, 10, 20].map scalar) = some (scalar 1) ∧
      (trainer.aggregateWeights stableArgsort decodeByte fourWeights).map Trainer.model =
        some (scalar 0) ∧
      (trainer.aggregateWeights stableArgsort decodeByte fourWeights.reverse).map Trainer.model =
        some (scalar 1) := by
  decide +kernel

end Plain

end DeflHotstuff
