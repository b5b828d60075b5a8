import DeflHotstuff.Proof.Krum

namespace DeflHotstuff

open Verification

/-- A client outside a group that is far from each client of the group. -/
def Outlier (clients : List ClientWeight) (group : Finset (Fin clients.length)) (bound : ℚ)
    (client : Fin clients.length) : Prop :=
  client ∉ group ∧ ∀ other ∈ group,
    bound < squaredDistance (flatten clients[client]) (flatten clients[other])

section Filtering

variable {clients : List ClientWeight} {group : Finset (Fin clients.length)} {distance : ℚ}
  {numByzantine : Nat}

/-- A client has the group as near neighbours when none of them is far. -/
theorem closeness_le {client : Fin clients.length}
    (size : numNeighbours clients.length numByzantine < group.card)
    (close : ∀ other ∈ group,
      squaredDistance (flatten clients[client]) (flatten clients[other]) ≤ distance) :
    closeness clients numByzantine clients[client] ≤
      numNeighbours clients.length numByzantine * distance := by
  apply sumSmallest_le
  · rw [List.mem_map]
    exact ⟨clients[client], List.getElem_mem _, squaredDistance_self _⟩
  · rw [List.countP_map]
    apply size.trans_le
    apply card_le_countP
    simpa using close

/-- An outlier has no more near neighbours than there are clients outside the group. -/
theorem lt_closeness {client : Fin clients.length} {bound : ℚ}
    (size : clients.length ≤ numNeighbours clients.length numByzantine + group.card)
    (neighbours : numNeighbours clients.length numByzantine < clients.length)
    (outlier : Outlier clients group bound client) :
    bound < closeness clients numByzantine clients[client] := by
  apply lt_sumSmallest
  · intro value member
    obtain ⟨other, _, rfl⟩ := List.mem_map.mp member
    exact squaredDistance_nonneg _ _
  · rw [List.length_map]
    exact neighbours
  · have far : group.card ≤ clients.countP fun other =>
        ¬ squaredDistance (flatten clients[client]) (flatten other) ≤ bound := by
      apply card_le_countP
      simpa using outlier.2
    have counted := clients.length_eq_countP_add_countP fun other =>
      squaredDistance (flatten clients[client]) (flatten other) ≤ bound
    rw [List.countP_map, Function.comp_def]
    simp only [decide_eq_true_eq] at counted
    omega

/-- The whole group is closer than an outlier, which leaves no place for it. -/
theorem notMem_closest {argsort : List ℚ → List Nat} (sorts : Argsorts argsort) {m : Int}
    {client : Fin clients.length} (selected : numSelected m clients.length ≤ group.card)
    (within : numNeighbours clients.length numByzantine < group.card)
    (wide : clients.length ≤ numNeighbours clients.length numByzantine + group.card)
    (few : numNeighbours clients.length numByzantine < clients.length)
    (close : ∀ client ∈ group, ∀ other ∈ group,
      squaredDistance (flatten clients[client]) (flatten clients[other]) ≤ distance)
    (outlier : Outlier clients group
      (numNeighbours clients.length numByzantine * distance) client) :
    client.val ∉ closest argsort m numByzantine clients := by
  have score (other : Fin clients.length) :
      (clients.map (closeness clients numByzantine)).getD other.val 0 =
        closeness clients numByzantine clients[other] := by
    simp
  have far := lt_closeness wide few outlier
  apply notMem_take_of_lt (group.map Fin.valEmbedding) (sorts.sorted _)
  · intro index member
    obtain ⟨other, _, rfl⟩ := Finset.mem_map.mp member
    rw [(sorts.perm _).mem_iff, List.mem_range, List.length_map]
    exact other.isLt
  · intro index member
    obtain ⟨other, inside, rfl⟩ := Finset.mem_map.mp member
    have near := closeness_le within (close other inside)
    rw [Fin.valEmbedding_apply, score, score]
    exact near.trans_lt far
  · rw [Finset.card_map]
    exact selected

namespace MultiKrumAggregator

/-- The outliers of a close group are not among the best clients, and the result is the mean of
these. -/
theorem filters_outliers {argsort : List ℚ → List Nat} (sorts : Argsorts argsort)
    {shapes : List (List Nat)} {m : Nat} (shaped : EqualShapes shapes clients)
    (layered : shapes ≠ []) (byzantine : 1 ≤ numByzantine)
    (enough : 2 * numByzantine + 2 ≤ clients.length) (positive : 1 ≤ m)
    (selected : m + numByzantine ≤ clients.length)
    (size : group.card + numByzantine = clients.length)
    (close : ∀ client ∈ group, ∀ other ∈ group,
      squaredDistance (flatten clients[client]) (flatten clients[other]) ≤ distance) :
    ∃ aggregator best result,
      clients.foldlM addClientWeight (new m) = some aggregator ∧
      aggregator.bestClients argsort numByzantine = some best ∧
      aggregator.aggregate argsort numByzantine = some result ∧
      best.Nodup ∧ best.length = m ∧ (∀ index ∈ best, index < clients.length) ∧
      (∀ client : Fin clients.length,
        Outlier clients group ((clients.length - numByzantine - 2 : Nat) * distance) client →
          client.val ∉ best) ∧
      MeanOf shapes (best.map (clients.getD · [])) result := by
  have some_client : clients ≠ [] := by
    rintro rfl
    simp at enough
  have neighbours : numNeighbours clients.length numByzantine =
      clients.length - numByzantine - 2 := by
    rw [numNeighbours]
    omega
  have selects : numSelected m clients.length = m := by
    rw [numSelected]
    omega
  have found := bestClients_eq sorts m numByzantine shaped some_client layered
  have length_best : (closest argsort m numByzantine clients).length = m := by
    rw [length_closest sorts, selects]
    omega
  have some_best : (closest argsort m numByzantine clients).map (clients.getD · []) ≠ [] := by
    rw [← List.length_pos_iff, List.length_map, length_best]
    exact positive
  have inRange : ∀ index ∈ closest argsort m numByzantine clients, index < clients.length :=
    fun _ member => lt_of_mem_closest sorts member
  obtain ⟨result, mean, averaged⟩ := layerMeans_eq_some (shaped.chosen inRange) some_best
  refine ⟨_, _, result, addAll shaped, ?_, ?_, nodup_closest sorts, length_best, inRange, ?_,
    averaged⟩
  · rw [if_neg some_client]
    exact found
  · rw [if_neg some_client, aggregate_eq sorts m numByzantine shaped some_client layered]
    exact mean
  · intro client outlier
    rw [← neighbours] at outlier
    apply notMem_closest sorts _ _ _ _ close outlier <;> omega

end MultiKrumAggregator

end Filtering

namespace Plain

/-- Of four clients with one far away, two of the others are averaged. -/
theorem filters_outliers_far :
    ∃ aggregator best,
      ([0, 1, 2, 100].map scalar).foldlM MultiKrumAggregator.addClientWeight (.new 2) =
        some aggregator ∧
      aggregator.bestClients stableArgsort 1 = some best ∧ best.length = 2 ∧ 3 ∉ best := by
  let group : Finset (Fin ([0, 1, 2, 100].map scalar).length) :=
    Finset.univ.filter fun index => index.val < 3
  obtain ⟨aggregator, best, _, added, found, _, _, size, _, filtered, _⟩ :=
    @MultiKrumAggregator.filters_outliers _ group 4 1 _ stableArgsort_sorts _ 2
      (scalar_shapes [0, 1, 2, 100]) (by decide) (by decide) (by decide) (by decide) (by decide)
      (by decide) (by decide +kernel)
  refine ⟨aggregator, best, added, found, size, filtered ⟨3, by decide⟩ ⟨by decide, ?_⟩⟩
  decide +kernel

end Plain

end DeflHotstuff
