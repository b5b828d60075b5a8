import DeflHotstuff.Construction.Krum
import Mathlib.Data.Rat.Floor

namespace DeflHotstuff

/-- The slice `items[start:stop]`, where negative bounds count from the end. -/
def slice {Item : Type} (start stop : Int) (items : List Item) : List Item :=
  (upTo stop items).drop (if start < 0 then items.length + start else start).toNat

namespace NDArray

/-- The entries of the arrays at one position. -/
def column (arrays : List NDArray) (position : Nat) : List ℚ :=
  arrays.map (·.data.getD position 0)

/-- `np.sort(arrays, axis=0)` sorts the entries of each position on their own. -/
def sort : List NDArray → List NDArray
  | [] => []
  | first :: rest => (List.range (first :: rest).length).map fun row => {
      shape := first.shape
      data := (List.range first.data.length).map fun position =>
        ((column (first :: rest) position).insertionSort (· ≤ ·)).getD row 0
      sized := by simp [first.sized] }

/-- `np.median(arrays, axis=0)` is the mean of the middle entry or of the two middle ones. -/
def median (arrays : List NDArray) : Option NDArray :=
  let index := arrays.length / 2
  let start := if arrays.length % 2 = 0 then index - 1 else index
  mean (((sort arrays).take (index + 1)).drop start)

end NDArray

/-- What an aggregator computes from its layers and the number of Byzantine clients. The layers grow
as in `MultiKrumAggregator`, since the method is inherited by all. -/
abbrev Average := List (List NDArray) → Int → Option ClientWeight

/-- Each layer becomes one array and is reduced along its first axis. -/
def reduceLayers (reduce : List NDArray → Option NDArray) (layersWeight : List (List NDArray)) :
    Option ClientWeight :=
  layersWeight.mapM fun layer => do
    let stacked ← NDArray.stack layer
    reduce stacked

def FedAvgAggregator.aggregate : Average := fun layersWeight _ =>
  reduceLayers NDArray.mean layersWeight

def MedianAggregator.aggregate : Average := fun layersWeight _ =>
  reduceLayers NDArray.median layersWeight

namespace TrimmedMeanAggregator

/-- The slice leaves out half of the excluded clients on each side. It is of one client where the
bounds meet. -/
def bounds (numClients : Nat) (numByzantine : Int) : Int × Int :=
  let beta : ℚ := numByzantine / numClients
  let exclusions := round (2 * beta * numClients)
  let low := exclusions / 2
  let high := numClients - (exclusions / 2 + exclusions % 2)
  (low, if low = high then min numClients (high + 1) else high)

def aggregate : Average := fun layersWeight numByzantine => do
  let numClients ← layersWeight.head?.map List.length
  if numClients = 0 then none
  else
    let (low, high) := bounds numClients numByzantine
    reduceLayers (fun stacked => NDArray.mean (slice low high (NDArray.sort stacked))) layersWeight

end TrimmedMeanAggregator

/-- The trainer with another aggregator in the place of Krum. -/
def Trainer.averageWeights (average : Average) (deserialize : List UInt8 → Option ClientWeight)
    (trainer : Trainer) (weights : List (String × List UInt8)) : Option Trainer :=
  if weights.isEmpty then
    (setTrainableWeights trainer.model trainer.initTrainableWeights).map fun model =>
      { trainer with model }
  else do
    let agg ← weights.foldlM (fun agg entry => do
      let clientWeights ← deserialize entry.2
      agg.addClientWeight clientWeights) trainer.agg
    let wAgg ← average agg.layersWeight trainer.numByzantine
    let model ← setTrainableWeights trainer.model wAgg
    return { trainer with model, agg := agg.clearAggregator }

end DeflHotstuff
