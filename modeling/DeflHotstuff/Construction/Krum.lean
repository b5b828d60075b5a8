import DeflHotstuff.Construction.Databank
import Mathlib.Algebra.Order.Ring.Rat
import Mathlib.Data.List.Sort

namespace DeflHotstuff

/-- An array of `numpy` over exact rationals, its data in row order. -/
structure NDArray where
  shape : List Nat
  data : List ℚ
  sized : data.length = shape.prod
  deriving DecidableEq

instance : Inhabited NDArray := ⟨⟨[0], [], rfl⟩⟩

/-- The trainable weights of a model, layer by layer. -/
abbrev ClientWeight := List NDArray

/-- Items stack only when there are some and their sizes agree. -/
def stackBy {Item Size : Type} [DecidableEq Size] (size : Item → Size) :
    List Item → Option (List Item)
  | [] => none
  | first :: rest => if rest.all (size · = size first) then some (first :: rest) else none

/-- The slice `items[:stop]`, where a negative stop counts from the end. -/
def upTo {Item : Type} (stop : Int) (items : List Item) : List Item :=
  items.take (if stop < 0 then items.length + stop else stop).toNat

namespace NDArray

def stack (arrays : List NDArray) : Option (List NDArray) := stackBy shape arrays

/-- The mean over the first axis. That of no row is `nan`, which no rational is. -/
def mean : List NDArray → Option NDArray
  | [] => none
  | first :: rest => some {
      shape := first.shape
      data := (List.range first.data.length).map fun position =>
        ((first :: rest).map (·.data.getD position 0)).sum / (first :: rest).length
      sized := by simp [first.sized] }

end NDArray

def vstack (rows : List (List ℚ)) : Option (List (List ℚ)) := stackBy List.length rows

/-- `np.square(first - second).sum()` -/
def squaredDistance (first second : List ℚ) : ℚ :=
  (List.zipWith (fun left right => (left - right) ^ 2) first second).sum

/-- One entry of a matrix is assigned. -/
def setEntry (matrix : Nat → Nat → ℚ) (row column : Nat) (value : ℚ) : Nat → Nat → ℚ :=
  fun i j => if i = row ∧ j = column then value else matrix i j

/-- The sorting permutation of `np.argsort` when it breaks ties by position. -/
def stableArgsort (scores : List ℚ) : List Nat :=
  (List.range scores.length).insertionSort fun first second =>
    scores.getD first 0 ≤ scores.getD second 0

structure MultiKrumAggregator where
  m : Int
  layersWeight : List (List NDArray)
  deriving DecidableEq

namespace MultiKrumAggregator

def new (m : Int) : MultiKrumAggregator := ⟨m, []⟩

def clearAggregator (aggregator : MultiKrumAggregator) : MultiKrumAggregator :=
  { aggregator with layersWeight := [] }

/-- Each array of the client goes to its layer, and there is no layer for a further one. -/
def appendLayers : List (List NDArray) → ClientWeight → Option (List (List NDArray))
  | layers, [] => some layers
  | [], _ :: _ => none
  | layer :: layers, delta :: deltas =>
      (appendLayers layers deltas).map fun appended => (layer ++ [delta]) :: appended

def addClientWeight (aggregator : MultiKrumAggregator) (clientWeight : ClientWeight) :
    Option MultiKrumAggregator :=
  let layers := if aggregator.layersWeight.isEmpty then clientWeight.map fun _ => []
    else aggregator.layersWeight
  (appendLayers layers clientWeight).map fun layersWeight => { aggregator with layersWeight }

/-- The arrays of one client are flattened and concatenated. -/
def clientData (aggregator : MultiKrumAggregator) (clientIndex : Nat) : Option (List ℚ) :=
  (aggregator.layersWeight.mapM fun layer => layer[clientIndex]?).map (·.flatMap NDArray.data)

/-- The distance of two clients is assigned to both of its entries. -/
def assignPair (deltas : List (List ℚ)) (distances : Nat → Nat → ℚ) (i j : Nat) : Nat → Nat → ℚ :=
  let assigned := setEntry distances i j (squaredDistance (deltas.getD i []) (deltas.getD j []))
  setEntry assigned j i (assigned i j)

/-- Each pair of clients is visited once, the smaller index first. -/
def distances (deltas : List (List ℚ)) (numClients : Nat) : Nat → Nat → ℚ :=
  (List.range numClients).foldl (fun distances i =>
    (List.range' (i + 1) (numClients - (i + 1))).foldl (assignPair deltas · i ·) distances)
    fun _ _ => 0

/-- Each column is sorted, and its first `k + 1` entries are added. -/
def clientScore (distances : Nat → Nat → ℚ) (numClients : Nat) (k : Int) : List ℚ :=
  (List.range numClients).map fun client =>
    (upTo (k + 1) (((List.range numClients).map (distances · client)).insertionSort (· ≤ ·))).sum

def bestClients (argsort : List ℚ → List Nat) (aggregator : MultiKrumAggregator)
    (numByzantine : Int) : Option (List Nat) := do
  let numClients ← aggregator.layersWeight.head?.map List.length
  let k := max 1 ((numClients : Int) - numByzantine - 2)
  let flattenedDeltas ← (List.range numClients).mapM aggregator.clientData
  let deltas ← vstack flattenedDeltas
  let scores := clientScore (distances deltas numClients) numClients k
  return upTo (min aggregator.m numClients) (argsort scores)

def aggregate (argsort : List ℚ → List Nat) (aggregator : MultiKrumAggregator)
    (numByzantine : Int) : Option ClientWeight := do
  let best ← aggregator.bestClients argsort numByzantine
  aggregator.layersWeight.mapM fun layer => do
    let stacked ← NDArray.stack layer
    let rows ← best.mapM fun client => stacked[client]?
    NDArray.mean rows

end MultiKrumAggregator

def KrumAggregator.new : MultiKrumAggregator := .new 1

structure Trainer where
  model : ClientWeight
  agg : MultiKrumAggregator
  numByzantine : Int
  initTrainableWeights : ClientWeight

/-- The variables take the arrays of their shapes, as far as there are both. -/
def setTrainableWeights : ClientWeight → List NDArray → Option ClientWeight
  | weight :: weights, array :: arrays =>
      if array.shape = weight.shape then
        (setTrainableWeights weights arrays).map (array :: ·)
      else none
  | weights, _ => some weights

namespace Trainer

/-- The weights come in the order in which the client iterates over the map. -/
def aggregateWeights (argsort : List ℚ → List Nat)
    (deserialize : List UInt8 → Option ClientWeight) (trainer : Trainer)
    (weights : List (String × List UInt8)) : Option Trainer :=
  if weights.isEmpty then
    (setTrainableWeights trainer.model trainer.initTrainableWeights).map fun model =>
      { trainer with model }
  else do
    let agg ← weights.foldlM (fun agg entry => do
      let clientWeights ← deserialize entry.2
      agg.addClientWeight clientWeights) trainer.agg
    let wAgg ← agg.aggregate argsort trainer.numByzantine
    let model ← setTrainableWeights trainer.model wAgg
    return { trainer with model, agg := agg.clearAggregator }

end Trainer

end DeflHotstuff
