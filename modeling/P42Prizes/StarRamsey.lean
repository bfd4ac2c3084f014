import Mathlib.Combinatorics.SimpleGraph.Basic
import P42Prizes.VerifierInput

/-! # The C4-star-Ramsey verifier

A witness is a graph on `vertices` vertices.  The verifier asks that every vertex has a degree of at least
`vertices - 17` and that no two vertices have two common neighbours; it admits at most 22 vertices. -/

namespace P42Prizes.StarRamsey

open Reverting Verifier
export Verifier (Bytes)

def N : ℕ := 17
def minVertices : ℕ := 1
def maxVertices : ℕ := 22
def maxEdges : ℕ := maxVertices * (maxVertices - 1) / 2
def maxSolutionBytes : ℕ := 16384

abbrev Edge := ℕ × ℕ

/-! ### Parsing -/

def allowedFields : List String := ["vertices", "edges", "source", "claimed_score", "claimed_improvement"]

/-- `0 <= u < vertices` -/
def InRange (vertices u : ℤ) : Prop := 0 ≤ u ∧ u < vertices

instance (vertices u : ℤ) : Decidable (InRange vertices u) := inferInstanceAs (Decidable (_ ∧ _))

/-- One round of the loop over the raw edges. -/
def parseEdge (vertices : ℤ) (index : ℕ) (edges : List Edge) (rawEdge : Json) :
    Except VerifierFailure Edge :=
  match rawEdge with
  | .list [rawU, rawV] => do
      let u ← requireInt (some rawU) s!"edges[{index}][0]"
      let v ← requireInt (some rawV) s!"edges[{index}][1]"
      revertIf (¬ InRange vertices u ∨ ¬ InRange vertices v)
        ⟨"VERTEX_RANGE", s!"edges[{index}] endpoints must satisfy 0 <= endpoint < vertices"⟩
      revertIf (u = v) ⟨"SELF_LOOP", s!"edges[{index}] is a self-loop"⟩
      let edge := ((min u v).toNat, (max u v).toNat)
      revertIf (edge ∈ edges) ⟨"DUPLICATE_EDGE", s!"edges[{index}] duplicates {edge}"⟩
      return edge
  | _ => .error ⟨"EDGE_SIZE", s!"edges[{index}] must contain two vertices"⟩

/-- The loop over the raw edges, from an index on, after the edges that it has seen. -/
def parseEdges (vertices : ℤ) : ℕ → List Edge → List Json → Except VerifierFailure (List Edge)
  | _, edges, [] => .ok edges
  | index, edges, rawEdge :: rawEdges => do
      let edge ← parseEdge vertices index edges rawEdge
      parseEdges vertices (index + 1) (edges ++ [edge]) rawEdges

def parseSolution (loads : Bytes → Except String Json) (raw : Bytes) :
    Except VerifierFailure (ℕ × List Edge) := do
  let data ← loadObject loads maxSolutionBytes raw
  let unknownFields := ((data.map Prod.fst).filter (· ∉ allowedFields)).insertionSort (· ≤ ·)
  match unknownFields with
  | field :: _ => .error ⟨"MALFORMED", s!"unknown solution field: {field}"⟩
  | [] =>
      let vertices ← requireInt (data.lookup "vertices") "vertices"
      revertIf (vertices < minVertices ∨ vertices > maxVertices)
        ⟨"VERTEX_COUNT_RANGE", s!"vertices must satisfy {minVertices} <= vertices <= {maxVertices}"⟩
      match data.lookup "edges" with
      | some (.list rawEdges) =>
          revertIf (rawEdges.length > maxEdges) ⟨"EDGE_COUNT_RANGE", s!"at most {maxEdges} edges are allowed"⟩
          let edges ← parseEdges vertices 0 [] rawEdges
          return (vertices.toNat, edges)
      | _ => .error ⟨"MALFORMED", "edges must be an array"⟩

/-! ### Checking -/

/-- The sets of neighbours, after the loop over the edges. -/
def adjacency (vertices : ℕ) (edges : List Edge) : List (Finset ℕ) :=
  edges.foldl (fun adjacency edge =>
      (adjacency.modify edge.1 (insert edge.2)).modify edge.2 (insert edge.1))
    (List.replicate vertices ∅)

/-- `min(values)` of a list that is not empty -/
def listMin : List ℕ → ℕ
  | [] => 0
  | value :: values => values.foldl min value

structure Details where
  edgeCount : ℕ
  maximumCodegree : ℕ
  minimumDegree : ℕ
  pairsChecked : ℕ
  requiredMinimumDegree : ℤ
  vertices : ℕ
deriving DecidableEq, Repr

/-- The pairs in the order of the two loops. -/
def pairs (vertices : ℕ) : List (ℕ × ℕ) :=
  (List.range vertices).flatMap fun u => (List.range' (u + 1) (vertices - (u + 1))).map fun v => (u, v)

/-- The loop over the pairs: the number of pairs and the largest codegree so far. -/
def checkPairs (neighbors : List (Finset ℕ)) : List (ℕ × ℕ) → ℕ × ℕ → Except VerifierFailure (ℕ × ℕ)
  | [], sums => .ok sums
  | (u, v) :: rest, sums => do
      let codegree := (neighbors.getD u ∅ ∩ neighbors.getD v ∅).card
      revertIf (codegree > 1) ⟨"CONTAINS_C4", s!"vertices {u} and {v} have codegree {codegree}"⟩
      checkPairs neighbors rest (sums.1 + 1, max sums.2 codegree)

def checkGraph (vertices : ℕ) (edges : List Edge) : Except VerifierFailure Details := do
  let neighbors := adjacency vertices edges
  let minimumDegree := listMin (neighbors.map Finset.card)
  let requiredDegree : ℤ := vertices - N
  let vertex := neighbors.findIdx fun set => (set.card : ℤ) < requiredDegree
  let degree := (neighbors.getD vertex ∅).card
  revertIf ((minimumDegree : ℤ) < requiredDegree)
    ⟨"MIN_DEGREE", s!"vertex {vertex} has degree {degree}; required >= {requiredDegree}"⟩
  let (pairsChecked, maximumCodegree) ← checkPairs neighbors (pairs vertices) (0, 0)
  return {
    edgeCount := edges.length
    maximumCodegree := maximumCodegree
    minimumDegree := minimumDegree
    pairsChecked := pairsChecked
    requiredMinimumDegree := requiredDegree
    vertices := vertices }

end P42Prizes.StarRamsey
