/-
BrokerExam/Text/Similarity.lean

How similar two names are, and which of some names are meant by a misspelt one.
The measure is Jaro's: the share of characters that both have at about the same
place, less the share of those that stand in another order.
-/
namespace BrokerExam.Similarity

/-- The places of equal characters, in the order of the first text; each place is used once.
Characters further apart than `window` do not count. -/
def pairs (window : Nat) (b : List Char) : (i : Nat) → List Char → (used : List Nat) →
    List (Char × Nat)
  | _, [], _ => []
  | i, c :: cs, used =>
    let isFree (j : Nat) : Bool := i ≤ j + window && b[j]? = some c && !used.contains j
    match (List.range (i + window + 1)).find? isFree with
    | some j => (c, j) :: pairs window b (i + 1) cs (j :: used)
    | none => pairs window b (i + 1) cs used

/-- From zero, for nothing in common, to one, for equal texts.  It is measured in double precision:
of two scores that differ by the rounding only, one is still the higher. -/
def score (a b : List Char) : Float :=
  if a = [] ∧ b = [] then 1
  else
    let found := pairs (max a.length b.length / 2 - 1) b 0 a []
    if found = [] then 0
    else
      let other := (found.map (·.2)).mergeSort.filterMap (b[·]?)
      let moved := ((found.map (·.1)).zip other).countP fun (x, y) => x ≠ y
      let count := found.length.toFloat
      let inOrder := (found.length - moved / 2).toFloat
      (count / a.length.toFloat + count / b.length.toFloat + inOrder / count) / 3

/-- The names that may be meant, the most similar one last. -/
def suggestions (name : String) (names : List String) : List String :=
  let scored := names.map fun n => (score name.toList n.toList, n)
  ((scored.filter fun (s, _) => 0.7 < s).mergeSort fun x y => x.1 ≤ y.1).map (·.2)

end BrokerExam.Similarity
