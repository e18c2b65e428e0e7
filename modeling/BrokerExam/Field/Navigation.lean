/-
BrokerExam/Field/Navigation.lean

Moving between paths.  A path is below another when the other is a proper
prefix of it; the paths in between are listed nearest first or outermost first.
-/
import BrokerExam.Fault

namespace BrokerExam.FieldPath

/-- The segment that names the field itself. -/
def lastSegment (p : FieldPath) : Except Fault String :=
  match p.segments.getLast? with
  | some segment => .ok segment
  | none => .error .rootHasNoSegment

/-- Whether `p` lies strictly below `other`. -/
def isDescendantOf (p other : FieldPath) : Bool :=
  other.depth < p.depth && other.segments.isPrefixOf p.segments

/-- Whether two paths other than the root have one parent. -/
def isSiblingOf (p other : FieldPath) : Bool :=
  !p.isRoot && !other.isRoot && p.parent == other.parent

/-- The longest list that both lists begin with. -/
def commonPrefix : List String → List String → List String
  | a :: as, b :: bs => if a = b then a :: commonPrefix as bs else []
  | _, _ => []

/-- The longest path that neither path leaves. -/
def commonAncestor (p other : FieldPath) : FieldPath :=
  ⟨commonPrefix p.segments other.segments⟩

/-- The paths on the way up, from `p` to its parent and the parent of that and so on, until `other`
is reached; at most `steps` of them. -/
def climb (other : FieldPath) : (steps : Nat) → (p : FieldPath) → List FieldPath
  | 0, _ => []
  | steps + 1, p => if p = other then [] else p :: climb other steps p.parent

/-- The paths strictly between `p` and a path above it, nearest first.  There are fewer of them than
`p` has segments. -/
def ancestorsUntil (p other : FieldPath) : Except Fault (List FieldPath) :=
  if p.isDescendantOf other then .ok (climb other p.depth p.parent)
  else .error (.notDescendant p other)

/-- The paths strictly between `p` and a path below it, outermost first. -/
def descendantsUntil (p other : FieldPath) : Except Fault (List FieldPath) :=
  match other.ancestorsUntil p with
  | .ok between => .ok between.reverse
  | .error e => .error e

end BrokerExam.FieldPath
