/-
BrokerExam/Report/Tree.lean

A list of fields as an indented tree.

    - ApiVersionsResponse
      - Header
        - CorrelationID (7)
      - Body
        ❌ ErrorCode (35)

The nodes between the fields are made up from their paths, so the fields must be
in the order of the wire.  A pen remembers the path it wrote last and the indent
it stopped at; from there it leads to the next path by the common ancestor of
the two.
-/
import BrokerExam.Field.Basic
import BrokerExam.Field.Navigation

namespace BrokerExam.Tree

structure Pen where
  indent : Nat := 0
  last : FieldPath := FieldPath.root
  lines : Array String := #[]
  deriving DecidableEq, Repr

namespace Pen

/-- Writes a line at the indent. -/
def write (pen : Pen) (text : String) : Pen :=
  { pen with lines := pen.lines.push (String.ofList (List.replicate (2 * pen.indent) ' ') ++ text) }

/-- Writes the given paths as nodes, each one level below the one before. -/
def nodes (pen : Pen) : List FieldPath → Except Fault Pen
  | [] => .ok pen
  | p :: ps => do
    let segment ← p.lastSegment
    let pen := pen.write s!"- {segment}"
    nodes { pen with indent := pen.indent + 1 } ps

/-- Writes the nodes between the last path and `next`, which is below it. -/
def descend (pen : Pen) (next : FieldPath) : Except Fault Pen := do
  pen.nodes (← pen.last.descendantsUntil next)

/-- Writes what leads from the last path to `next`.  A path that encloses the last one is written
where its own parent left off. -/
def leadTo (pen : Pen) (next : FieldPath) : Except Fault Pen :=
  if next.isRoot || next.isSiblingOf pen.last then .ok pen
  else if next.isDescendantOf pen.last then pen.descend next
  else
    let common := next.commonAncestor pen.last
    if common = next then .ok { pen with indent := next.depth - 1, last := next }
    else descend { pen with indent := common.depth, last := common } next

/-- Writes one line for the path, with its last segment after `marker` and `shown` in brackets. -/
def mark (pen : Pen) (marker : String) (path : FieldPath) (shown : String) : Except Fault Pen := do
  let pen ← pen.leadTo path
  let segment ← path.lastSegment
  return pen.write s!"{marker} {segment} ({shown})"

def leaf (pen : Pen) (f : Field) : Except Fault Pen := do
  let pen ← pen.mark "-" f.path f.value.display
  return { pen with last := f.path }

/-- The line of a field that failed. -/
def cross (pen : Pen) (f : Field) : Except Fault Pen := pen.mark "❌" f.path f.value.display

end Pen

/-- Writes fields up to the first one at `path`, if there is one, which is given back. -/
def upTo (path : FieldPath) (pen : Pen) : List Field → Except Fault (Pen × Option Field)
  | [] => .ok (pen, none)
  | f :: fs =>
    if f.path = path then .ok (pen, some f)
    else do upTo path (← pen.leaf f) fs

/-- Every field, a line each. -/
def lines (fields : List Field) : Except Fault (List String) := do
  let pen ← fields.foldlM Pen.leaf {}
  return pen.lines.toList

/-- The fields up to the one at `path`, which is marked as failed. -/
def linesForFailedField (fields : List Field) (path : FieldPath) : Except Fault (List String) := do
  match ← upTo path {} fields with
  | (pen, some f) => return (← pen.cross f).lines.toList
  | (_, none) => throw (.fieldNotFound path)

/-- The fields read before a failure, and then its path, marked.  A failure that is blamed on a
field read earlier marks that field. -/
def linesForDecodeError (fields : List Field) (path : FieldPath) : Except Fault (List String) := do
  match ← upTo path {} fields with
  | (pen, some f) => return (← pen.cross f).lines.toList
  | (pen, none) =>
    if path.isRoot then return pen.lines.toList
    else return (← pen.mark "❌" path "Decode Error").lines.toList

end BrokerExam.Tree
