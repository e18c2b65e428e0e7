/-
BrokerExam/Field/Path.lean

Dotted paths.  A path names a field of a message by the segments that lead to
it, as in `FetchResponse.Body.Topics.Topics[0].UUID`; the empty path is the
root.

A segment may itself hold a dot, so several paths can share one text; reading a
text always splits it at every dot (`text_parse` is the inverse direction that
does hold).
-/
import BrokerExam.Text.Split

namespace BrokerExam

structure FieldPath where
  segments : List String
  deriving DecidableEq, Repr

namespace FieldPath

def root : FieldPath := ⟨[]⟩

instance : Inhabited FieldPath := ⟨root⟩

def isRoot (p : FieldPath) : Bool := p.segments.isEmpty

def depth (p : FieldPath) : Nat := p.segments.length

def child (p : FieldPath) (segment : String) : FieldPath := ⟨p.segments ++ [segment]⟩

/-- The path without its last segment; the root is its own parent. -/
def parent (p : FieldPath) : FieldPath := ⟨p.segments.dropLast⟩

/-! ### Text -/

/-- The path that a dotted text spells. -/
def parse (dotted : String) : FieldPath :=
  if dotted = "" then root else ⟨(Text.split '.' dotted.toList).map String.ofList⟩

/-- The segments with dots between them. -/
def text (p : FieldPath) : String :=
  String.ofList (['.'].intercalate (p.segments.map String.toList))

instance : ToString FieldPath := ⟨text⟩

theorem text_parse (dotted : String) : (parse dotted).text = dotted := by
  unfold parse
  split
  · next h => subst h; rfl
  · simp only [text, List.map_map]
    have : (String.toList ∘ String.ofList) = id := by funext l; simp
    rw [this, List.map_id, Text.intercalate_split, String.ofList_toList]

end FieldPath
end BrokerExam
