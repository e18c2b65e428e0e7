/-
BrokerExam/Proofs/Report/Tree.lean

What is written in a tree.  A pen never faults on its way to a path other than
the root, and on its way it writes nothing but nodes.  So a list of fields can
always be shown, and when one of them, or a path behind all of them, has failed,
the cross in front of it is the only one in the tree and stands on its last line.

Main results: `Tree.lines_ok`, `Tree.linesForFailedField_ok` and
`Tree.linesForDecodeError_ok`.
-/
import BrokerExam.Report.Tree
import BrokerExam.Proofs.Field.Navigation

namespace BrokerExam.Tree

/-! ### Lines -/

/-- The first character of a line that is not a blank. -/
def marker (line : String) : Option Char := line.toList.find? (· ≠ ' ')

/-- Two blanks for each level. -/
def indentation (level : Nat) : String := String.ofList (List.replicate (2 * level) ' ')

theorem marker_indented (level : Nat) (text : String) :
    marker (indentation level ++ text) = marker text := by
  have blanks : (List.replicate (2 * level) ' ').find? (· ≠ ' ') = none := by
    rw [List.find?_eq_none]
    intro c hc
    rw [List.eq_of_mem_replicate hc]
    decide
  rw [marker, String.toList_append, List.find?_append, indentation, String.toList_ofList, blanks]
  rfl

/-- What stands on the line of a field behind the indentation. -/
def signed (sign segment shown : String) : String := s!"{sign} {segment} ({shown})"

/-- A line begins with what it begins with, if that is not a blank. -/
theorem marker_append {start : String} {c : Char} {cs : List Char} (h : start.toList = c :: cs)
    (sign : c ≠ ' ') (text : String) : marker (start ++ text) = some c := by
  rw [marker, String.toList_append, h, List.cons_append, List.find?_cons_of_pos]
  exact decide_eq_true sign

theorem signed_eq (sign segment shown : String) :
    signed sign segment shown = sign ++ (" " ++ segment ++ " (" ++ shown ++ ")") := by
  simp only [signed, toString, String.append_assoc]

theorem marker_signed {sign : String} {c : Char} (h : sign.toList = [c]) (other : c ≠ ' ')
    (segment shown : String) : marker (signed sign segment shown) = some c := by
  rw [signed_eq]
  exact marker_append h other _

/-- A line for a field or a node. -/
def IsNode (line : String) : Prop := marker line = some '-'

/-- The line of a field that failed, with its last segment and what is shown in brackets. -/
structure IsCross (path : FieldPath) (shown line : String) : Prop where
  crossed : marker line = some '❌'
  named : ∃ segment level, path.lastSegment = .ok segment ∧
    line = indentation level ++ signed "❌" segment shown

/-- The last line of a tree is the cross of the path, and no other line has one. -/
def CrossedLast (above : List String) (path : FieldPath) (shown : String) (lines : List String) :
    Prop :=
  ∃ nodes cross, lines = above ++ nodes ++ [cross] ∧ (∀ line ∈ above ++ nodes, IsNode line) ∧
    IsCross path shown cross

/-! ### Pens -/

/-- The pen has written some nodes since. -/
def Writes (pen pen' : Pen) : Prop :=
  ∃ nodes, pen'.lines.toList = pen.lines.toList ++ nodes ∧ ∀ line ∈ nodes, IsNode line

namespace Writes

variable {pen pen' pen'' : Pen}

theorem of_lines_eq (h : pen'.lines = pen.lines) : Writes pen pen' :=
  ⟨[], by rw [h, List.append_nil], fun _ hl => absurd hl List.not_mem_nil⟩

theorem trans (h : Writes pen pen') (h' : Writes pen' pen'') : Writes pen pen'' := by
  obtain ⟨nodes, lines, isNode⟩ := h
  obtain ⟨nodes', lines', isNode'⟩ := h'
  refine ⟨nodes ++ nodes', ?_, fun line hl => ?_⟩
  · rw [lines', lines, List.append_assoc]
  · exact (List.mem_append.1 hl).elim (isNode line) (isNode' line)

end Writes

theorem lines_write (pen : Pen) (text : String) :
    (pen.write text).lines.toList = pen.lines.toList ++ [indentation pen.indent ++ text] :=
  Array.toList_push

theorem writes_of_marker {text : String} (pen : Pen) (h : marker text = some '-') :
    Writes pen (pen.write text) := by
  refine ⟨_, lines_write pen text, fun line hl => ?_⟩
  rw [List.mem_singleton.1 hl, IsNode, marker_indented]
  exact h

/-- A path other than the root has a last segment. -/
theorem lastSegment_ok {path : FieldPath} (h : path.segments ≠ []) :
    ∃ segment, path.lastSegment = .ok segment := by
  rw [FieldPath.lastSegment, List.getLast?_eq_some_getLast h]
  exact ⟨_, rfl⟩

theorem nodes_ok {paths : List FieldPath} (h : ∀ p ∈ paths, p.segments ≠ []) (pen : Pen) :
    ∃ pen', pen.nodes paths = .ok pen' ∧ Writes pen pen' := by
  induction paths generalizing pen with
  | nil => exact ⟨pen, rfl, .of_lines_eq rfl⟩
  | cons p ps ih =>
    obtain ⟨segment, named⟩ := lastSegment_ok (h p List.mem_cons_self)
    obtain ⟨pen', run, writes⟩ := ih (fun q hq => h q (List.mem_cons_of_mem p hq))
      { pen.write s!"- {segment}" with indent := pen.indent + 1 }
    refine ⟨pen', ?_, ?_⟩
    · rw [Pen.nodes, named]
      exact run
    · refine Writes.trans (writes_of_marker pen ?_) writes
      exact marker_append rfl (by decide) segment

/-- No path between two others is the root. -/
theorem rungs_ne_root {p q : FieldPath} {bottom count : Nat} (short : bottom + count ≤ p.depth)
    (hq : q ∈ p.rungs bottom count) : q.segments ≠ [] := by
  obtain ⟨d, inside, rfl⟩ := List.mem_map.1 hq
  have within := List.mem_range'_1.1 inside
  intro empty
  have length := FieldPath.depth_truncate (p := p) (d := d) (by omega)
  rw [FieldPath.depth, empty, List.length_nil] at length
  omega

/-- A pen can be led down to any path below the last one. -/
theorem descend_ok {pen : Pen} {next : FieldPath} (below : next.isDescendantOf pen.last = true) :
    ∃ pen', pen.descend next = .ok pen' ∧ Writes pen pen' := by
  have deeper : pen.last.depth < next.depth := of_decide_eq_true (Bool.and_eq_true_iff.1 below).1
  have short : pen.last.depth + (next.depth - 1 - pen.last.depth) ≤ next.depth := by omega
  obtain ⟨pen', run, writes⟩ := nodes_ok (fun _ between => rungs_ne_root short between) pen
  refine ⟨pen', ?_, writes⟩
  rw [Pen.descend, FieldPath.descendantsUntil_eq below]
  exact run

/-- A pen can be led to any path at all. -/
theorem leadTo_ok (pen : Pen) (next : FieldPath) :
    ∃ pen', pen.leadTo next = .ok pen' ∧ Writes pen pen' := by
  unfold Pen.leadTo
  split
  · exact ⟨pen, rfl, .of_lines_eq rfl⟩
  · split
    · next below => exact descend_ok below
    · dsimp only
      split
      · exact ⟨_, rfl, .of_lines_eq rfl⟩
      · next other =>
        -- what the two paths have in common is above the next one
        have below : next.isDescendantOf (next.commonAncestor pen.last) = true :=
          FieldPath.isDescendantOf_iff.2
            ⟨(FieldPath.commonAncestor_isPrefix _ _).1, fun same => other same.symm⟩
        let back : Pen := { pen with
          indent := (next.commonAncestor pen.last).depth
          last := next.commonAncestor pen.last }
        have below : next.isDescendantOf back.last = true := below
        obtain ⟨pen', run, writes⟩ := descend_ok below
        exact ⟨pen', run, (Writes.of_lines_eq rfl).trans writes⟩

/-! ### Marks -/

theorem mark_ok {path : FieldPath} (h : path.segments ≠ []) (pen : Pen) (sign shown : String) :
    ∃ pen' pen'' segment, pen.mark sign path shown = .ok pen' ∧ Writes pen pen'' ∧
      path.lastSegment = .ok segment ∧ pen' = pen''.write (signed sign segment shown) := by
  obtain ⟨pen'', lead, writes⟩ := leadTo_ok pen path
  obtain ⟨segment, named⟩ := lastSegment_ok h
  refine ⟨_, pen'', segment, ?_, writes, named, rfl⟩
  rw [Pen.mark, lead, named]
  rfl

theorem leaf_ok {f : Field} (h : f.path.segments ≠ []) (pen : Pen) :
    ∃ pen', pen.leaf f = .ok pen' ∧ Writes pen pen' := by
  obtain ⟨pen', pen'', segment, run, writes, -, rfl⟩ := mark_ok h pen "-" f.value.display
  have line : Writes pen'' (pen''.write (signed "-" segment f.value.display)) :=
    writes_of_marker pen'' (marker_signed rfl (by decide) segment f.value.display)
  refine ⟨{ pen''.write (signed "-" segment f.value.display) with last := f.path }, ?_, ?_⟩
  · rw [Pen.leaf, run]
    rfl
  · exact (writes.trans line).trans (.of_lines_eq rfl)

/-- Behind what is written above, the cross of a path that is not the root. -/
theorem cross_ok {path : FieldPath} (h : path.segments ≠ []) {pen : Pen}
    (nodes : ∀ line ∈ pen.lines.toList, IsNode line) (shown : String) :
    ∃ pen', pen.mark "❌" path shown = .ok pen' ∧
      CrossedLast pen.lines.toList path shown pen'.lines.toList := by
  obtain ⟨pen', pen'', segment, run, ⟨added, lines, isNode⟩, named, rfl⟩ :=
    mark_ok h pen "❌" shown
  refine ⟨_, run, added, _, ?_, fun line hl => ?_, ⟨?_, segment, pen''.indent, named, rfl⟩⟩
  · rw [lines_write, lines]
  · exact (List.mem_append.1 hl).elim (nodes line) (isNode line)
  · rw [marker_indented]
    exact marker_signed rfl (by decide) segment shown

/-! ### Fields -/

variable {fields : List Field}

theorem foldlM_leaf_ok (h : ∀ f ∈ fields, f.path.segments ≠ []) (pen : Pen) :
    ∃ pen', fields.foldlM Pen.leaf pen = .ok pen' ∧ Writes pen pen' := by
  induction fields generalizing pen with
  | nil => exact ⟨pen, rfl, .of_lines_eq rfl⟩
  | cons f fs ih =>
    obtain ⟨pen₁, first, writes⟩ := leaf_ok (h f List.mem_cons_self) pen
    obtain ⟨pen₂, others, writes'⟩ := ih (fun g hg => h g (List.mem_cons_of_mem f hg)) pen₁
    refine ⟨pen₂, ?_, writes.trans writes'⟩
    rw [List.foldlM_cons, first]
    exact others

/-- **Fields can be shown**, each in a node of its own. -/
theorem lines_ok (h : ∀ f ∈ fields, f.path.segments ≠ []) :
    ∃ pen : Pen, fields.foldlM Pen.leaf {} = .ok pen ∧ lines fields = .ok pen.lines.toList ∧
      ∀ line ∈ pen.lines.toList, IsNode line := by
  obtain ⟨pen, run, nodes, written, isNode⟩ := foldlM_leaf_ok h {}
  refine ⟨pen, run, ?_, ?_⟩
  · rw [lines, run]
    rfl
  · rw [written]
    exact isNode

/-- Fields at other paths are written and passed. -/
theorem upTo_append {path : FieldPath} {before : List Field} (other : ∀ g ∈ before, g.path ≠ path)
    {pen pen' : Pen} (run : before.foldlM Pen.leaf pen = .ok pen') (rest : List Field) :
    upTo path pen (before ++ rest) = upTo path pen' rest := by
  induction before generalizing pen with
  | nil =>
    obtain rfl : pen = pen' := Except.ok.inj run
    rfl
  | cons g before ih =>
    rw [List.foldlM_cons] at run
    rw [List.cons_append, upTo, if_neg (other g List.mem_cons_self)]
    rcases first : pen.leaf g with e | pen₁
    · rw [first] at run
      cases run
    · rw [first] at run
      exact ih (fun h hh => other h (List.mem_cons_of_mem g hh)) run

/-! ### Trees -/

theorem crossedLast_of_upTo {path : FieldPath} {pen : Pen} (h : path.segments ≠ [])
    (nodes : ∀ line ∈ pen.lines.toList, IsNode line) (shown : String) :
    ∃ tree : List String, (do return (← pen.mark "❌" path shown).lines.toList) =
      (.ok tree : Except Fault (List String)) ∧ CrossedLast pen.lines.toList path shown tree := by
  obtain ⟨pen', run, crossed⟩ := cross_ok h nodes shown
  refine ⟨_, ?_, crossed⟩
  rw [run]
  rfl

/-- **A field that failed** is shown with a cross behind the fields in front of it, whether it was
found wrong by itself or blamed when reading failed. -/
theorem linesForFailedField_ok {before after : List Field} {f : Field}
    (h : ∀ g ∈ before ++ f :: after, g.path.segments ≠ [])
    (other : ∀ g ∈ before, g.path ≠ f.path) :
    ∃ above tree, lines before = .ok above ∧
      linesForFailedField (before ++ f :: after) f.path = .ok tree ∧
      linesForDecodeError (before ++ f :: after) f.path = .ok tree ∧
      CrossedLast above f.path f.value.display tree := by
  obtain ⟨pen, run, shown, nodes⟩ := lines_ok fun g hg => h g (List.mem_append_left _ hg)
  have here : f.path.segments ≠ [] := h f (List.mem_append_right _ List.mem_cons_self)
  obtain ⟨tree, cross, crossed⟩ := crossedLast_of_upTo here nodes f.value.display
  refine ⟨_, tree, shown, ?_, ?_, crossed⟩
  · rw [linesForFailedField, upTo_append other run, upTo, if_pos rfl]
    exact cross
  · rw [linesForDecodeError, upTo_append other run, upTo, if_pos rfl]
    exact cross

/-- **A path behind all fields** is shown with a cross behind all of them. -/
theorem linesForDecodeError_ok {path : FieldPath} (h : ∀ g ∈ fields, g.path.segments ≠ [])
    (here : path.segments ≠ []) (other : ∀ g ∈ fields, g.path ≠ path) :
    ∃ above tree, lines fields = .ok above ∧ linesForDecodeError fields path = .ok tree ∧
      CrossedLast above path "Decode Error" tree := by
  obtain ⟨pen, run, shown, nodes⟩ := lines_ok h
  obtain ⟨tree, cross, crossed⟩ := crossedLast_of_upTo here nodes "Decode Error"
  refine ⟨_, tree, shown, ?_, crossed⟩
  have notRoot : path.isRoot = false := List.isEmpty_eq_false_iff.2 here
  have passed := upTo_append other run []
  rw [List.append_nil] at passed
  rw [linesForDecodeError, passed]
  show (if path.isRoot then _ else _) = _
  rw [notRoot]
  exact cross

end BrokerExam.Tree
