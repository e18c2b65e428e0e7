/-
BrokerExam/Proofs/Report/Outline.lean

What a tree says.  The pen remembers where it is and finds its way from there; the
outline is the same tree without a pen.  Each field has a line of its own, and in
front of it there is a line for each node on the way to it that it does not share
with the field before.  A line is indented by its depth and nothing else.

That an outline can be read follows.  From the line of a field upwards, the nearest
line that stands further left is that of its parent, then that of the parent's
parent, and so on (`enclosing`): they spell the path of the field.

Fields must not stand right behind a field that is above them.  The parent would be
shown as a field then, one line higher up, and not as a node.

Main results: `Pen.leadTo_eq` and `Pen.foldlM_leaf_eq`, that the pen writes the
outline, `Encloses.entry`, and `lines_outline`.
-/
import Mathlib.Data.List.Chain
import BrokerExam.Proofs.Report.Tree

namespace BrokerExam

/-! ### Paths -/

namespace FieldPath

variable {p q prev next : FieldPath}

/-- The last segment; the root has none. -/
def name (p : FieldPath) : String := p.segments.getLast?.getD ""

theorem lastSegment_eq (h : 0 < p.depth) : p.lastSegment = .ok p.name := by
  have some : p.segments ≠ [] := List.length_pos_iff.1 h
  rw [lastSegment, name, List.getLast?_eq_some_getLast some]
  rfl

theorem depth_pos_iff : 0 < p.depth ↔ p ≠ root := by
  rw [depth, List.length_pos_iff, ne_eq, ne_eq, root, mk.injEq]

/-- The ancestors of `next` that are deeper than what it has in common with `prev`, the outermost
first. -/
def opened (prev next : FieldPath) : List FieldPath :=
  ((List.range next.depth).filter fun d => (next.commonAncestor prev).depth < d).map next.truncate

theorem filter_range (bottom count : Nat) :
    (List.range count).filter (fun d => bottom < d) =
      List.range' (bottom + 1) (count - 1 - bottom) := by
  induction count with
  | zero =>
    rw [Nat.zero_sub]
    rfl
  | succ count ih =>
    rw [List.range_succ, List.filter_append, ih]
    by_cases above : bottom < count
    · obtain ⟨more, rfl⟩ := Nat.exists_eq_add_of_lt above
      rw [List.filter_cons_of_pos (by exact decide_eq_true above)]
      have before : bottom + more + 1 - 1 - bottom = more := by omega
      have after : bottom + more + 1 + 1 - 1 - bottom = more + 1 := by omega
      rw [before, after, List.range'_1_concat, Nat.add_right_comm]
      rfl
    · rw [List.filter_cons_of_neg (by exact mt of_decide_eq_true above)]
      have before : count - 1 - bottom = 0 := by omega
      have after : count + 1 - 1 - bottom = 0 := by omega
      rw [before, after]
      rfl

theorem opened_eq (prev next : FieldPath) :
    opened prev next = next.rungs (next.commonAncestor prev).depth
      (next.depth - 1 - (next.commonAncestor prev).depth) := by
  rw [opened, filter_range, rungs]

theorem dropLast_append_name (h : 0 < p.depth) : p.segments.dropLast ++ [p.name] = p.segments := by
  have some : p.segments ≠ [] := List.length_pos_iff.1 h
  rw [name, List.getLast?_eq_some_getLast some]
  exact List.dropLast_append_getLast some

theorem names_rungs {count : Nat} (h : count ≤ p.depth) :
    (p.rungs 0 count).map name = p.segments.take count := by
  induction count with
  | zero => rfl
  | succ count ih =>
    have front : (p.truncate (count + 1)).segments.dropLast = p.segments.take count := by
      rw [truncate, List.dropLast_eq_take, List.length_take_of_le h, Nat.add_sub_cancel,
        List.take_take, Nat.min_eq_left (Nat.le_succ count)]
    have last := dropLast_append_name (p := p.truncate (count + 1))
      (by rw [depth_truncate h]; exact Nat.succ_pos count)
    rw [front] at last
    rw [rungs_concat, List.map_append, ih (Nat.le_of_succ_le h), Nat.zero_add]
    exact last

/-- The nodes on the way to a path and the path itself spell it. -/
theorem spell (h : 0 < p.depth) : (p.rungs 0 (p.depth - 1)).map name ++ [p.name] = p.segments := by
  have whole : p.truncate (0 + (p.depth - 1) + 1) = p := by
    rw [Nat.zero_add, Nat.sub_add_cancel h, truncate, depth, List.take_length]
  have names := names_rungs (p := p) (Nat.le_refl p.depth)
  rw [depth, List.take_length, ← depth] at names
  rw [← Nat.sub_add_cancel h, rungs_concat, whole, List.map_append] at names
  exact names

/-! #### Common ancestors -/

theorem depth_commonAncestor_root (p : FieldPath) : (p.commonAncestor root).depth ≤ 0 :=
  (commonAncestor_isPrefix p root).2.length_le

/-- From the root on, every node is new. -/
theorem opened_root (p : FieldPath) : opened root p = p.rungs 0 (p.depth - 1) := by
  rw [opened_eq, Nat.le_zero.1 (depth_commonAncestor_root p)]
  rfl

/-- Nothing that both paths begin with is longer. -/
theorem depth_le_commonAncestor {cs : List String} (left : cs <+: p.segments)
    (right : cs <+: q.segments) : cs.length ≤ (p.commonAncestor q).depth :=
  (isPrefix_commonPrefix_iff.2 ⟨left, right⟩).length_le

/-- As far as two paths have their way in common they go through the same nodes. -/
theorem rungs_congr {count : Nat} (h : count ≤ (p.commonAncestor q).depth) :
    p.rungs 0 count = q.rungs 0 count := by
  obtain ⟨left, right⟩ := commonAncestor_isPrefix p q
  refine List.map_congr_left fun d hd => ?_
  have short : d ≤ (p.commonAncestor q).depth := by
    have := List.mem_range'_1.1 hd
    omega
  obtain ⟨ls, hl⟩ := left
  obtain ⟨rs, hr⟩ := right
  rw [truncate, truncate, ← hl, ← hr, List.take_append_of_le_length short,
    List.take_append_of_le_length short]

theorem isSiblingOf_iff : p.isSiblingOf q = true ↔ p ≠ root ∧ q ≠ root ∧ p.parent = q.parent := by
  have isRoot (p : FieldPath) : (!p.isRoot) = true ↔ p ≠ root := by
    rw [isRoot, Bool.not_eq_true', List.isEmpty_eq_false_iff, ne_eq, ne_eq, root, mk.injEq]
  rw [isSiblingOf, Bool.and_eq_true, Bool.and_eq_true, beq_iff_eq, isRoot, isRoot, and_assoc]

theorem depth_of_isSiblingOf (sibling : p.isSiblingOf q = true) : p.depth = q.depth := by
  obtain ⟨left, right, parent⟩ := isSiblingOf_iff.1 sibling
  have length := congrArg (fun p : FieldPath => p.depth) parent
  rw [← depth_pos_iff] at left right
  simp only [FieldPath.parent, depth, List.length_dropLast] at length left right ⊢
  omega

/-- Siblings have all of their way in common. -/
theorem opened_of_isSiblingOf (sibling : next.isSiblingOf prev = true) : opened prev next = [] := by
  obtain ⟨-, -, parent⟩ := isSiblingOf_iff.1 sibling
  have far : next.parent.segments.length ≤ (next.commonAncestor prev).depth :=
    depth_le_commonAncestor (List.dropLast_prefix _)
      (by rw [parent]; exact List.dropLast_prefix _)
  rw [FieldPath.parent, List.length_dropLast] at far
  have none : next.depth - 1 - (next.commonAncestor prev).depth = 0 := Nat.sub_eq_zero_of_le far
  rw [opened_eq, none]
  rfl

end FieldPath

namespace Tree

open FieldPath (name opened rungs)

/-! ### Outlines -/

/-- The line of a node on the way to a field. -/
def nodeLine (p : FieldPath) : String := indentation (p.depth - 1) ++ s!"- {p.name}"

/-- The line of a field. -/
def leafLine (sign : String) (p : FieldPath) (shown : String) : String :=
  indentation (p.depth - 1) ++ signed sign p.name shown

/-- The nodes that are new on the way from `prev` to `p`, and the line of `p`. -/
def entry (prev : FieldPath) (sign : String) (p : FieldPath) (shown : String) : List String :=
  (opened prev p).map nodeLine ++ [leafLine sign p shown]

/-- The entries of the fields, each as what follows the field before, and the first as what follows
`prev`. -/
def outline (prev : FieldPath) : List Field → List String
  | [] => []
  | f :: fs => entry prev "-" f.path f.value.display ++ outline f.path fs

/-- The path of the last field, or `prev` if there is none. -/
def lastPath (prev : FieldPath) : List Field → FieldPath
  | [] => prev
  | f :: fs => lastPath f.path fs

theorem outline_append (prev : FieldPath) (before after : List Field) :
    outline prev (before ++ after) =
      outline prev before ++ outline (lastPath prev before) after := by
  induction before generalizing prev with
  | nil => rfl
  | cons f before ih => rw [List.cons_append, outline, ih, outline, lastPath, List.append_assoc]

/-! ### Pens at rest -/

/-- What can be written next: a path other than the root that is not below the one before, unless
that is the root. -/
structure Onward (prev next : FieldPath) : Prop where
  named : next ≠ FieldPath.root
  beside : next.isDescendantOf prev = true → prev = FieldPath.root

/-- What goes on below all of the path before goes on below the root. -/
theorem Onward.eq_root {prev next : FieldPath} (onward : Onward prev next)
    (whole : prev.depth ≤ (next.commonAncestor prev).depth)
    (deeper : (next.commonAncestor prev).depth < next.depth) : prev = FieldPath.root := by
  obtain ⟨left, right⟩ := FieldPath.commonAncestor_isPrefix next prev
  have same := right.eq_of_length_le whole
  refine onward.beside (FieldPath.isDescendantOf_iff.2 ⟨same ▸ left, ?_⟩)
  rintro rfl
  exact absurd (Nat.lt_of_le_of_lt whole deeper) (Nat.lt_irrefl _)

/-- The pen has stopped at the indent of the line of its last path. -/
def Pen.Rests (pen : Pen) : Prop := pen.indent = pen.last.depth - 1

namespace Pen

variable {pen : Pen} {next : FieldPath}

/-- Nodes are written each at its own depth, if the first one belongs at the indent. -/
theorem nodes_rungs {count : Nat} (pen : Pen) (short : pen.indent + count ≤ next.depth) :
    ∃ pen', pen.nodes (next.rungs pen.indent count) = .ok pen' ∧
      pen'.indent = pen.indent + count ∧
      pen'.lines.toList = pen.lines.toList ++ (next.rungs pen.indent count).map nodeLine := by
  induction count generalizing pen with
  | zero => exact ⟨pen, rfl, rfl, (List.append_nil _).symm⟩
  | succ count ih =>
    have depth : (next.truncate (pen.indent + 1)).depth = pen.indent + 1 :=
      FieldPath.depth_truncate (by omega)
    have named := FieldPath.lastSegment_eq (p := next.truncate (pen.indent + 1)) (by omega)
    let p := next.truncate (pen.indent + 1)
    obtain ⟨pen', run, indent, lines⟩ := ih
      { pen.write s!"- {p.name}" with indent := pen.indent + 1 }
      (by show pen.indent + 1 + count ≤ _; omega)
    refine ⟨pen', ?_, ?_, ?_⟩
    · rw [FieldPath.rungs_succ, nodes, named]
      exact run
    · rw [indent, Nat.add_assoc, Nat.add_comm 1]
    · have line : (pen.write s!"- {p.name}").lines.toList = pen.lines.toList ++ [nodeLine p] := by
        rw [lines_write, nodeLine, depth, Nat.add_sub_cancel]
      rw [lines, FieldPath.rungs_succ, List.map_cons, List.append_cons]
      exact congrArg (· ++ _) line

/-- Below a path of which it stands at the depth, the pen writes the nodes in between. -/
theorem descend_eq (below : next.isDescendantOf pen.last = true)
    (indent : pen.indent = pen.last.depth) :
    ∃ pen', pen.descend next = .ok pen' ∧ pen'.indent = next.depth - 1 ∧
      pen'.lines.toList = pen.lines.toList ++
        (next.rungs pen.last.depth (next.depth - 1 - pen.last.depth)).map nodeLine := by
  have deeper : pen.last.depth < next.depth := by
    rw [FieldPath.isDescendantOf, Bool.and_eq_true, decide_eq_true_eq] at below
    exact below.1
  have between : pen.last.descendantsUntil next =
      .ok (next.rungs pen.indent (next.depth - 1 - pen.last.depth)) := by
    rw [indent]
    exact FieldPath.descendantsUntil_eq below
  have short : pen.indent + (next.depth - 1 - pen.last.depth) ≤ next.depth := by omega
  obtain ⟨pen', run, indent', lines⟩ := nodes_rungs pen short
  refine ⟨pen', ?_, by omega, ?_⟩
  · rw [descend, between]
    exact run
  · rw [lines, indent]

/-- **The pen finds its way**: it writes the nodes that are new, and stops at the indent of the
path. -/
theorem leadTo_eq (rests : pen.Rests) (onward : Onward pen.last next) :
    ∃ pen', pen.leadTo next = .ok pen' ∧ pen'.indent = next.depth - 1 ∧
      pen'.lines.toList = pen.lines.toList ++ (opened pen.last next).map nodeLine := by
  have notRoot : next.isRoot = false := by
    rw [FieldPath.isRoot, List.isEmpty_eq_false_iff]
    exact List.length_pos_iff.1 (FieldPath.depth_pos_iff.2 onward.named)
  rw [leadTo, notRoot, Bool.false_or]
  split
  · next sibling =>
    refine ⟨pen, rfl, ?_, ?_⟩
    · rw [FieldPath.depth_of_isSiblingOf sibling]
      exact rests
    · rw [FieldPath.opened_of_isSiblingOf sibling]
      exact (List.append_nil _).symm
  · split
    · next below =>
      -- only below the root, where the indent is that of the first node
      have atRoot := onward.beside below
      have indent : pen.indent = pen.last.depth := by
        rw [rests, atRoot]
        rfl
      have common : (next.commonAncestor pen.last).depth = pen.last.depth := by
        rw [atRoot]
        exact Nat.le_zero.1 (FieldPath.depth_commonAncestor_root next)
      rw [FieldPath.opened_eq, common]
      exact descend_eq below indent
    · dsimp only
      split
      · next whole =>
        refine ⟨_, rfl, rfl, ?_⟩
        rw [FieldPath.opened_eq, whole, Nat.sub_eq_zero_of_le (Nat.sub_le _ _)]
        exact (List.append_nil _).symm
      · next other =>
        -- what the two paths have in common is above the next one
        have below : next.isDescendantOf (next.commonAncestor pen.last) = true :=
          FieldPath.isDescendantOf_iff.2
            ⟨(FieldPath.commonAncestor_isPrefix _ _).1, fun same => other same.symm⟩
        let back : Pen := { pen with
          indent := (next.commonAncestor pen.last).depth
          last := next.commonAncestor pen.last }
        rw [FieldPath.opened_eq]
        exact back.descend_eq below rfl

/-- A mark is written as the entry of its path. -/
theorem mark_eq (rests : pen.Rests) (onward : Onward pen.last next) (sign shown : String) :
    ∃ pen', pen.mark sign next shown = .ok pen' ∧ pen'.indent = next.depth - 1 ∧
      pen'.lines.toList = pen.lines.toList ++ entry pen.last sign next shown := by
  obtain ⟨pen', lead, indent, lines⟩ := leadTo_eq rests onward
  have named := FieldPath.lastSegment_eq (FieldPath.depth_pos_iff.2 onward.named)
  refine ⟨pen'.write (signed sign next.name shown), ?_, indent, ?_⟩
  · rw [mark, lead, named]
    rfl
  · rw [lines_write, lines, entry, leafLine, indent, List.append_assoc]

theorem leaf_eq {f : Field} (rests : pen.Rests) (onward : Onward pen.last f.path) :
    ∃ pen', pen.leaf f = .ok pen' ∧ pen'.Rests ∧ pen'.last = f.path ∧
      pen'.lines.toList = pen.lines.toList ++ entry pen.last "-" f.path f.value.display := by
  obtain ⟨pen', run, indent, lines⟩ := mark_eq rests onward "-" f.value.display
  refine ⟨{ pen' with last := f.path }, ?_, indent, rfl, lines⟩
  rw [leaf, run]
  rfl

/-- **The pen writes the outline** of fields that go onward from where it is. -/
theorem foldlM_leaf_eq {fields : List Field} (rests : pen.Rests)
    (onward : List.IsChain Onward (pen.last :: fields.map Field.path)) :
    ∃ pen', fields.foldlM leaf pen = .ok pen' ∧ pen'.Rests ∧
      pen'.last = lastPath pen.last fields ∧
      pen'.lines.toList = pen.lines.toList ++ outline pen.last fields := by
  induction fields generalizing pen with
  | nil => exact ⟨pen, rfl, rests, rfl, (List.append_nil _).symm⟩
  | cons f fs ih =>
    obtain ⟨first, others⟩ := List.isChain_cons_cons.1 onward
    obtain ⟨pen₁, run₁, rests₁, last₁, lines₁⟩ := leaf_eq rests first
    rw [← last₁] at others
    obtain ⟨pen₂, run₂, rests₂, last₂, lines₂⟩ := ih rests₁ others
    refine ⟨pen₂, ?_, rests₂, ?_, ?_⟩
    · rw [List.foldlM_cons, run₁]
      exact run₂
    · rw [last₂, last₁, lastPath]
    · rw [lines₂, lines₁, last₁, outline, List.append_assoc]

end Pen

/-! ### Reading an outline -/

/-- How far a line is indented. -/
def margin (line : String) : Nat := (line.toList.takeWhile (· = ' ')).length

/-- The nearest line that stands further left than `edge`, then the nearest that stands further
left than that one, and so on; the outermost is given first.  Lines are gone through from the
first of the list on. -/
def enclosing (edge : Nat) : List String → List String
  | [] => []
  | line :: above =>
    if margin line < edge then enclosing (margin line) above ++ [line] else enclosing edge above

theorem margin_indented {text : String} {c : Char} {cs : List Char} (h : text.toList = c :: cs)
    (sign : c ≠ ' ') (level : Nat) : margin (indentation level ++ text) = 2 * level := by
  have blanks : ∀ a ∈ List.replicate (2 * level) ' ', decide (a = ' ') = true := by
    intro a ha
    rw [List.eq_of_mem_replicate ha]
    rfl
  have stop : List.takeWhile (fun a => decide (a = ' ')) (c :: cs) = [] :=
    List.takeWhile_cons_of_neg (by simpa using sign)
  rw [margin, String.toList_append, indentation, String.toList_ofList, h,
    List.takeWhile_append_of_pos blanks, stop, List.append_nil, List.length_replicate]

theorem margin_nodeLine (p : FieldPath) : margin (nodeLine p) = 2 * (p.depth - 1) :=
  have text : (s!"- {p.name}").toList = '-' :: ' ' :: p.name.toList := String.toList_append
  margin_indented text (by decide) _

theorem margin_leafLine (p : FieldPath) (shown : String) :
    margin (leafLine "-" p shown) = 2 * (p.depth - 1) := by
  rw [leafLine, signed_eq]
  exact margin_indented String.toList_append (by decide) _

theorem enclosing_zero (lines : List String) : enclosing 0 lines = [] := by
  induction lines with
  | nil => rfl
  | cons line above ih => rw [enclosing, if_neg (Nat.not_lt_zero _), ih]

theorem enclosing_of_lt {edge : Nat} {line : String} (h : margin line < edge)
    (above : List String) :
    enclosing edge (line :: above) = enclosing (margin line) above ++ [line] := by
  rw [enclosing, if_pos h]

theorem enclosing_of_le {edge : Nat} {line : String} (h : edge ≤ margin line)
    (above : List String) : enclosing edge (line :: above) = enclosing edge above := by
  rw [enclosing, if_neg (Nat.not_lt.2 h)]

/-- From the last of the lines upwards, the nodes on the way to `p` stand around what would be
written at any of its depths. -/
def Encloses (p : FieldPath) (lines : List String) : Prop :=
  ∀ d < p.depth, enclosing (2 * d) lines.reverse = (rungs p 0 d).map nodeLine

namespace Encloses

variable {prev next : FieldPath} {lines : List String}

/-- At the depths that are there already, when some of the new nodes have been written. -/
theorem nodes (h : Encloses prev lines) (onward : Onward prev next) {count d : Nat}
    (new : count ≤ next.depth - 1 - (next.commonAncestor prev).depth) (inside : d < next.depth)
    (reached : d ≤ (next.commonAncestor prev).depth + count) :
    enclosing (2 * d)
      (lines ++ (rungs next (next.commonAncestor prev).depth count).map nodeLine).reverse =
        (rungs next 0 d).map nodeLine := by
  induction count generalizing d with
  | zero =>
    show enclosing (2 * d) (lines ++ []).reverse = _
    rw [List.append_nil, FieldPath.rungs_congr reached]
    rcases Nat.lt_or_ge d prev.depth with before | whole
    · exact h d before
    · obtain rfl := onward.eq_root (Nat.le_trans whole reached)
        (Nat.lt_of_le_of_lt (FieldPath.commonAncestor_isPrefix next prev).2.length_le
          (Nat.lt_of_le_of_lt whole inside))
      obtain rfl := Nat.le_zero.1 (Nat.le_trans reached (FieldPath.depth_commonAncestor_root next))
      exact enclosing_zero _
  | succ count ih =>
    let node := next.truncate ((next.commonAncestor prev).depth + count + 1)
    have edge : margin (nodeLine node) = 2 * ((next.commonAncestor prev).depth + count) := by
      rw [margin_nodeLine, FieldPath.depth_truncate (by omega), Nat.add_sub_cancel]
    rw [FieldPath.rungs_concat, List.map_append, ← List.append_assoc, List.reverse_append]
    show enclosing (2 * d) (nodeLine node :: List.reverse _) = _
    rcases Nat.lt_or_eq_of_le reached with before | rfl
    · rw [enclosing_of_le (by omega)]
      exact ih (by omega) inside (by omega)
    · -- the node is the one to go on from
      rw [enclosing_of_lt (by omega), edge, ih (by omega) (by omega) (Nat.le_refl _),
        ← Nat.add_assoc, FieldPath.rungs_concat, List.map_append, Nat.zero_add]
      rfl

/-- Around the line of a field stand the nodes on the way to it. -/
theorem above (h : Encloses prev lines) (onward : Onward prev next) {d : Nat}
    (inside : d < next.depth) :
    enclosing (2 * d) (lines ++ (opened prev next).map nodeLine).reverse =
      (rungs next 0 d).map nodeLine := by
  rw [FieldPath.opened_eq]
  exact h.nodes onward (Nat.le_refl _) inside (by omega)

theorem entry (h : Encloses prev lines) (onward : Onward prev next) (shown : String) :
    Encloses next (lines ++ entry prev "-" next shown) := by
  intro d inside
  have edge : 2 * d ≤ margin (leafLine "-" next shown) := by
    rw [margin_leafLine]
    omega
  rw [Tree.entry, ← List.append_assoc, List.reverse_append]
  show enclosing (2 * d) (leafLine "-" next shown :: List.reverse _) = _
  rw [enclosing_of_le edge]
  exact h.above onward inside

theorem outline {fields : List Field} (h : Encloses prev lines)
    (onward : List.IsChain Onward (prev :: fields.map Field.path)) :
    Encloses (lastPath prev fields) (lines ++ outline prev fields) := by
  induction fields generalizing prev lines with
  | nil =>
    rw [Tree.outline, List.append_nil]
    exact h
  | cons f fs ih =>
    obtain ⟨first, others⟩ := List.isChain_cons_cons.1 onward
    rw [Tree.outline, ← List.append_assoc]
    exact ih (h.entry first f.value.display) others

end Encloses

/-! ### Trees -/

variable {fields : List Field}

/-- Fields that are not below the one in front of them go onward. -/
theorem onward_of_isChain {prev : FieldPath} (named : ∀ f ∈ fields, f.path ≠ FieldPath.root)
    (beside : List.IsChain (fun f g => g.path.isDescendantOf f.path = false) fields)
    (first : ∀ f ∈ fields.head?, f.path.isDescendantOf prev = true → prev = FieldPath.root) :
    List.IsChain Onward (prev :: fields.map Field.path) := by
  induction fields generalizing prev with
  | nil => exact .singleton _
  | cons f fs ih =>
    have here : Onward prev f.path := ⟨named f List.mem_cons_self, first f rfl⟩
    obtain ⟨next, others⟩ := List.isChain_cons.1 beside
    refine .cons_cons here (ih (fun g hg => named g (List.mem_cons_of_mem f hg)) others ?_)
    intro g hg below
    rw [next g hg] at below
    cases below

/-- Where a field is reached, the way to it is onward. -/
theorem onward_split {prev : FieldPath} {before after : List Field} {f : Field}
    (onward : List.IsChain Onward (prev :: (before ++ f :: after).map Field.path)) :
    List.IsChain Onward (prev :: before.map Field.path) ∧ Onward (lastPath prev before) f.path := by
  induction before generalizing prev with
  | nil => exact ⟨.singleton prev, (List.isChain_cons_cons.1 onward).1⟩
  | cons g before ih =>
    obtain ⟨first, others⟩ := List.isChain_cons_cons.1 onward
    obtain ⟨way, here⟩ := ih others
    exact ⟨.cons_cons first way, here⟩

/-- **A tree is an outline** if no field stands right behind one above it: of each field, the line
is indented by two for each segment but the last; around it stand the nodes on the way to it, which
spell its path; and siblings line up.  A path behind all the fields, at which reading failed, is one
more entry, with a cross. -/
theorem lines_outline (named : ∀ f ∈ fields, f.path ≠ FieldPath.root)
    (beside : List.IsChain (fun f g => g.path.isDescendantOf f.path = false) fields) :
    lines fields = .ok (outline FieldPath.root fields) ∧
    (∀ before f after, fields = before ++ f :: after →
      ∃ above, outline FieldPath.root fields =
          above ++ leafLine "-" f.path f.value.display :: outline f.path after ∧
        margin (leafLine "-" f.path f.value.display) + 2 = 2 * f.path.depth ∧
        enclosing (margin (leafLine "-" f.path f.value.display)) above.reverse =
          (opened FieldPath.root f.path).map nodeLine ∧
        (opened FieldPath.root f.path).map name ++ [f.path.name] = f.path.segments) ∧
    (∀ f ∈ fields, ∀ g ∈ fields, f.path.isSiblingOf g.path = true →
      margin (leafLine "-" f.path f.value.display) =
        margin (leafLine "-" g.path g.value.display)) ∧
    ∀ path, path ≠ FieldPath.root → (∀ f ∈ fields, f.path ≠ path) →
      (fields ≠ [] → path.isDescendantOf (lastPath FieldPath.root fields) = false) →
      linesForDecodeError fields path = .ok (outline FieldPath.root fields ++
        entry (lastPath FieldPath.root fields) "❌" path "Decode Error") := by
  have onward : List.IsChain Onward (FieldPath.root :: fields.map Field.path) :=
    onward_of_isChain named beside fun _ _ _ => rfl
  have start : Pen.Rests {} := rfl
  obtain ⟨pen, run, rests, last, written⟩ := Pen.foldlM_leaf_eq start onward
  have written : pen.lines.toList = outline FieldPath.root fields := written
  refine ⟨?_, ?_, ?_, ?_⟩
  · rw [lines, run, ← written]
    rfl
  · rintro before f after rfl
    obtain ⟨way, here⟩ := onward_split onward
    have deep := FieldPath.depth_pos_iff.2 here.named
    have nothing : Encloses FieldPath.root [] := fun d inside => absurd inside (Nat.not_lt_zero d)
    refine ⟨outline FieldPath.root before ++
      (opened (lastPath FieldPath.root before) f.path).map nodeLine, ?_, ?_, ?_, ?_⟩
    · rw [outline_append, outline, entry, List.append_assoc, List.append_assoc]
      rfl
    · rw [margin_leafLine]
      omega
    · rw [margin_leafLine, FieldPath.opened_root]
      exact (nothing.outline way).above here (Nat.sub_one_lt (Nat.ne_of_gt deep))
    · rw [FieldPath.opened_root]
      exact FieldPath.spell deep
  · intro f _ g _ sibling
    rw [margin_leafLine, margin_leafLine, FieldPath.depth_of_isSiblingOf sibling]
  · intro path notRoot other notBelow
    have beyond : Onward pen.last path := by
      refine ⟨notRoot, fun below => ?_⟩
      rw [last] at below ⊢
      rcases fields with - | ⟨f, fs⟩
      · rfl
      · rw [notBelow (List.cons_ne_nil f fs)] at below
        cases below
    obtain ⟨pen', cross, -, marked⟩ := Pen.mark_eq rests beyond "❌" "Decode Error"
    have passed := upTo_append other run []
    have isRoot : path.isRoot = false := by
      rw [FieldPath.isRoot, List.isEmpty_eq_false_iff]
      exact List.length_pos_iff.1 (FieldPath.depth_pos_iff.2 notRoot)
    rw [List.append_nil] at passed
    rw [linesForDecodeError, passed, ← written, ← last, ← marked]
    show (if path.isRoot then _ else _) = _
    rw [isRoot]
    show (do return (← pen.mark "❌" path "Decode Error").lines.toList) = _
    rw [cross]
    rfl

/-- A path may be shown again behind what is below it; what follows is shown beside it. -/
theorem lines_outline_enclosing :
    let fields : List Field := [⟨⟨["R", "A", "B"]⟩, .int8 7, 0, 1⟩, ⟨⟨["R", "A"]⟩, .int8 0, 1, 2⟩,
      ⟨⟨["R", "C", "D"]⟩, .int8 1, 2, 3⟩]
    (∀ f ∈ fields, f.path ≠ FieldPath.root) ∧
    List.IsChain (fun f g => g.path.isDescendantOf f.path = false) fields ∧
    lines fields =
      .ok ["- R", "  - A", "    - B (7)", "  - A (0)", "  - C", "    - D (1)"] := by
  intro fields
  have named : ∀ f ∈ fields, f.path ≠ FieldPath.root := by decide
  have beside : List.IsChain (fun f g => g.path.isDescendantOf f.path = false) fields :=
    .cons_cons rfl (.cons_cons rfl (.singleton _))
  have shown : outline FieldPath.root fields =
      ["- R", "  - A", "    - B (7)", "  - A (0)", "  - C", "    - D (1)"] := by decide +kernel
  refine ⟨named, beside, ?_⟩
  rw [(lines_outline named beside).1, shown]

end Tree
end BrokerExam
