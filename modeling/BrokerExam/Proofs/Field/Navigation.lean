/-
BrokerExam/Proofs/Field/Navigation.lean

Ways between paths.  Paths are ordered by their segments, a path being above those
that go on from it; of two paths the common ancestor is the lowest that is above
both or one of them (`isPrefix_commonPrefix_iff`).

The way up from a path goes from parent to parent (`Climbs`).  It comes to a path
only if that is above, since the root is its own parent, and what it passes on the
way are the truncations of the path, from the deepest on (`climbs_iff`).  The loop
that goes this way has as many steps as the path has segments, which is enough
(`climbs_climb`).

Main result: `navigation_exact`.
-/
import BrokerExam.Proofs.Field.Apart

namespace BrokerExam.FieldPath

variable {p q other : FieldPath}

/-! ### Truncations -/

/-- The first `depth` segments. -/
def truncate (p : FieldPath) (depth : Nat) : FieldPath := ⟨p.segments.take depth⟩

/-- The path cut to `count` depths, from the one below `bottom` on. -/
def rungs (p : FieldPath) (bottom count : Nat) : List FieldPath :=
  (List.range' (bottom + 1) count).map p.truncate

theorem rungs_succ (p : FieldPath) (bottom count : Nat) :
    p.rungs bottom (count + 1) = p.truncate (bottom + 1) :: p.rungs (bottom + 1) count := rfl

theorem rungs_concat (p : FieldPath) (bottom count : Nat) :
    p.rungs bottom (count + 1) = p.rungs bottom count ++ [p.truncate (bottom + count + 1)] := by
  rw [rungs, List.range'_1_concat, List.map_append, rungs, Nat.add_right_comm]
  rfl

theorem depth_truncate {d : Nat} (h : d ≤ p.depth) : (p.truncate d).depth = d :=
  List.length_take_of_le h

theorem parent_eq (p : FieldPath) : p.parent = p.truncate (p.depth - 1) :=
  congrArg mk List.dropLast_eq_take

theorem parent_truncate {d : Nat} (h : d + 1 ≤ p.depth) :
    (p.truncate (d + 1)).parent = p.truncate d := by
  rw [parent_eq, depth_truncate h, truncate, truncate, truncate, List.take_take,
    Nat.add_sub_cancel, Nat.min_eq_left (Nat.le_succ d)]

/-! ### Common ancestors -/

theorem isPrefix_commonPrefix_iff {cs as bs : List String} :
    cs <+: commonPrefix as bs ↔ cs <+: as ∧ cs <+: bs := by
  induction as generalizing cs bs with
  | nil =>
    have none : commonPrefix [] bs = [] := by cases bs <;> rfl
    rw [none]
    refine ⟨fun h => ⟨h, ?_⟩, fun h => h.1⟩
    rw [List.prefix_nil.1 h]
    exact List.nil_prefix
  | cons a as ih =>
    cases bs with
    | nil => exact ⟨fun h => ⟨(List.prefix_nil.1 h).symm ▸ List.nil_prefix, h⟩, fun h => h.2⟩
    | cons b bs =>
      cases cs with
      | nil => exact ⟨fun _ => ⟨List.nil_prefix, List.nil_prefix⟩, fun _ => List.nil_prefix⟩
      | cons c cs =>
        rw [commonPrefix]
        split
        · next same =>
          subst same
          rw [List.cons_prefix_cons, List.cons_prefix_cons, List.cons_prefix_cons, ih]
          exact and_and_left
        · next differ =>
          rw [List.cons_prefix_cons, List.cons_prefix_cons]
          refine ⟨fun h => absurd (List.prefix_nil.1 h) (List.cons_ne_nil _ _), ?_⟩
          rintro ⟨⟨rfl, -⟩, rfl, -⟩
          exact absurd rfl differ

/-- The common ancestor of two paths is where both begin. -/
theorem commonAncestor_isPrefix (p q : FieldPath) :
    (p.commonAncestor q).segments <+: p.segments ∧ (p.commonAncestor q).segments <+: q.segments :=
  isPrefix_commonPrefix_iff.1 List.prefix_rfl

theorem eq_of_isPrefix (h : p.segments <+: q.segments) (h' : q.segments <+: p.segments) : p = q :=
  congrArg mk (h.eq_of_length_le h'.length_le)

theorem commonAncestor_comm (p q : FieldPath) : p.commonAncestor q = q.commonAncestor p := by
  have lower (p q : FieldPath) :
      (p.commonAncestor q).segments <+: (q.commonAncestor p).segments :=
    isPrefix_commonPrefix_iff.2 (commonAncestor_isPrefix p q).symm
  exact eq_of_isPrefix (lower p q) (lower q p)

/-! ### The way up -/

/-- The way up from a path, to its parent and the parent of that and so on, has come to `other` and
passed the paths on the way, which are the first and those up to the one before `other`. -/
inductive Climbs (other : FieldPath) : FieldPath → List FieldPath → Prop
  | arrived : Climbs other other []
  | step {p : FieldPath} {passed : List FieldPath} (away : p ≠ other)
    (rest : Climbs other p.parent passed) : Climbs other p (p :: passed)

theorem Climbs.unique {passed passed' : List FieldPath} (h : Climbs other p passed)
    (h' : Climbs other p passed') : passed = passed' := by
  induction h generalizing passed' with
  | arrived =>
    cases h' with
    | arrived => rfl
    | step away _ => exact absurd rfl away
  | step away _ ih =>
    cases h' with
    | arrived => exact absurd rfl away
    | step _ rest => exact congrArg _ (ih rest)

/-- A path that the way up comes to is above. -/
theorem Climbs.isPrefix {passed : List FieldPath} (h : Climbs other p passed) :
    other.segments <+: p.segments := by
  induction h with
  | arrived => exact List.prefix_rfl
  | step _ _ ih => exact ih.trans (List.dropLast_prefix _)

theorem truncate_depth_of_isPrefix (above : other.segments <+: p.segments) :
    p.truncate other.depth = other :=
  congrArg mk (List.prefix_iff_eq_take.1 above).symm

/-- From `count` depths below `other` the way up passes as many truncations. -/
theorem climbs_truncate (above : other.segments <+: p.segments) {count : Nat}
    (short : other.depth + count ≤ p.depth) :
    Climbs other (p.truncate (other.depth + count)) (p.rungs other.depth count).reverse := by
  induction count with
  | zero =>
    rw [Nat.add_zero, truncate_depth_of_isPrefix above]
    exact .arrived
  | succ count ih =>
    rw [rungs_concat, List.reverse_append]
    refine .step (fun same => ?_) ?_
    · have depths := congrArg depth same
      rw [depth_truncate short] at depths
      omega
    · -- the rest of the way begins one depth further up
      have parent : (p.truncate (other.depth + count + 1)).parent =
          p.truncate (other.depth + count) := parent_truncate short
      rw [← Nat.add_assoc, parent]
      exact ih (Nat.le_of_succ_le short)

/-- **The way up ends** where the path is above, and nowhere else. -/
theorem climbs_iff {passed : List FieldPath} : Climbs other p passed ↔
    other.segments <+: p.segments ∧
      passed = (p.rungs other.depth (p.depth - other.depth)).reverse := by
  have whole (above : other.segments <+: p.segments) :
      Climbs other p (p.rungs other.depth (p.depth - other.depth)).reverse := by
    have depths : other.depth + (p.depth - other.depth) = p.depth :=
      Nat.add_sub_cancel' above.length_le
    have climb := climbs_truncate above (Nat.le_of_eq depths)
    rwa [depths, truncate, depth, List.take_length] at climb
  constructor
  · exact fun h => ⟨h.isPrefix, h.unique (whole h.isPrefix)⟩
  · rintro ⟨above, rfl⟩
    exact whole above

/-! ### Between two paths -/

theorem isDescendantOf_iff_exists : p.isDescendantOf other = true ↔
    ∃ rest, rest ≠ [] ∧ p.segments = other.segments ++ rest := by
  rw [isDescendantOf_iff]
  constructor
  · rintro ⟨⟨rest, whole⟩, differ⟩
    refine ⟨rest, fun none => differ ?_, whole.symm⟩
    rw [none, List.append_nil] at whole
    exact congrArg mk whole.symm
  · rintro ⟨rest, some, whole⟩
    refine ⟨⟨rest, whole.symm⟩, fun same => some ?_⟩
    rw [same] at whole
    exact List.self_eq_append_right.1 whole

theorem rungs_parent {bottom count : Nat} (short : bottom + count ≤ p.depth - 1) :
    p.parent.rungs bottom count = p.rungs bottom count := by
  refine List.map_congr_left fun d hd => ?_
  have inside : d ≤ p.depth - 1 := by
    have := List.mem_range'_1.1 hd
    omega
  rw [parent_eq, truncate, truncate, truncate, List.take_take, Nat.min_eq_left inside]

/-- A path that goes on from another has a parent that does, or that is the other. -/
theorem isPrefix_parent (below : p.isDescendantOf other = true) :
    other.segments <+: p.parent.segments := by
  obtain ⟨rest, some, whole⟩ := isDescendantOf_iff_exists.1 below
  rw [parent, whole, List.dropLast_append_of_ne_nil some]
  exact List.prefix_append _ _

theorem depth_parent (p : FieldPath) : p.parent.depth = p.depth - 1 := List.length_dropLast

/-- What the way up passes from the parent of a path to a path above it. -/
theorem climbs_parent_iff (below : p.isDescendantOf other = true) {passed : List FieldPath} :
    Climbs other p.parent passed ↔
      passed = (p.rungs other.depth (p.depth - 1 - other.depth)).reverse := by
  have above := isPrefix_parent below
  have room : other.depth ≤ p.depth - 1 := depth_parent p ▸ above.length_le
  rw [climbs_iff, and_iff_right above, depth_parent, rungs_parent (by omega)]

/-- **The loop takes the way up**, if it has as many steps as there are depths. -/
theorem climbs_climb {steps : Nat} (above : other.segments <+: p.segments)
    (enough : p.depth ≤ other.depth + steps) : Climbs other p (climb other steps p) := by
  induction steps generalizing p with
  | zero =>
    obtain rfl : p = other := congrArg mk (above.eq_of_length_le enough).symm
    exact .arrived
  | succ steps ih =>
    rw [climb]
    split
    · next here => exact here ▸ .arrived
    · next away =>
      have shorter := depth_parent p
      exact .step away (ih (isPrefix_parent (isDescendantOf_iff.2 ⟨above, away⟩)) (by omega))

theorem ancestorsUntil_eq (below : p.isDescendantOf other = true) :
    p.ancestorsUntil other = .ok (p.rungs other.depth (p.depth - 1 - other.depth)).reverse := by
  have shorter := depth_parent p
  have climbed : Climbs other p.parent (climb other p.depth p.parent) :=
    climbs_climb (isPrefix_parent below) (by omega)
  rw [ancestorsUntil, if_pos below, (climbs_parent_iff below).1 climbed]

theorem descendantsUntil_eq (below : p.isDescendantOf other = true) :
    other.descendantsUntil p = .ok (p.rungs other.depth (p.depth - 1 - other.depth)) := by
  rw [descendantsUntil, ancestorsUntil_eq below]
  dsimp only
  rw [List.reverse_reverse]

/-- **Navigation is exact**, whatever the segments are.  The common ancestor of two paths is the
lowest path above both, whichever is given first.  A path is below another if it goes on from there.
Then the way up from its parent comes there, and passes exactly the truncations in between, from the
deepest on; these are what is listed, in this order and in the other.  And what is read from a text
is written as that text. -/
theorem navigation_exact (a b : FieldPath) (dotted : String) :
    ((a.commonAncestor b).segments <+: a.segments ∧ (a.commonAncestor b).segments <+: b.segments ∧
      ∀ c : FieldPath, c.segments <+: a.segments → c.segments <+: b.segments →
        c.segments <+: (a.commonAncestor b).segments) ∧
    a.commonAncestor b = b.commonAncestor a ∧
    (a.isDescendantOf b = true ↔ ∃ rest, rest ≠ [] ∧ a.segments = b.segments ++ rest) ∧
    (a.isDescendantOf b = true →
      ∃ between, between = (List.range' (b.depth + 1) (a.depth - 1 - b.depth)).map a.truncate ∧
        (∀ passed, Climbs b a.parent passed ↔ passed = between.reverse) ∧
        a.ancestorsUntil b = .ok between.reverse ∧ b.descendantsUntil a = .ok between) ∧
    (a.isDescendantOf b = false → a.ancestorsUntil b = .error (.notDescendant a b) ∧
      b.descendantsUntil a = .error (.notDescendant a b)) ∧
    (parse dotted).text = dotted := by
  refine ⟨⟨(commonAncestor_isPrefix a b).1, (commonAncestor_isPrefix a b).2,
    fun c left right => isPrefix_commonPrefix_iff.2 ⟨left, right⟩⟩, commonAncestor_comm a b,
    isDescendantOf_iff_exists, fun below => ?_, fun aside => ?_, text_parse dotted⟩
  · exact ⟨_, rfl, fun passed => climbs_parent_iff below, ancestorsUntil_eq below,
      descendantsUntil_eq below⟩
  · have refused : a.ancestorsUntil b = .error (.notDescendant a b) := by
      rw [ancestorsUntil, if_neg (Bool.eq_false_iff.1 aside)]
    exact ⟨refused, by rw [descendantsUntil, refused]⟩

/-- The name of the first topic in a reply. -/
def firstTopicName : FieldPath := ⟨["R", "Body", "Topics", "Topics[0]", "Name"]⟩

/-- Two paths lie between a name and the body that it is in; a segment that only starts like that of
the body is not above. -/
theorem navigation_exact_name :
    firstTopicName.isDescendantOf ⟨["R", "Body"]⟩ = true ∧
      firstTopicName.ancestorsUntil ⟨["R", "Body"]⟩ =
        .ok [⟨["R", "Body", "Topics", "Topics[0]"]⟩, ⟨["R", "Body", "Topics"]⟩] ∧
      firstTopicName.isDescendantOf ⟨["R", "Bo"]⟩ = false ∧
      firstTopicName.ancestorsUntil ⟨["R", "Bo"]⟩ =
        .error (.notDescendant firstTopicName ⟨["R", "Bo"]⟩) := by
  have below : firstTopicName.isDescendantOf ⟨["R", "Body"]⟩ = true := by decide
  have aside : firstTopicName.isDescendantOf ⟨["R", "Bo"]⟩ = false := by decide
  obtain ⟨-, -, -, between, -, -⟩ := navigation_exact firstTopicName ⟨["R", "Body"]⟩ "R.Body"
  obtain ⟨-, -, -, -, refused, -⟩ := navigation_exact firstTopicName ⟨["R", "Bo"]⟩ "R.Bo"
  obtain ⟨_, rfl, -, listed, -⟩ := between below
  exact ⟨below, listed, aside, (refused aside).1⟩

end BrokerExam.FieldPath
