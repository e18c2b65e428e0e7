/-
BrokerExam/Proofs/Field/Apart.lean

Paths that are apart: they differ, and neither is above the other.  Segments tell
paths apart when they differ themselves; of two elements of one array the indices
do, and of an element and anything else the stems, which are what stands before
an index.

Main results: `indexed_inj` and `stem_indexed`, which tell segments apart, and
`FieldPath.apart_iff`, that paths are apart as their segments are.
-/
import BrokerExam.Wire.Kind
import BrokerExam.Field.Navigation

namespace BrokerExam

/-! ### Segments -/

/-- What stands before the index of a segment, or the whole segment if it has none. -/
def stem (segment : String) : List Char := segment.toList.takeWhile (· ≠ '[')

theorem toList_indexed (name : String) (i : Nat) :
    (indexed name i).toList = name.toList ++ '[' :: (Nat.toDigits 10 i ++ [']']) := by
  show (name ++ "[" ++ Nat.repr i ++ "]").toList = _
  simp

theorem stem_indexed (name : String) (i : Nat) : stem (indexed name i) = stem name := by
  rw [stem, stem, toList_indexed, List.takeWhile_append]
  split
  · next whole =>
    -- the name has no bracket of its own, and the next character is one
    rw [List.takeWhile_cons_of_neg (by decide), List.append_nil]
    exact ((List.takeWhile_prefix _).eq_of_length whole).symm
  · rfl

theorem indexed_inj {name : String} {i j : Nat} (h : indexed name i = indexed name j) : i = j := by
  have chars := congrArg String.toList h
  rw [toList_indexed, toList_indexed, List.append_cancel_left_eq, List.cons.injEq,
    List.append_cancel_right_eq] at chars
  have value := congrArg (fun digits => Nat.ofDigitChars 10 digits 0) chars.2
  simpa only [Nat.ofDigitChars_ten_toDigits] using value

/-- A segment without a bracket is no element. -/
theorem ne_indexed {s : String} (plain : '[' ∉ s.toList) (name : String) (i : Nat) :
    s ≠ indexed name i := by
  rintro rfl
  rw [toList_indexed] at plain
  exact plain (List.mem_append_right _ List.mem_cons_self)

/-! ### Segments one below the other -/

/-- Neither list of segments continues the other. -/
def Apart (p q : List String) : Prop := ¬ p <+: q ∧ ¬ q <+: p

namespace Apart

variable {p q : List String}

theorem symm (h : Apart p q) : Apart q p := ⟨h.2, h.1⟩

theorem ne (h : Apart p q) : p ≠ q := by
  rintro rfl
  exact h.1 List.prefix_rfl

theorem of_head_ne {a b : String} (h : a ≠ b) (p q : List String) : Apart (a :: p) (b :: q) := by
  refine ⟨fun above => h ?_, fun above => h ?_⟩
  · exact (List.cons_prefix_cons.1 above).1
  · exact (List.cons_prefix_cons.1 above).1.symm

theorem cons_iff {a : String} : Apart (a :: p) (a :: q) ↔ Apart p q := by
  rw [Apart, Apart, List.cons_prefix_cons, List.cons_prefix_cons, eq_self, true_and, true_and]

end Apart

/-! ### Paths -/

namespace FieldPath

/-- The paths differ, and neither is above the other. -/
def Apart (p q : FieldPath) : Prop :=
  p ≠ q ∧ p.isDescendantOf q = false ∧ q.isDescendantOf p = false

theorem isDescendantOf_iff {p q : FieldPath} :
    p.isDescendantOf q = true ↔ q.segments <+: p.segments ∧ p ≠ q := by
  rw [isDescendantOf, Bool.and_eq_true, decide_eq_true_eq, List.isPrefixOf_iff_prefix, depth, depth]
  constructor
  · rintro ⟨shorter, above⟩
    refine ⟨above, ?_⟩
    rintro rfl
    exact Nat.lt_irrefl _ shorter
  · rintro ⟨above, differ⟩
    refine ⟨Nat.lt_of_le_of_ne above.length_le fun same => differ ?_, above⟩
    exact congrArg FieldPath.mk (above.eq_of_length same).symm

theorem apart_iff {p q : FieldPath} : p.Apart q ↔ BrokerExam.Apart p.segments q.segments := by
  have below (a b : FieldPath) (differ : a ≠ b) :
      a.isDescendantOf b = false ↔ ¬ b.segments <+: a.segments := by
    rw [← Bool.not_eq_true, isDescendantOf_iff]
    exact not_congr (and_iff_left differ)
  constructor
  · rintro ⟨differ, hp, hq⟩
    exact ⟨(below q p differ.symm).1 hq, (below p q differ).1 hp⟩
  · intro h
    have differ : p ≠ q := fun same => h.ne (congrArg segments same)
    exact ⟨differ, (below p q differ).2 h.2, (below q p differ.symm).2 h.1⟩

end FieldPath
end BrokerExam
