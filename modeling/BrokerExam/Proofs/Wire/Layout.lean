/-
BrokerExam/Proofs/Wire/Layout.lean

Layouts: which values a message, or a part of one, can hold, and below which
segments.  A layout leaves open how often an array repeats its element, and which
of its parts are there at all; it fixes the segments and the types.

A layout is tidy if no two parts of one structure share a stem.  This can be
computed, and it is what keeps the paths of a message apart: `Has.apart` for two
parts of a structure, `elements_apart` for two elements of an array.
-/
import BrokerExam.Proofs.Field.Apart

namespace BrokerExam

/-- The segments that can stand at one place. -/
inductive Slot
  | only (segment : String)
  /-- The elements of an array from the index `first` on. -/
  | elements (name : String) (first : Nat)
  deriving DecidableEq

namespace Slot

def Holds : Slot → String → Prop
  | only segment, s => s = segment
  | elements name first, s => ∃ i, first ≤ i ∧ s = indexed name i

def stem : Slot → List Char
  | only segment => BrokerExam.stem segment
  | elements name _ => BrokerExam.stem name

theorem Holds.stem_eq {slot : Slot} {s : String} (h : slot.Holds s) :
    BrokerExam.stem s = slot.stem := by
  cases slot with
  | only segment => exact congrArg BrokerExam.stem h
  | elements name first =>
    obtain ⟨i, -, rfl⟩ := h
    exact stem_indexed name i

end Slot

inductive Layout
  | nothing
  /-- A value, right here. -/
  | value (type : ValueType)
  | under (slot : Slot) (inner : Layout)
  | both (first second : Layout)

namespace Layout

/-- There can be a value of the type at the path. -/
def Has : Layout → List String → ValueType → Prop
  | nothing, _, _ => False
  | value type, path, t => path = [] ∧ t = type
  | under slot inner, path, t => ∃ s rest, slot.Holds s ∧ path = s :: rest ∧ inner.Has rest t
  | both l l', path, t => l.Has path t ∨ l'.Has path t

/-- The stems of the first segments. -/
def stems : Layout → List (List Char)
  | nothing => []
  | value _ => []
  | under slot _ => [slot.stem]
  | both l l' => l.stems ++ l'.stems

/-- Every value stands below a segment. -/
def segmented : Layout → Bool
  | nothing => true
  | value _ => false
  | under _ _ => true
  | both l l' => l.segmented && l'.segmented

def isValue : Layout → Bool
  | value _ => true
  | _ => false

/-- No two parts of one structure have a stem in common. -/
def tidy : Layout → Bool
  | nothing => true
  | value _ => true
  | under _ inner => inner.tidy
  | both l l' => l.tidy && l'.tidy && l.segmented && l'.segmented &&
    l.stems.all fun s => !l'.stems.contains s

/-! ### Layouts by what they describe -/

def leaf (segment : String) (type : ValueType) : Layout := under (.only segment) (value type)

def scope (segment : String) (inner : Layout) : Layout := under (.only segment) inner

def tagBuffer : Layout := leaf tagBufferSegment .unsignedVarint

/-- The elements of an array, each below its index. -/
def elements (name : String) (element : Layout) : Layout := under (.elements name 0) element

/-- An array behind a length of the given type. -/
def array (lengthType : ValueType) (name : String) (element : Layout) : Layout :=
  scope name (both (leaf "Length" lengthType) (elements name element))

/-! ### Paths in a layout -/

variable {l l' inner : Layout} {path path' : List String} {t t' : ValueType}

/-- Where every value stands below a segment, that segment has one of the stems. -/
theorem Has.head (h : l.Has path t) (segmented : l.segmented = true) :
    ∃ s rest, path = s :: rest ∧ stem s ∈ l.stems := by
  induction l with
  | nothing => exact h.elim
  | value type => cases segmented
  | under slot inner =>
    obtain ⟨s, rest, holds, rfl, -⟩ := h
    exact ⟨s, rest, rfl, List.mem_singleton.2 holds.stem_eq⟩
  | both first second ihFirst ihSecond =>
    obtain ⟨hfirst, hsecond⟩ := Bool.and_eq_true_iff.1 segmented
    rcases h with h | h
    · obtain ⟨s, rest, same, member⟩ := ihFirst h hfirst
      exact ⟨s, rest, same, List.mem_append_left _ member⟩
    · obtain ⟨s, rest, same, member⟩ := ihSecond h hsecond
      exact ⟨s, rest, same, List.mem_append_right _ member⟩

/-- Both parts of a tidy structure are tidy, and every path into one is apart from every path into
the other. -/
theorem tidy_both (h : (both l l').tidy = true) :
    l.tidy = true ∧ l'.tidy = true ∧
      ∀ {path path' t t'}, l.Has path t → l'.Has path' t' → Apart path path' := by
  simp only [tidy, Bool.and_eq_true, List.all_eq_true, Bool.not_eq_true', List.contains_eq_mem,
    decide_eq_false_iff_not] at h
  obtain ⟨⟨⟨⟨first, second⟩, segmented⟩, segmented'⟩, disjoint⟩ := h
  refine ⟨first, second, fun {path path' t t'} has has' => ?_⟩
  obtain ⟨s, rest, rfl, member⟩ := has.head segmented
  obtain ⟨s', rest', rfl, member'⟩ := has'.head segmented'
  -- a common first segment would have a common stem
  refine Apart.of_head_ne (fun same => ?_) rest rest'
  exact disjoint _ member (same ▸ member')

/-- The parts of a tidy structure stand below segments. -/
theorem segmented_of_tidy (h : (both l l').tidy = true) : (both l l').segmented = true := by
  simp only [tidy, Bool.and_eq_true] at h
  obtain ⟨⟨⟨-, segmented⟩, segmented'⟩, -⟩ := h
  rw [Layout.segmented, segmented, segmented']
  rfl

/-- An element of an array is apart from every later one. -/
theorem elements_apart {name : String} {i : Nat}
    (h : (under (.only (indexed name i)) inner).Has path t)
    (h' : (under (.elements name (i + 1)) inner).Has path' t') : Apart path path' := by
  obtain ⟨s, rest, rfl, rfl, -⟩ := h
  obtain ⟨s', rest', ⟨j, later, rfl⟩, rfl, -⟩ := h'
  refine Apart.of_head_ne (fun same => ?_) rest rest'
  exact Nat.lt_irrefl i (indexed_inj same ▸ later)

/-- The elements from an index on are the one at the index and the later ones. -/
theorem elements_has {name : String} {i : Nat}
    (h : (under (.only (indexed name i)) inner).Has path t ∨
      (under (.elements name (i + 1)) inner).Has path t) :
    (under (.elements name i) inner).Has path t := by
  rcases h with ⟨s, rest, rfl, same, has⟩ | ⟨s, rest, ⟨j, later, rfl⟩, same, has⟩
  · exact ⟨_, rest, ⟨i, Nat.le_refl i, rfl⟩, same, has⟩
  · exact ⟨_, rest, ⟨j, Nat.le_of_succ_le later, rfl⟩, same, has⟩

end Layout
end BrokerExam
