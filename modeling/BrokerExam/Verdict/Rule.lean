/-
BrokerExam/Verdict/Rule.lean

Rules for single fields.  A rule says at which paths it applies and what it
asks of the value there; the first rule that applies to a field judges it.  A
field to which no rule applies is a fault of whoever wrote the rules.
-/
import BrokerExam.Fault
import BrokerExam.Field.Basic
import BrokerExam.Field.Navigation

namespace BrokerExam

/-- Which paths a rule is for. -/
inductive Pattern
  /-- The one path with this text. -/
  | exactly (dotted : String)
  /-- Paths with these segments, where `Name[*]` stands for any element of `Name`, and `**` at the
  end for one or more segments. -/
  | like (dotted : String)
  deriving DecidableEq, Repr

namespace Pattern

/-- Whether a segment is the name of an element, such as `Topics[12]`. -/
def isElement (name segment : List Char) : Bool :=
  name.isPrefixOf segment &&
    match segment.drop name.length with
    | '[' :: rest =>
      let index := rest.dropLast
      rest.getLast? = some ']' && index ≠ [] && index.all Char.isDigit
    | _ => false

def matchesSegment (wanted segment : String) : Bool :=
  let anyElement := ['[', '*', ']']
  if anyElement.isSuffixOf wanted.toList then
    isElement (wanted.toList.take (wanted.length - anyElement.length)) segment.toList
  else segment = wanted

def matchesSegments : (wanted segments : List String) → Bool
  | [], segments => segments = []
  | "**" :: _, segments => segments ≠ []
  | _ :: _, [] => false
  | w :: ws, s :: ss => matchesSegment w s && matchesSegments ws ss

def matchesPath : Pattern → FieldPath → Bool
  | exactly dotted, path => path.text = dotted
  | like dotted, path =>
    matchesSegments ((Text.split '.' dotted.toList).map String.ofList) path.segments

end Pattern

/-- What is asked of a value. -/
inductive Demand
  | anything
  | int8 (v : Int8)
  | int16 (v : Int16)
  | int32 (v : Int32)
  /-- A length that counts one more than so many elements. -/
  | elements (n : Nat)
  deriving DecidableEq, Repr

namespace Demand

/-- The complaint about a field that is not what it should be. -/
def complaint (f : Field) (expected : String) : Except Fault (Option String) := do
  return some s!"Expected {← f.path.lastSegment} to be {expected}, got {f.value.display}"

/-- The complaint about a field that does not have the value that it should have. -/
def unequal (f : Field) (expected : Value) : Except Fault (Option String) :=
  if f.value = expected then .ok none else complaint f expected.display

/-- As `unequal`, for a field that must have a value of the same type. -/
def unequalOfType (f : Field) (expected : Value) : Except Fault (Option String) := do
  let _ ← f.value.expect expected.type
  unequal f expected

theorem unequal_eq_none_iff {f : Field} {expected : Value} :
    unequal f expected = .ok none ↔ f.value = expected := by
  rw [unequal]
  split
  · next same => exact iff_of_true rfl same
  · next other =>
    refine iff_of_false (fun fine => ?_) other
    rw [complaint] at fine
    cases named : f.path.lastSegment with
    | error fault =>
      rw [named] at fine
      cases fine
    | ok segment =>
      rw [named] at fine
      cases fine

theorem unequalOfType_of_type {f : Field} {expected : Value} (same : f.value.type = expected.type) :
    unequalOfType f expected = unequal f expected := by
  rw [unequalOfType, Value.expect, if_pos same]
  rfl

/-- A value of another type is a fault, and no complaint. -/
theorem unequalOfType_eq_none_iff {f : Field} {expected : Value} :
    unequalOfType f expected = .ok none ↔ f.value = expected := by
  by_cases same : f.value.type = expected.type
  · rw [unequalOfType_of_type same, unequal_eq_none_iff]
  · refine iff_of_false (fun fine => ?_) fun equal => same (congrArg Value.type equal)
    rw [unequalOfType, Value.expect, if_neg same] at fine
    cases fine

/-- The complaint about a field, if there is one. -/
def judge (f : Field) : Demand → Except Fault (Option String)
  | anything => .ok none
  | int8 v => unequalOfType f (.int8 v)
  | int16 v => unequalOfType f (.int16 v)
  | int32 v => unequalOfType f (.int32 v)
  | elements n => unequal f (.compactArrayLength (UInt64.ofNat (n + 1)))

end Demand

structure Rule where
  pattern : Pattern
  demand : Demand
  deriving DecidableEq, Repr

/-- The complaint of the first rule that applies. -/
def Rule.judge (f : Field) : List Rule → Except Fault (Option String)
  | [] => .error (.unhandledPath f.path)
  | r :: rs => if r.pattern.matchesPath f.path then r.demand.judge f else judge f rs

end BrokerExam
