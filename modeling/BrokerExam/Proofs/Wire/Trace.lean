/-
BrokerExam/Proofs/Wire/Trace.lean

What a reader has met, without regard to where: the values one after the other,
each with the segments that lead to it and the number of bytes it was read from.
Laid out from an offset, below a path, a trace is a list of fields.

An encoding has a trace of its own (`Encoding.trace`).  A reader may meet the
same values in other bytes, since a number can be written longer than it needs
to be.
-/
import BrokerExam.Wire.Encoding
import BrokerExam.Wire.FieldRead

namespace BrokerExam

/-- A value met. -/
structure Mark where
  path : List String
  value : Value
  /-- How many bytes it was read from. -/
  width : Nat

abbrev Trace := List Mark

namespace Trace

/-- How many bytes the values take. -/
def width : Trace → Nat
  | [] => 0
  | m :: t => m.width + width t

/-- The fields below the path, laid out from the offset on. -/
def fields (base : FieldPath) : Nat → Trace → List Field
  | _, [] => []
  | start, m :: t =>
    ⟨⟨base.segments ++ m.path⟩, m.value, start, start + m.width⟩ ::
      fields base (start + m.width) t

/-- The trace below the segment. -/
def scope (segment : String) (t : Trace) : Trace :=
  t.map fun m => { m with path := segment :: m.path }

@[simp] theorem width_nil : width [] = 0 := rfl

@[simp] theorem width_cons (m : Mark) (t : Trace) : width (m :: t) = m.width + width t := rfl

theorem width_append (t t' : Trace) : width (t ++ t') = width t + width t' := by
  induction t with
  | nil => exact (Nat.zero_add _).symm
  | cons m t ih => rw [List.cons_append, width_cons, ih, width_cons, Nat.add_assoc]

@[simp] theorem width_scope (segment : String) (t : Trace) : (scope segment t).width = t.width := by
  induction t with
  | nil => rfl
  | cons m t ih => exact congrArg (m.width + ·) ih

theorem fields_append (base : FieldPath) (start : Nat) (t t' : Trace) :
    fields base start (t ++ t') = fields base start t ++ fields base (start + t.width) t' := by
  induction t generalizing start with
  | nil => rfl
  | cons m t ih =>
    rw [List.cons_append, fields, ih, fields, List.cons_append, width_cons, Nat.add_assoc]

theorem length_fields (base : FieldPath) (start : Nat) (t : Trace) :
    (fields base start t).length = t.length := by
  induction t generalizing start with
  | nil => rfl
  | cons m t ih => rw [fields, List.length_cons, ih, List.length_cons]

/-- A segment may stand in the path above the trace or in the trace. -/
theorem fields_scope (base : FieldPath) (start : Nat) (segment : String) (t : Trace) :
    fields base start (scope segment t) = fields (base.child segment) start t := by
  induction t generalizing start with
  | nil => rfl
  | cons m t ih =>
    have path : base.segments ++ segment :: m.path = (base.child segment).segments ++ m.path := by
      rw [FieldPath.child, List.append_assoc, List.singleton_append]
    show _ :: fields base _ (scope segment t) = _
    rw [ih, path, fields]

/-- Every field comes from a mark, and ends no later than all of them. -/
theorem mark_of_mem_fields {base : FieldPath} {start : Nat} {t : Trace} {f : Field}
    (h : f ∈ t.fields base start) :
    (∃ m ∈ t, f.path.segments = base.segments ++ m.path ∧ f.value = m.value) ∧
      f.stop ≤ start + t.width := by
  induction t generalizing start with
  | nil => exact absurd h List.not_mem_nil
  | cons m t ih =>
    rw [width_cons, ← Nat.add_assoc]
    rcases List.mem_cons.1 h with rfl | h
    · exact ⟨⟨m, List.mem_cons_self, rfl, rfl⟩, Nat.le_add_right _ _⟩
    · obtain ⟨⟨n, hn, same⟩, inside⟩ := ih h
      exact ⟨⟨n, List.mem_cons_of_mem m hn, same⟩, inside⟩

end Trace

/-! ### Encodings -/

namespace Encoding

/-- The values in the bytes that are written for them. -/
def trace (e : Encoding) : Trace := e.map fun l => ⟨l.path, l.value, l.value.bytes.length⟩

theorem bytes_append (e e' : Encoding) : bytes (e ++ e') = bytes e ++ bytes e' :=
  List.flatMap_append

theorem trace_append (e e' : Encoding) : trace (e ++ e') = trace e ++ trace e' :=
  List.map_append

@[simp] theorem bytes_leaf (segment : String) (v : Value) : bytes (leaf segment v) = v.bytes :=
  List.append_nil v.bytes

@[simp] theorem bytes_scope (segment : String) (e : Encoding) : bytes (scope segment e) = bytes e :=
  List.flatMap_map ..

theorem trace_scope (segment : String) (e : Encoding) :
    trace (scope segment e) = (trace e).scope segment := by
  simp only [trace, scope, Trace.scope, List.map_map]
  rfl

@[simp] theorem width_trace (e : Encoding) : e.trace.width = e.bytes.length := by
  induction e with
  | nil => rfl
  | cons l e ih =>
    show l.value.bytes.length + Trace.width (trace e) = (l.value.bytes ++ bytes e).length
    rw [ih, List.length_append]

/-- The fields of a written message are its values laid end to end from the root. -/
theorem fields_eq_trace (e : Encoding) : e.fields = e.trace.fields FieldPath.root 0 := by
  suffices h : ∀ start, fieldsFrom start e = e.trace.fields FieldPath.root start from h 0
  induction e with
  | nil => exact fun _ => rfl
  | cons l e ih =>
    intro start
    rw [fieldsFrom, ih]
    rfl

/-- What is written first has the first fields. -/
theorem take_fields_append (e e' : Encoding) : (e ++ e').fields.take e.length = e.fields := by
  have length : (e.trace.fields FieldPath.root 0).length = e.length := by
    rw [Trace.length_fields, trace, List.length_map]
  rw [fields_eq_trace, fields_eq_trace, trace_append, Trace.fields_append]
  exact List.take_left' length

end Encoding

/-! ### Readers -/

namespace ReadState

variable {ν : Type}

/-- The state with the trace met and `rest` left to read. -/
def past (s : ReadState ν) (t : Trace) (rest : Bytes) : ReadState ν :=
  { s with
    cursor := ⟨s.cursor.offset + t.width, rest⟩
    fields := s.fields ++ (t.fields s.path s.cursor.offset).toArray }

theorem past_offset (s : ReadState ν) (t : Trace) (rest : Bytes) :
    (s.past t rest).cursor.offset = s.cursor.offset + t.width := rfl

theorem past_ahead (s : ReadState ν) (t : Trace) (rest : Bytes) :
    (s.past t rest).cursor.ahead = rest := rfl

theorem past_nil (s : ReadState ν) : s.past [] s.cursor.ahead = s := by
  have same : s.fields ++ (Trace.fields s.path s.cursor.offset []).toArray = s.fields :=
    Array.append_empty
  rw [past, same]
  rfl

theorem past_past (s : ReadState ν) (t t' : Trace) (left rest : Bytes) :
    (s.past t left).past t' rest = s.past (t ++ t') rest := by
  simp only [past, Trace.width_append, Trace.fields_append, Array.append_assoc,
    List.append_toArray, Nat.add_assoc]

end ReadState
end BrokerExam
