/-
BrokerExam/Proofs/Verdict/Passing.lean

How an answer passes.  None of the fields that reading it records is complained
about, each of them being as it is demanded, and the answer as a whole is as it
is expected.

Main results: `Verdict.verdict_frame_eq_ok_iff`, `Verdict.passes_of_fine` and
`Verdict.verdict_encode_eq_ok_iff`.
-/
import BrokerExam.Proofs.Frame
import BrokerExam.Proofs.Message.RoundTrip
import BrokerExam.Proofs.Verdict.Faultless

namespace BrokerExam

/-! ### Fields that are fine -/

/-- The one value that is fine, unless there are others. -/
def Demand.value? : Demand → Option Value
  | anything => none
  | int8 v => some (.int8 v)
  | int16 v => some (.int16 v)
  | int32 v => some (.int32 v)
  | elements n => some (.compactArrayLength (UInt64.ofNat (n + 1)))

/-- Of one value that is demanded only that value is fine. -/
theorem Demand.judge_eq_none_iff {d : Demand} {v : Value} (one : d.value? = some v) {f : Field} :
    d.judge f = .ok none ↔ f.value = v := by
  cases d with
  | anything => cases one
  | elements n =>
    cases one
    exact unequal_eq_none_iff
  | _ w =>
    cases one
    exact unequalOfType_eq_none_iff

theorem Demand.judge_fine {d : Demand} {f : Field} (same : ∀ v, d.value? = some v → f.value = v) :
    d.judge f = .ok none := by
  cases one : d.value? with
  | some v => exact (judge_eq_none_iff one).2 (same v one)
  | none =>
    cases d with
    | anything => rfl
    | _ v => cases one

namespace Expectation

variable {ε β : Type} [Expectation ε β] {e : ε} {f : Field}

/-- Nothing is wrong with a tag buffer. -/
theorem complaint?_of_tagBuffer (above : List String)
    (path : f.path.segments = above ++ [tagBufferSegment]) :
    Verdict.complaint? e f = .ok none := by
  have named : f.path.lastSegment = .ok tagBufferSegment := by
    rw [FieldPath.lastSegment, path, List.getLast?_concat]
  rw [complaint?_eq e named, if_pos rfl]

/-- Nothing is wrong with a field that is as demanded. -/
theorem complaint?_of_demand {d : Demand} (below : f.path.segments ≠ [])
    (dotless : ∀ s ∈ f.path.segments, '.' ∉ s.toList)
    (first : (Rule.demands (rules e)).first f.path.segments = some d)
    (fine : d.judge f = .ok none) : Verdict.complaint? e f = .ok none := by
  obtain ⟨segment, named⟩ := Tree.lastSegment_ok below
  rw [complaint?_eq e named, Rule.judge_eq below dotless first, fine, ite_self]

/-- Nothing is wrong with a field that has the one value demanded, if there is one. -/
theorem complaint?_of_value {d : Demand} {path : List String} {v : Value}
    (place : f.path.segments = path) (value : f.value = v) (below : path ≠ [])
    (dotless : ∀ s ∈ f.path.segments, '.' ∉ s.toList)
    (first : (Rule.demands (rules e)).first path = some d)
    (same : ∀ v', d.value? = some v' → v = v') : Verdict.complaint? e f = .ok none := by
  subst place value
  exact complaint?_of_demand below dotless first (Demand.judge_fine same)

/-- Nothing is wrong with a field of which one value is demanded exactly if it has that value. -/
theorem complaint?_eq_none_iff {d : Demand} {path : List String} {segment : String} {v : Value}
    (place : f.path.segments = path) (last : path.getLast? = some segment)
    (other : segment ≠ tagBufferSegment) (dotless : ∀ s ∈ path, '.' ∉ s.toList)
    (first : (Rule.demands (rules e)).first path = some d) (one : d.value? = some v) :
    Verdict.complaint? e f = .ok none ↔ f.value = v := by
  subst place
  have named : f.path.lastSegment = .ok segment := by rw [FieldPath.lastSegment, last]
  have below : f.path.segments ≠ [] := by
    intro none
    rw [none] at last
    cases last
  rw [complaint?_eq e named, if_neg other, Rule.judge_eq below dotless first,
    Demand.judge_eq_none_iff one]

theorem lastComplaint_of_fine {fields : List Field}
    (fine : ∀ f ∈ fields, Verdict.complaint? e f = .ok none) :
    Verdict.lastComplaint e fields = .ok none := by
  induction fields with
  | nil => rfl
  | cons f fs ih =>
    rw [Verdict.lastComplaint, fine f List.mem_cons_self,
      ih fun g hg => fine g (List.mem_cons_of_mem f hg)]
    rfl

end Expectation

/-! ### What is written -/

/-- Each leaf that is written is a field. -/
theorem Encoding.field_of_mem {l : Leaf} {en : Encoding} (h : l ∈ en) (start : Nat) :
    ∃ f ∈ en.fieldsFrom start, f.path.segments = l.path ∧ f.value = l.value := by
  induction en generalizing start with
  | nil => exact absurd h List.not_mem_nil
  | cons l' en ih =>
    rcases List.mem_cons.1 h with rfl | h
    · exact ⟨_, List.mem_cons_self, rfl, rfl⟩
    · obtain ⟨f, hf, same⟩ := ih h (start + l'.value.bytes.length)
      exact ⟨f, List.mem_cons_of_mem _ hf, same⟩

/-- What is written for an array is its length, and what is below its elements. -/
theorem Encoding.leaf_of_mem_compactArray {name : String} {es : List Encoding} {l : Leaf}
    (h : l ∈ compactArray name es) :
    l = ⟨[name, "Length"], .compactArrayLength (UInt64.ofNat (es.length + 1))⟩ ∨
      ∃ i rest, l.path = name :: indexed name i :: rest := by
  obtain ⟨below, hb, rfl⟩ := List.mem_map.1 h
  rcases List.mem_append.1 hb with length | inItems
  · obtain rfl := List.mem_singleton.1 length
    exact .inl rfl
  · obtain ⟨item, hi, inItem⟩ := List.mem_flatten.1 inItems
    obtain ⟨i, _, rfl⟩ := List.mem_mapIdx.1 hi
    obtain ⟨l, -, rfl⟩ := List.mem_map.1 inItem
    exact .inr ⟨i, l.path, rfl⟩

/-- Below the name of an array there is at least one segment more. -/
theorem Encoding.path_of_mem_compactArray {name : String} {es : List Encoding} {l : Leaf}
    (h : l ∈ compactArray name es) : ∃ segment rest, l.path = name :: segment :: rest := by
  obtain rfl | ⟨i, rest, path⟩ := leaf_of_mem_compactArray h
  · exact ⟨_, _, rfl⟩
  · exact ⟨_, _, path⟩

/-- Where a field stands makes no difference to what is said about it. -/
theorem Demand.judge_place (d : Demand) (f : Field) :
    d.judge ⟨f.path, f.value, 0, 0⟩ = d.judge f := by
  cases d <;> rfl

theorem Rule.judge_place (rules : List Rule) (f : Field) :
    judge ⟨f.path, f.value, 0, 0⟩ rules = judge f rules := by
  induction rules with
  | nil => rfl
  | cons r rules ih => rw [judge, judge, ih, Demand.judge_place]

namespace Expectation

variable {ε β : Type} [Expectation ε β] {e : ε}

/-- Nothing is wrong with a leaf, wherever it comes to stand. -/
def Allows (e : ε) (l : Leaf) : Prop := Verdict.complaint? e ⟨⟨l.path⟩, l.value, 0, 0⟩ = .ok none

theorem complaint?_place (e : ε) (f : Field) :
    Verdict.complaint? e ⟨f.path, f.value, 0, 0⟩ = Verdict.complaint? e f := by
  rw [Verdict.complaint?, Verdict.complaint?, Rule.judge_place]

/-- The fields of what is written are fine exactly if its leaves are. -/
theorem fields_fine_iff {en : Encoding} :
    (∀ f ∈ en.fields, Verdict.complaint? e f = .ok none) ↔ ∀ l ∈ en, Allows e l := by
  constructor
  · intro fine l hl
    obtain ⟨⟨⟨_⟩, _, start, stop⟩, hf, path, value⟩ := Encoding.field_of_mem hl 0
    obtain rfl := path
    obtain rfl := value
    exact (complaint?_place e _).trans (fine _ hf)
  · intro allowed f hf
    obtain ⟨l, hl, path, value⟩ := Encoding.leaf_of_mem_fields hf
    rw [← complaint?_place]
    have here := allowed l hl
    rw [Allows, ← path, ← value] at here
    exact here

/-- What is written for an answer has no dot in its names. -/
theorem Covers.dotless_encoding [ResponseBody β] [ResponseLayout β] {r : Response β}
    (covers : Covers ε) (recorded : r.RecordsFields) :
    ∀ f ∈ r.encoding.fields, ∀ s ∈ f.path.segments, '.' ∉ s.toList := by
  obtain ⟨_, s, run, fields⟩ := recorded
  rw [← fields, ← Response.recorded_of_ok run]
  exact fun f hf => covers.dotless_recorded hf

theorem allows_tagBuffer (above : List String) (v : Value) :
    Allows e ⟨above ++ [tagBufferSegment], v⟩ := complaint?_of_tagBuffer above rfl

/-- Of one value that is demanded at a path only that one is allowed there. -/
theorem allows_iff {d : Demand} {path : List String} {segment : String} {v w : Value}
    (last : path.getLast? = some segment) (other : segment ≠ tagBufferSegment)
    (dotless : ∀ s ∈ path, '.' ∉ s.toList)
    (first : (Rule.demands (rules e)).first path = some d) (one : d.value? = some v) :
    Allows e ⟨path, w⟩ ↔ w = v := complaint?_eq_none_iff rfl last other dotless first one

theorem allows_anything {l : Leaf} (below : l.path ≠ []) (dotless : ∀ s ∈ l.path, '.' ∉ s.toList)
    (first : (Rule.demands (rules e)).first l.path = some .anything) : Allows e l :=
  complaint?_of_demand below dotless first rfl

end Expectation

/-! ### Answers that pass -/

namespace Verdict

open Rehearsal

variable {ε β : Type} [Expectation ε β] [ResponseBody β] {e : ε} {r : Response β}

/-- Judging the answer behind its size, in a world, ends with an answer that passes. -/
def Passes (e : ε) (r : Response β) (ignoreSize : Bool) (w : World) : Prop :=
  ∃ r' w', (judgeMessage e ⟨frame r.encode⟩ ignoreSize : Tried InWorld (Response β)).run w =
    .ok (.ok r') w'

/-- Whether an answer passes is told by the verdict on it, in whatever world. -/
theorem passes_iff {ignoreSize : Bool} {w : World} :
    Passes e r ignoreSize w ↔ ∃ r', verdict e ⟨frame r.encode⟩ ignoreSize = .ok r' := by
  obtain ⟨w', run⟩ := comesTo_judgeMessage e ⟨frame r.encode⟩ ignoreSize w
  constructor
  · rintro ⟨r', w'', passes⟩
    exact ⟨r', (EStateM.Result.ok.inj (run.symm.trans passes)).1⟩
  · rintro ⟨r', passes⟩
    exact ⟨r', w', passes ▸ run⟩

variable [ResponseLayout β]

/-- **The verdict on a payload that can be read**, behind its size: it passes exactly if its size,
should that matter, can be told in a signed number, no field is complained about and the checks
hold. -/
theorem verdict_frame_eq_ok_iff (covers : Expectation.Covers ε) {payload : Bytes}
    {s : ReadState Unit} (run : Response.read payload = .ok r s) {ignoreSize : Bool}
    {r' : Response β} :
    verdict e ⟨frame payload⟩ ignoreSize = .ok r' ↔
      r' = r ∧ (ignoreSize = false → payload.length < 0x80000000) ∧
        (∀ f ∈ s.fields.toList, complaint? e f = .ok none) ∧
          Check.Passes (Expectation.checks e r) := by
  rw [verdict_eq_ok_iff, Frame.payload_frame, Frame.checkSize_frame_iff]
  constructor
  · rintro ⟨size, onFields, checked⟩
    obtain ⟨s', run', last, -⟩ := verdictOnFields_eq_ok_iff.1 onFields
    obtain ⟨rfl, rfl⟩ := EStateM.Result.ok.inj (run.symm.trans run')
    exact ⟨rfl, size, fun f hf => complaint?_of_lastComplaint last hf, checked⟩
  · rintro ⟨rfl, size, fine, checked⟩
    -- what is known of the fields of any payload is stated about `recorded`
    have recorded := Response.recorded_of_ok run
    obtain ⟨_, -, lines, -⟩ := Tree.lines_ok fun f (hf : f ∈ Response.recorded β payload) =>
      Response.path_recorded_ne_root covers.tidy hf
    rw [recorded] at lines
    exact ⟨size, verdictOnFields_eq_ok_iff.2
      ⟨s, run, Expectation.lastComplaint_of_fine fine, _, lines⟩, checked⟩

/-- An answer that is read in full passes if no field is complained about and the checks hold. -/
theorem passes_of_fine (covers : Expectation.Covers ε) {payload : Bytes} {s : ReadState Unit}
    (short : payload.length < 0x80000000) (run : Response.read payload = .ok r s)
    (fine : ∀ f ∈ s.fields.toList, (∀ segment ∈ f.path.segments, '.' ∉ segment.toList) →
      complaint? e f = .ok none)
    (checked : Check.Passes (Expectation.checks e r)) (ignoreSize : Bool) :
    verdict e ⟨frame payload⟩ ignoreSize = .ok r := by
  have recorded := Response.recorded_of_ok run
  refine (verdict_frame_eq_ok_iff covers run).2 ⟨rfl, fun _ => short, fun f hf => ?_, checked⟩
  exact fine f hf (covers.dotless_recorded (recorded ▸ hf))

/-- **The verdict on an answer that was written whole**, and that is what was written. -/
theorem verdict_encode_eq_ok_iff (covers : Expectation.Covers ε)
    (lawful : (ResponseBody.codec (β := β)).Lawful) (same : r.writtenBack = r)
    (addressable : r.encode.length < 0x8000000000000000) {ignoreSize : Bool} {r' : Response β} :
    verdict e ⟨frame r.encode⟩ ignoreSize = .ok r' ↔
      r' = r ∧ (ignoreSize = false → r.encode.length < 0x80000000) ∧
        (∀ f ∈ r.encoding.fields, complaint? e f = .ok none) ∧
          Check.Passes (Expectation.checks e r) := by
  obtain ⟨s, run, -, fields⟩ := Response.read_encode lawful.on_all trivial addressable
  rw [same] at run
  rw [verdict_frame_eq_ok_iff covers run, fields]

end Verdict
end BrokerExam
