/-
BrokerExam/Proofs/Verdict/Faultless.lean

Judging never faults.  Whatever bytes are received, each recorded field is at a
path that the rules judge, with a value of the type they ask for (`Covers`); the
trees that are shown hold the path that they are to mark; and the bytes that are
shown with them begin no later than the marker.  So the verdict is always a
response or an objection.

Main result: `judging_faultless`.
-/
import BrokerExam.Proofs.Message.Addresses
import BrokerExam.Proofs.Report.HexDump
import BrokerExam.Proofs.Verdict.Coverage
import BrokerExam.Proofs.Verdict.Judge
import BrokerExam.Proofs.Wire.Inside
import BrokerExam.Verdict.ApiVersions
import BrokerExam.Verdict.DescribeTopicPartitions
import BrokerExam.Verdict.Fetch
import BrokerExam.Verdict.Produce

namespace BrokerExam

open Rehearsal

/-! ### Answers -/

namespace Verdict

/-- The outcome is a response or an objection to it. -/
inductive Answered {α : Type} : Except Failure α → Prop
  | passed (a : α) : Answered (.ok a)
  | refused (o : Objection) : Answered (.error (.objection o))

namespace Answered

variable {α β : Type} {x : Except Failure α} {f : α → Except Failure β}

theorem bind (hx : Answered x) (hf : ∀ a, Answered (f a)) : Answered (x >>= f) := by
  cases hx with
  | passed a => exact hf a
  | refused o => exact .refused o

theorem of_objection (v : Except Objection α) : Answered (v.mapError Failure.objection) := by
  cases v with
  | ok a => exact .passed a
  | error o => exact .refused o

end Answered
end Verdict

/-! ### Bytes shown -/

namespace Verdict

theorem shown_ok {tree : Except Fault (List String)} (h : ∃ lines, tree = .ok lines)
    (payload : Bytes) (start stop : Nat) : shown tree payload start stop = .ok () := by
  obtain ⟨lines, rfl⟩ := h
  obtain ⟨dump, formatted⟩ :=
    HexDump.formatWithRange_ok payload start (max (stop - 1) start)
  rw [shown, formatted]
  rfl

end Verdict

/-! ### Complaints -/

theorem FieldPath.getLast?_of_lastSegment {path : FieldPath} {segment : String}
    (h : path.lastSegment = .ok segment) : path.segments.getLast? = some segment := by
  rw [lastSegment] at h
  split at h
  · next found => rw [found, Except.ok.inj h]
  · cases h

namespace Expectation

variable {ε β : Type} [Expectation ε β] [ResponseBody β] [ResponseLayout β]

/-- The rules judge every value that a response can hold, and no segment in it has a dot. -/
structure Covers (ε : Type) {β : Type} [Expectation ε β] [ResponseBody β] [ResponseLayout β] :
    Prop where
  tidy : (Response.layout β).tidy = true
  dotless : (Response.layout β).dotless = true
  covers : ∀ e : ε, (Rule.asks (rules e)).covers (Response.layout β) = true

theorem Covers.dotless_recorded (h : Covers ε) {payload : Bytes} {f : Field}
    (hf : f ∈ Response.recorded β payload) : ∀ s ∈ f.path.segments, '.' ∉ s.toList :=
  (Response.has_recorded hf).dotless h.dotless

omit [ResponseBody β] [ResponseLayout β] in
/-- What becomes of a field with a last segment. -/
theorem complaint?_eq (e : ε) {f : Field} {segment : String}
    (named : f.path.lastSegment = .ok segment) : Verdict.complaint? e f =
      if segment = tagBufferSegment then .ok none else Rule.judge f (rules e) := by
  rw [Verdict.complaint?, named]
  rfl

theorem Covers.complaint_ok (h : Covers ε) (e : ε) {payload : Bytes} {f : Field}
    (hf : f ∈ Response.recorded β payload) :
    ∃ complaint, Verdict.complaint? e f = .ok complaint := by
  have below := Response.path_recorded_ne_root h.tidy hf
  obtain ⟨segment, named⟩ := Tree.lastSegment_ok below
  rw [complaint?_eq e named]
  split
  · exact ⟨none, rfl⟩
  · next other =>
    have last := FieldPath.getLast?_of_lastSegment named
    obtain ⟨asked, first, suits⟩ := Asks.covers_sound (h.covers e) (Response.has_recorded hf)
      fun tag => other (Option.some.inj (last.symm.trans tag))
    exact Rule.judge_ok below (h.dotless_recorded hf) ⟨segment, named⟩ first suits

omit [ResponseBody β] [ResponseLayout β] in
/-- The last complaint is about one of the fields. -/
theorem lastComplaint_ok (e : ε) {fields : List Field}
    (h : ∀ f ∈ fields, ∃ complaint, Verdict.complaint? e f = .ok complaint) :
    ∃ last, Verdict.lastComplaint e fields = .ok last ∧ ∀ f text, last = some (f, text) →
      f ∈ fields := by
  induction fields with
  | nil => exact ⟨none, rfl, fun f text none => by cases none⟩
  | cons f fs ih =>
    obtain ⟨here, judged⟩ := h f List.mem_cons_self
    obtain ⟨later, behind, among⟩ := ih fun g hg => h g (List.mem_cons_of_mem f hg)
    -- a later complaint goes before the one here
    rw [Verdict.lastComplaint, judged, behind]
    cases later with
    | some last =>
      exact ⟨some last, rfl, fun g text same => List.mem_cons_of_mem f (among g text same)⟩
    | none =>
      refine ⟨here.map (f, ·), rfl, fun g text same => ?_⟩
      obtain ⟨complaint, -, pair⟩ := Option.map_eq_some_iff.1 same
      rw [← (Prod.mk.inj pair).1]
      exact List.mem_cons_self

end Expectation

/-! ### The verdict -/

/-- The tree for an error of reading can be shown. -/
theorem Response.tree_of_error {β : Type} [ResponseBody β] [ResponseLayout β]
    (tidy : (layout β).tidy = true) {payload : Bytes} {e : DecodeError} {s : ReadState Unit}
    (run : (read payload : EStateM.Result _ _ (Response β)) = .error e s) :
    ∃ tree, Tree.linesForDecodeError (recorded β payload) e.path = .ok tree := by
  have trees := addressed tidy payload
  by_cases blamed : e.IsBlamed (recorded β payload)
  · obtain ⟨f, hf, path, start, stop⟩ := blamed
    have same : f.anchor = e.anchor := by
      rw [Field.anchor, DecodeError.anchor, path, start, stop]
    obtain ⟨tree, shown, -⟩ := trees.blamed e s run f hf same
    exact ⟨tree, shown⟩
  · obtain ⟨above, tree, -, shown, -⟩ := trees.unblamed e s run blamed
    exact ⟨tree, shown⟩

namespace Verdict

variable {ε β : Type} [Expectation ε β] [ResponseBody β] [ResponseLayout β]

theorem answered_verdictOnFields (h : Expectation.Covers ε) (e : ε) (payload : Bytes) :
    Answered (verdictOnFields e payload) := by
  obtain ⟨last, judged, among⟩ := Expectation.lastComplaint_ok e
    fun f (hf : f ∈ Response.recorded β payload) => h.complaint_ok e hf
  have complained {f : Field} {text : String} (same : last = some (f, text)) :
      ∃ tree, Tree.linesForFailedField (Response.recorded β payload) f.path = .ok tree := by
    obtain ⟨tree, shown, -⟩ := Response.marks_recorded h.tidy (among f text same)
    exact ⟨tree, shown⟩
  unfold verdictOnFields
  rcases run : Response.read (β := β) payload with ⟨r, s⟩ | ⟨err, s⟩
  · have fields := Response.recorded_of_ok run
    rw [fields] at judged complained
    have below : ∀ g ∈ s.fields.toList, g.path.segments ≠ [] := fun g hg =>
      Response.path_recorded_ne_root h.tidy (fields ▸ hg)
    obtain ⟨pen, -, lines, -⟩ := Tree.lines_ok below
    dsimp only
    rw [judged]
    rcases last with - | ⟨f, text⟩
    · rw [lines]
      exact .passed r
    · show Answered (shown _ _ _ _ >>= _)
      rw [shown_ok (complained rfl)]
      exact .refused _
  · have fields := Response.recorded_of_error run
    have tree := Response.tree_of_error h.tidy run
    rw [fields] at judged complained tree
    dsimp only
    rw [judged]
    rcases last with - | ⟨f, text⟩
    · show Answered (shown _ _ _ _ >>= _)
      rw [shown_ok tree]
      exact .refused _
    · show Answered (shown _ _ _ _ >>= _)
      rw [shown_ok (complained rfl)]
      exact .refused _

omit [ResponseBody β] [ResponseLayout β] in
theorem answered_verdictOnWhole (e : ε) (r : Response β) : Answered (verdictOnWhole e r) := by
  rw [verdictOnWhole]
  split
  · exact .passed ()
  · exact .refused _

theorem answered_verdict (h : Expectation.Covers ε) (e : ε) (f : Frame) (ignoreSize : Bool) :
    Answered (verdict e f ignoreSize) := by
  have rest : Answered (do
      let r ← verdictOnFields e f.payload
      verdictOnWhole e r
      return r) :=
    (answered_verdictOnFields h e f.payload).bind fun r =>
      (answered_verdictOnWhole e r).bind fun _ => .passed r
  unfold verdict
  cases ignoreSize with
  | true => exact rest
  | false => exact (Answered.of_objection f.checkSize).bind fun _ => rest

/-- Whatever is expected and whatever is received, judging ends with an answer, in every world. -/
def NeverFaults (ε : Type) {β : Type} [Expectation ε β] [ResponseBody β] : Prop :=
  ∀ (e : ε) (f : Frame) (ignoreSize : Bool) (w : World), ∃ v w',
    (judgeMessage e f ignoreSize : Tried InWorld (Response β)).run w = .ok v w' ∧ Answered v

theorem neverFaults (h : Expectation.Covers ε) : NeverFaults ε := by
  intro e f ignoreSize w
  obtain ⟨w', run⟩ := comesTo_judgeMessage e f ignoreSize w
  exact ⟨_, w', run, answered_verdict h e f ignoreSize⟩

end Verdict

/-! ### The rules of the APIs -/

namespace Expectation

/-- Which rule judges a field, and for which type it asks, does not depend on what is expected. -/
theorem covers_of_rules {ε β : Type} [Expectation ε β] [ResponseBody β] [ResponseLayout β]
    (tidy : (Response.layout β).tidy = true) (e₀ : ε)
    (same : ∀ e : ε, Rule.asks (rules e) = Rule.asks (rules e₀))
    (h : ((Response.layout β).dotless &&
      (Rule.asks (rules e₀)).covers (Response.layout β)) = true) :
    Covers ε := by
  rw [Bool.and_eq_true] at h
  exact ⟨tidy, h.1, fun e => by rw [same e]; exact h.2⟩

theorem covers_apiVersions : Covers ApiVersionsExpectation :=
  covers_of_rules Response.layout_tidy.1 { correlationId := 0 } (fun _ => rfl) (by decide +kernel)

theorem covers_describeTopicPartitions : Covers DescribeTopicPartitionsExpectation :=
  covers_of_rules Response.layout_tidy.2.1 { correlationId := 0 } (fun _ => rfl)
    (by decide +kernel)

theorem covers_fetch : Covers FetchExpectation :=
  covers_of_rules Response.layout_tidy.2.2.1 { correlationId := 0 } (fun _ => rfl)
    (by decide +kernel)

theorem covers_produce : Covers ProduceExpectation :=
  covers_of_rules Response.layout_tidy.2.2.2 { correlationId := 0 } (fun _ => rfl)
    (by decide +kernel)

end Expectation

/-! ### Places and spans -/

/-- An orderly reader moves on within the bytes that it sees. -/
theorem Orderly.onward {ν α : Type} {l : Layout} {anchors : List Anchor} {r : NotingRead ν α}
    (h : Orderly l anchors r) : FieldRead.Onward r := by
  intro s a s' run
  obtain ⟨t, met, rfl⟩ := h.ok s a s' run
  refine ⟨Reaches.past (List.take_append_drop t.width s.cursor.ahead).symm ?_, rfl⟩
  rw [List.length_take, Nat.min_eq_left met.width]

/-- What judging relies on where it remembers a place, measures a span of bytes or cuts one out:
the field that was read last, bytes that were read, a row that begins in front of the marker. -/
structure Verdict.InRange : Prop where
  /-- A place that is remembered is that of the latest field. -/
  anchor : ∀ {ν α : Type} (segment : String) (kind : Kind α) (s s' : ReadState ν) (v : α)
    (a : Anchor), FieldRead.anchored segment kind s = .ok (v, a) s' →
      s'.fields.back?.map Field.anchor = some a
  /-- What a single field takes lies ahead. -/
  field : ∀ {ν α : Type} (segment : String) {kind : Kind α}, kind.Primitive →
    FieldRead.Onward (FieldRead.field segment kind : NotingRead ν α)
  /-- What is counted as the size of a record lies ahead. -/
  record : FieldRead.Onward Record.contents.read
  /-- What the checksum of a batch covers lies ahead. -/
  covered : FieldRead.Onward RecordBatch.covered.read
  /-- What is counted as the size of a stream lies ahead. -/
  stream : ∀ (name : String) (size : Nat),
    FieldRead.Onward (FieldRead.bounded size (FieldRead.all name RecordBatch.read))
  window : ∀ (bytes : Bytes) (first : Nat), ((HexDump.mk bytes 0).windowAt first).start ≤ first
  row : ∀ (d : HexDump) (first : Nat), (d.windowAt first).bytes.length ≤ HexDump.bytesPerRow

theorem Verdict.inRange : Verdict.InRange where
  anchor := by
    intro ν α segment kind s s' v a run
    simp only [FieldRead.anchored] at run
    split at run
    · obtain ⟨same, rfl⟩ := EStateM.Result.ok.inj run
      rw [Array.back?_push, ← (Prod.mk.inj same).2]
      rfl
    · cases run
  field := fun segment kind h => (FieldRead.Local.field segment h.isLocal).onward
  record := Codec.LaidOut.orderly.onward
  covered := Codec.LaidOut.orderly.onward
  stream := fun name size =>
    ((Codec.LaidOut.orderly (c := RecordBatch.codec)).all.bounded size).onward
  window := HexDump.start_windowAt_le
  row := HexDump.length_windowAt_le

/-- **Judging never faults.**  Whatever an exam expects of the response to any API, and whatever
bytes it receives, judging ends in every world with the response or an objection: every field is at
a path that a rule judges, with a value of the type it asks for, and every tree and every row of
bytes can be shown.  What is remembered, measured or cut out on the way is there (`InRange`). -/
theorem judging_faultless :
    Verdict.NeverFaults ApiVersionsExpectation ∧
    Verdict.NeverFaults DescribeTopicPartitionsExpectation ∧
    Verdict.NeverFaults FetchExpectation ∧
    Verdict.NeverFaults ProduceExpectation ∧ Verdict.InRange :=
  ⟨Verdict.neverFaults Expectation.covers_apiVersions,
    Verdict.neverFaults Expectation.covers_describeTopicPartitions,
    Verdict.neverFaults Expectation.covers_fetch,
    Verdict.neverFaults Expectation.covers_produce, Verdict.inRange⟩

end BrokerExam
