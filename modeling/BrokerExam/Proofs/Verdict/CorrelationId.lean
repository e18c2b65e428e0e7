/-
BrokerExam/Proofs/Verdict/CorrelationId.lean

The correlation id of an answer.  It is the first of the fields that are
recorded, and an expectation of an answer to `ApiVersions` asks for one value of
it; so an answer passes for one correlation id at most.

Main result: `ApiVersionsExpectation.correlationId_of_passes`.
-/
import BrokerExam.Proofs.Message.Tiling
import BrokerExam.Proofs.Verdict.Judge
import BrokerExam.Verdict.ApiVersions

namespace BrokerExam

/-! ### The field -/

namespace Response

variable {β : Type} [ResponseBody β] [l : ResponseLayout β] {payload : Bytes} {s : ReadState Unit}

/-- Reading a header records its correlation id. -/
theorem correlationId_of_header {flexible : Bool} {header : ResponseHeader} {s s' : ReadState Unit}
    (run : (ResponseHeader.codec flexible).read s = .ok header s') :
    ∃ f ∈ s'.fields.toList, f.path.segments = s.path.segments ++ ["Header", "CorrelationID"] ∧
      f.value = .int32 header.correlationId := by
  obtain ⟨s₁, inHeader, rfl⟩ := FieldRead.ok_of_scope run
  obtain ⟨id, s₂, idRun, rest⟩ := ok_of_bind inHeader
  obtain ⟨used, left, -, -, rfl⟩ := FieldRead.ok_of_field Kind.Plain.int32.isLocal idRun
  obtain ⟨f, recorded, path, value⟩ : ∃ f ∈ (({ s with path := s.path.child "Header" } :
      ReadState Unit).past [⟨["CorrelationID"], .int32 id, used.length⟩] left).fields.toList,
      f.path.segments = s.path.segments ++ ["Header", "CorrelationID"] ∧ f.value = .int32 id := by
    simp [ReadState.past, Trace.fields, FieldPath.child]
  cases flexible with
  | false =>
    obtain ⟨rfl, rfl⟩ := EStateM.Result.ok.inj rest
    exact ⟨f, recorded, path, value⟩
  | true =>
    -- a tag buffer adds to the fields
    obtain ⟨_, s₃, tagRun, done⟩ := ok_of_bind rest
    obtain ⟨rfl, rfl⟩ := EStateM.Result.ok.inj done
    have orderly : Orderly Layout.tagBuffer [] (FieldRead.tagBuffer : NotingRead Unit Unit) :=
      Orderly.tagBuffer
    obtain ⟨t, -, rfl⟩ := orderly.ok _ _ _ tagRun
    refine ⟨f, ?_, path, value⟩
    show f ∈ (ReadState.after _ t).fields.toList
    rw [ReadState.after_fields]
    exact List.mem_append_left _ recorded

/-- A response that is read has recorded its correlation id. -/
theorem correlationId_recorded {r : Response β} (run : read payload = .ok r s) :
    ∃ f ∈ s.fields.toList, f.path.segments = [root β, "Header", "CorrelationID"] ∧
      f.value = .int32 r.header.correlationId := by
  rw [read, codec_read_eq] at run
  obtain ⟨s₁, run₁, rfl⟩ := FieldRead.ok_of_scope run
  obtain ⟨⟨header, body⟩, s₂, front, behind⟩ := ok_of_bind run₁
  obtain ⟨rfl, rfl, -⟩ := ok_of_ending behind
  obtain ⟨header', s₃, headerRun, rest⟩ := ok_of_bind front
  obtain ⟨body', s₄, bodyRun, done⟩ := ok_of_bind rest
  obtain ⟨same, rfl⟩ := EStateM.Result.ok.inj done
  obtain ⟨rfl, rfl⟩ := Prod.mk.inj same
  obtain ⟨f, hf, path, value⟩ := correlationId_of_header headerRun
  obtain ⟨t, -, rfl⟩ := l.laidOut.orderly.ok _ _ _ bodyRun
  refine ⟨f, ?_, path, value⟩
  show f ∈ (s₃.after t).fields.toList
  rw [ReadState.after_fields]
  exact List.mem_append_left _ hf

end Response

/-! ### The demand -/

namespace ApiVersionsExpectation

/-- The correlation id is the one that is expected, if there is no complaint about it. -/
theorem eq_of_complaint {e : ApiVersionsExpectation} {f : Field} {id : Int32}
    (path : f.path.segments = ["ApiVersionsResponse", "Header", "CorrelationID"])
    (value : f.value = .int32 id) (fine : Verdict.complaint? e f = .ok none) :
    id = e.correlationId := by
  obtain ⟨⟨_⟩, _, start, stop⟩ := f
  subst path value
  -- the demand on the correlation id is the first of all
  change Demand.unequal _ (.int32 e.correlationId) = .ok none at fine
  exact Value.int32.inj (Demand.unequal_eq_none_iff.1 fine)

/-- **An answer passes for its own correlation id.** -/
theorem correlationId_of_passes {e : ApiVersionsExpectation} {f : Frame} {ignoreSize : Bool}
    {r : Response ApiVersionsResponseBody} (passes : Verdict.verdict e f ignoreSize = .ok r) :
    r.header.correlationId = e.correlationId := by
  obtain ⟨-, fields, -⟩ := Verdict.verdict_eq_ok_iff.1 passes
  obtain ⟨s, run, last, -⟩ := Verdict.verdictOnFields_eq_ok_iff.1 fields
  obtain ⟨g, hg, path, value⟩ := Response.correlationId_recorded run
  exact eq_of_complaint path value (Verdict.complaint?_of_lastComplaint last hg)

/-- An answer passes for no other correlation id. -/
theorem correlationId_unique {e e' : ApiVersionsExpectation} {f : Frame} {ignoreSize : Bool}
    {r r' : Response ApiVersionsResponseBody} (passes : Verdict.verdict e f ignoreSize = .ok r)
    (passes' : Verdict.verdict e' f ignoreSize = .ok r') : e.correlationId = e'.correlationId := by
  obtain ⟨s, run, -⟩ := Verdict.verdictOnFields_eq_ok_iff.1 (Verdict.verdict_eq_ok_iff.1 passes).2.1
  obtain ⟨s', run', -⟩ :=
    Verdict.verdictOnFields_eq_ok_iff.1 (Verdict.verdict_eq_ok_iff.1 passes').2.1
  obtain ⟨rfl, -⟩ := EStateM.Result.ok.inj (run.symm.trans run')
  rw [← correlationId_of_passes passes, correlationId_of_passes passes']

end ApiVersionsExpectation
end BrokerExam
