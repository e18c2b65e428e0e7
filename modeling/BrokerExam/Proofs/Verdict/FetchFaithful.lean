/-
BrokerExam/Proofs/Verdict/FetchFaithful.lean

A broker that hands out the bytes of a log passes: none of the fields of its
answer is complained about, and the batches that are read from it are those that
the log is read as.

Main result: `PartitionReply.passes`.
-/
import BrokerExam.Proofs.Message.FetchReply
import BrokerExam.Proofs.Verdict.Fetch
import BrokerExam.Proofs.Verdict.Passing

namespace BrokerExam

/-! ### The answer of a faithful broker -/

/-- A list of one holds it at the index zero. -/
theorem List.getElem?_singleton_eq_some {α : Type} {a b : α} {i : Nat} (h : [a][i]? = some b) :
    i = 0 ∧ a = b := by
  cases i with
  | zero => exact ⟨rfl, Option.some.inj h⟩
  | succ i => cases h

/-- That a partition is answered with the batches on disk. -/
def FetchExpectation.ofPartition (correlationId : Int32) (topic : Uuid) (id : Int32)
    (batches : List RecordBatch) : FetchExpectation :=
  { correlationId, topics := [⟨topic, [.withBatches id batches]⟩] }

namespace PartitionReply

open FetchExpectation

variable {correlationId : Int32} {topic : Uuid} {id : Int32} {log : Bytes}
  (reply : PartitionReply correlationId topic id log) {batches : List RecordBatch}

/-- What is outside of the topic is as demanded, and in it a single field may hold anything. -/
theorem fine {inTopic : Trace} {f : Field} (hf : f ∈ (reply.trace inTopic).fields FieldPath.root 0)
    (dotless : ∀ s ∈ f.path.segments, '.' ∉ s.toList) :
    Verdict.complaint? (ofPartition correlationId topic id batches) f = .ok none := by
  obtain ⟨⟨m, hm, path, value⟩, -⟩ := Trace.mark_of_mem_fields hf
  have path : f.path.segments = m.path := path
  have demanded {d : Demand} (below : m.path ≠ []) :=
    Expectation.complaint?_of_value (d := d)
      (e := ofPartition correlationId topic id batches) path value below dotless
  -- the values in the order of the wire; those in the topic are `n`, whatever they are
  simp only [trace, Trace.scope, List.map_append, List.map_cons, List.map_nil, List.map_map,
    List.mem_append, List.mem_cons, List.mem_map, List.not_mem_nil, or_false] at hm
  rcases hm with (rfl | rfl) | rfl | rfl | rfl | (rfl | ⟨n, -, rfl⟩) | rfl
  · exact demanded (List.cons_ne_nil _ _) rfl fun _ same => Option.some.inj same
  · exact Expectation.complaint?_of_tagBuffer ["FetchResponse", "Header"] path
  · exact demanded (List.cons_ne_nil _ _) rfl fun _ same => Option.some.inj same
  · exact demanded (List.cons_ne_nil _ _) rfl fun _ same => Option.some.inj same
  · exact demanded (List.cons_ne_nil _ _) rfl fun _ same => Option.some.inj same
  · exact demanded (List.cons_ne_nil _ _) rfl fun _ same => Option.some.inj same
  · exact demanded (d := .anything) (List.cons_ne_nil _ _) rfl fun _ none => by cases none
  · exact Expectation.complaint?_of_tagBuffer ["FetchResponse", "Body"] path

theorem checks_pass : Check.Passes
    (checks (ofPartition correlationId topic id batches) (reply.response batches)) := by
  refine passes_checks.2 ⟨rfl, fun i wanted t hw ht => ?_⟩
  obtain ⟨rfl, rfl⟩ := List.getElem?_singleton_eq_some hw
  obtain ⟨-, rfl⟩ := List.getElem?_singleton_eq_some ht
  refine passes_topicChecks.2 ⟨rfl, rfl, fun j wanted p hw hp => ?_⟩
  obtain ⟨rfl, rfl⟩ := List.getElem?_singleton_eq_some hw
  obtain ⟨-, rfl⟩ := List.getElem?_singleton_eq_some hp
  refine passes_partitionChecks.2 ⟨rfl, rfl, fun expected same => ?_⟩
  rw [← Option.some.inj same]
  rfl

/-- **The answer passes**, once it is framed. -/
theorem passes (decoded : decodeLog log = .ok batches) (short : reply.payload.length < 0x80000000)
    (ignoreSize : Bool) :
    Verdict.verdict (ofPartition correlationId topic id batches) ⟨frame reply.payload⟩ ignoreSize =
      .ok (reply.response batches) := by
  obtain ⟨t, run⟩ := reply.read_payload decoded
  have fields : ((ReadState.start reply.payload ()).past (reply.trace t) []).fields.toList =
      (reply.trace t).fields FieldPath.root 0 := by
    rw [ReadState.past]
    exact Array.toList_append.trans (List.nil_append _)
  exact Verdict.passes_of_fine Expectation.covers_fetch short run
    (fun f hf dotless => reply.fine (fields ▸ hf) dotless) reply.checks_pass ignoreSize

end PartitionReply
end BrokerExam
