/-
BrokerExam/Proofs/Verdict/DescribeTopicPartitions.lean

What an answer to DescribeTopicPartitions must be like to pass.  Its topics are held
against the expected ones in order, and so are the partitions of each.  The name of a
topic may be missing in an answer; it is then compared as the text `null`.

The number of topics is asked for twice, as a field and across the fields.  As a
field it is a number of 64 bits, so that only the second comparison is exact.

Main results: `passes_checks_iff`, `fields_fine_iff` and `judged_inOrder`; and
`not_judged_named`, that an answer can pass without the name that is expected.
-/
import Mathlib.Data.List.Forall2
import Mathlib.Tactic.MkIffOfInductiveProp
import BrokerExam.Proofs.Message.RoundTrip
import BrokerExam.Proofs.Verdict.Passing

namespace BrokerExam

open Check Rehearsal

/-! ### What is asked -/

/-- The partition is described as it is expected. -/
@[mk_iff]
structure ExpectedPartition.MetBy (wanted : ExpectedPartition) (p : DescribedPartition) :
    Prop where
  errorCode : p.errorCode = wanted.errorCode
  partitionIndex : p.partitionIndex = wanted.partitionIndex

/-- The topic is described as it is expected: its partitions in order, and its name, unless that is
missing where `null` is expected. -/
@[mk_iff]
structure ExpectedTopic.MetBy (wanted : ExpectedTopic) (t : DescribedTopic) : Prop where
  name : t.name = some wanted.name ∨ t.name = none ∧ wanted.name = "null"
  errorCode : t.errorCode = wanted.errorCode
  uuid : t.topicUuid = wanted.uuid
  partitions : List.Forall₂ ExpectedPartition.MetBy wanted.partitions t.partitions

/-- The answer is as it is expected: its topics in order, and no further page. -/
@[mk_iff]
structure DescribeTopicPartitionsExpectation.MetBy (e : DescribeTopicPartitionsExpectation)
    (r : Response DescribeTopicPartitionsResponseBody) : Prop where
  correlationId : r.header.correlationId = e.correlationId
  nextCursor : r.body.nextCursor = none
  topics : List.Forall₂ ExpectedTopic.MetBy e.topics r.body.topics

/-- No topic lacks its name. -/
def DescribeTopicPartitionsResponseBody.Named (body : DescribeTopicPartitionsResponseBody) : Prop :=
  ∀ t ∈ body.topics, t.name ≠ none

/-! ### The checks across fields -/

/-- Checks that are made of one list against another of the same length are made of each pair. -/
theorem Check.passes_zipWith_iff {α β : Type} {f : α → β → List Check} {R : α → β → Prop}
    {as : List α} {bs : List β} (each : ∀ a b, Passes (f a b) ↔ R a b) :
    bs.length = as.length ∧ Passes (List.zipWith f as bs).flatten ↔ List.Forall₂ R as bs := by
  rw [List.forall₂_iff_zip, passes_flatten, ← List.map_uncurry_zip_eq_zipWith, List.forall_mem_map,
    Prod.forall, eq_comm]
  simp only [Function.uncurry_apply_pair, each]

/-- A name is compared as the text that stands for it. -/
theorem DescribedTopic.shownName_eq_iff {name : Option String} {wanted : String} :
    name.getD "null" = wanted ↔ name = some wanted ∨ name = none ∧ wanted = "null" := by
  cases name with
  | none => simp [eq_comm]
  | some name => simp

namespace DescribeTopicPartitionsExpectation

variable {e : DescribeTopicPartitionsExpectation} {r : Response DescribeTopicPartitionsResponseBody}

theorem passes_partitionChecks {wanted : ExpectedPartition} {p : DescribedPartition} :
    Passes (partitionChecks wanted p) ↔ wanted.MetBy p := by
  simp only [partitionChecks, passes_demand, passes_remark, passes_nil, and_true, decide_eq_true_eq,
    ExpectedPartition.metBy_iff]

theorem passes_topicChecks {wanted : ExpectedTopic} {t : DescribedTopic} :
    Passes (topicChecks wanted t) ↔ wanted.MetBy t := by
  simp only [topicChecks, passes_append, passes_demand, passes_remark, passes_nil, and_true,
    decide_eq_true_eq, and_assoc, DescribedTopic.shownName_eq_iff,
    passes_zipWith_iff fun _ _ => passes_partitionChecks, ExpectedTopic.metBy_iff]

/-- **The checks are exact** but for names that are missing. -/
theorem passes_checks_iff :
    Passes (e.checks r) ↔ List.Forall₂ ExpectedTopic.MetBy e.topics r.body.topics := by
  simp only [checks, passes_append, passes_demand, passes_remark, passes_nil, and_true,
    decide_eq_true_eq, passes_zipWith_iff fun _ _ => passes_topicChecks]

/-! ### The checks of single fields -/

/-- What is written for an answer to DescribeTopicPartitions. -/
theorem encoding_eq (r : Response DescribeTopicPartitionsResponseBody) : r.encoding =
    Encoding.scope "DescribeTopicPartitionsResponse"
      (Encoding.scope "Header" (Encoding.leaf "CorrelationID" (.int32 r.header.correlationId) ++
        (Encoding.emptyTagBuffer ++ [])) ++
      Encoding.scope "Body"
        (Encoding.leaf "ThrottleTimeMs" (.int32 r.body.throttleTimeMs) ++
          (((Codec.compactArray "Topics" DescribedTopic.codec).write r.body.topics).2 ++
            ((PageCursor.codec.write r.body.nextCursor).2 ++ (Encoding.emptyTagBuffer ++ []))))) :=
  Response.encoding_eq r

/-- What is written for a cursor begins with its marker. -/
theorem cursor_write (c : Option PageCursor) : ∃ rest, (PageCursor.codec.write c).2 =
    Encoding.scope "Cursor"
      (Encoding.leaf "IsCursorPresent" (.int8 (if c = none then -1 else 1)) ++ rest) := by
  cases c with
  | none => exact ⟨[], rfl⟩
  | some page => exact ⟨(PageCursor.fields.write page).2, rfl⟩

/-- What is demanded of single fields, with the paths cut into segments. -/
theorem demands_eq (e : DescribeTopicPartitionsExpectation) :
    Rule.demands (Expectation.rules e) =
      [(.exactly ["DescribeTopicPartitionsResponse", "Header", "CorrelationID"],
          .int32 e.correlationId),
        (.exactly ["DescribeTopicPartitionsResponse", "Body", "Topics", "Length"],
          .elements e.topics.length),
        (.exactly ["DescribeTopicPartitionsResponse", "Body", "Cursor", "IsCursorPresent"],
          .int8 (-1)),
        (.exactly ["DescribeTopicPartitionsResponse", "Body", "ThrottleTimeMs"], .anything),
        (.like ["DescribeTopicPartitionsResponse", "Body", "Topics", "**"], .anything),
        (.like ["DescribeTopicPartitionsResponse", "Body", "Cursor", "**"], .anything)] := by
  rfl

/-- In a topic a single field may hold anything. -/
theorem allows_in_topic {l : Leaf} {i : Nat} {rest : List String}
    (path : l.path = "DescribeTopicPartitionsResponse" :: "Body" :: "Topics" ::
      indexed "Topics" i :: rest)
    (dotless : ∀ s ∈ l.path, '.' ∉ s.toList) : Expectation.Allows e l := by
  apply Expectation.allows_anything _ dotless
  · -- behind the element of the array only one rule is left
    rw [path, demands_eq, Asks.first_only rfl, Asks.first_only rfl, Asks.first_only rfl,
      Asks.first_element rfl]
    rfl
  · rw [path]
    exact List.cons_ne_nil _ _

/-- What the fields are asked for that have only one value to be fine.  Topics are counted modulo
`2 ^ 64`. -/
structure Heads (e : DescribeTopicPartitionsExpectation)
    (r : Response DescribeTopicPartitionsResponseBody) : Prop where
  correlationId : r.header.correlationId = e.correlationId
  count : UInt64.ofNat (r.body.topics.length + 1) = UInt64.ofNat (e.topics.length + 1)
  nextCursor : r.body.nextCursor = none

/-- **The fields are fine** exactly if the three are that have only one value to be fine. -/
theorem fields_fine_iff
    (dotless : ∀ f ∈ r.encoding.fields, ∀ s ∈ f.path.segments, '.' ∉ s.toList) :
    (∀ f ∈ r.encoding.fields, Verdict.complaint? e f = .ok none) ↔ e.Heads r := by
  have correlationId :
      Expectation.Allows e ⟨["DescribeTopicPartitionsResponse", "Header", "CorrelationID"],
        .int32 r.header.correlationId⟩ ↔ r.header.correlationId = e.correlationId := by
    rw [Expectation.allows_iff rfl (by decide) (by decide) (by rw [demands_eq]; rfl) rfl,
      Value.int32.injEq]
  have count :
      Expectation.Allows e ⟨["DescribeTopicPartitionsResponse", "Body", "Topics", "Length"],
        .compactArrayLength (UInt64.ofNat (r.body.topics.length + 1))⟩ ↔
      UInt64.ofNat (r.body.topics.length + 1) = UInt64.ofNat (e.topics.length + 1) := by
    rw [Expectation.allows_iff rfl (by decide) (by decide) (by rw [demands_eq]; rfl) rfl,
      Value.compactArrayLength.injEq]
  have marker :
      Expectation.Allows e ⟨["DescribeTopicPartitionsResponse", "Body", "Cursor",
        "IsCursorPresent"], .int8 (if r.body.nextCursor = none then -1 else 1)⟩ ↔
      r.body.nextCursor = none := by
    rw [Expectation.allows_iff rfl (by decide) (by decide) (by rw [demands_eq]; rfl) rfl,
      Value.int8.injEq]
    split
    · next none => exact iff_of_true rfl none
    · next some => exact iff_of_false (by decide) some
  obtain ⟨behind, cursor⟩ := cursor_write r.body.nextCursor
  rw [Expectation.fields_fine_iff]
  constructor
  · intro allowed
    rw [encoding_eq, cursor] at allowed
    refine ⟨correlationId.1 (allowed _ ?_), count.1 (allowed _ ?_), marker.1 (allowed _ ?_)⟩
    · simp [Encoding.scope, Encoding.leaf]
    · simp [Encoding.scope, Encoding.leaf, Codec.compactArray, Codec.writeItems,
        Encoding.compactArray, Encoding.compactLength]
    · simp [Encoding.scope, Encoding.leaf]
  · intro heads l hl
    obtain ⟨f, hf, path, -⟩ := Encoding.field_of_mem hl 0
    have dotless := dotless f hf
    rw [path] at dotless
    rw [encoding_eq, heads.nextCursor] at hl
    simp only [Encoding.scope, Encoding.leaf, Encoding.emptyTagBuffer, List.map_append,
      List.map_cons, List.map_nil, List.map_map, List.append_nil, List.mem_append, List.mem_cons,
      List.mem_map, List.not_mem_nil, or_false] at hl
    -- the leaves in the order of the wire; `inTopics` is any of those in the topics
    rcases hl with (rfl | rfl) | rfl | ⟨inTopics, hl, rfl⟩ | ⟨inCursor, hl, rfl⟩ | rfl
    · exact correlationId.2 heads.correlationId
    · exact Expectation.allows_tagBuffer ["DescribeTopicPartitionsResponse", "Header"] _
    · exact Expectation.allows_anything (List.cons_ne_nil _ _) dotless (by rw [demands_eq]; rfl)
    · obtain rfl | ⟨i, rest, below⟩ := Encoding.leaf_of_mem_compactArray hl
      · rw [List.length_map]
        exact count.2 heads.count
      · exact allows_in_topic (congrArg (["DescribeTopicPartitionsResponse", "Body"] ++ ·) below)
          dotless
    · obtain rfl := List.mem_singleton.1 hl
      rw [if_pos heads.nextCursor] at marker
      exact marker.2 heads.nextCursor
    · exact Expectation.allows_tagBuffer ["DescribeTopicPartitionsResponse", "Body"] _

/-! ### Judging -/

/-- An answer is as it is expected if the fields are and the topics. -/
theorem metBy_iff_heads : e.MetBy r ↔
    e.Heads r ∧ List.Forall₂ ExpectedTopic.MetBy e.topics r.body.topics := by
  constructor
  · intro met
    have count : e.topics.length = r.body.topics.length := met.topics.length_eq
    exact ⟨⟨met.correlationId, by rw [count], met.nextCursor⟩, met.topics⟩
  · rintro ⟨heads, topics⟩
    exact ⟨heads.correlationId, heads.nextCursor, topics⟩

theorem passes_iff (addressable : r.encode.length < 0x8000000000000000) {ignoreSize : Bool}
    {w : World} : Verdict.Passes e r ignoreSize w ↔
      (ignoreSize = false → r.encode.length < 0x80000000) ∧ e.MetBy r := by
  have same : r.writtenBack = r := by
    rw [Response.writtenBack, DescribeTopicPartitionsResponseBody.codec_write_fst]
  have dotless := Expectation.covers_describeTopicPartitions.dotless_encoding
    (Response.recordsFields Codec.Lawful.on_all trivial addressable)
  rw [Verdict.passes_iff, metBy_iff_heads]
  simp only [Verdict.verdict_encode_eq_ok_iff Expectation.covers_describeTopicPartitions
    inferInstance same addressable, fields_fine_iff dotless, exists_eq_left]
  exact and_congr_right fun _ => and_congr_right fun _ => passes_checks_iff

/-- Where no name is expected to be `null`, the names are there. -/
theorem MetBy.named (met : e.MetBy r) (named : ∀ wanted ∈ e.topics, wanted.name ≠ "null") :
    r.body.Named := by
  have unnamed {wanted : ExpectedTopic} {t : DescribedTopic} (h : wanted.MetBy t)
      (none : t.name = none) : wanted.name = "null" := by
    rcases h.name with some | ⟨-, null⟩
    · rw [none] at some
      cases some
    · exact null
  obtain ⟨counts, each⟩ := List.forall₂_iff_get.1 met.topics
  intro t ht none
  obtain ⟨i, hi, rfl⟩ := List.mem_iff_get.1 ht
  have before : i.1 < e.topics.length := Nat.lt_of_lt_of_eq i.2 counts.symm
  exact named _ (e.topics.get_mem ⟨i, before⟩) (unnamed (each i before i.2) none)

/-- **An answer to DescribeTopicPartitions is judged exactly**, but for names that are missing.  It
passes if and only if its size, should that matter, can be told in a signed number, it has the
correlation id and no further page, and its topics are those that are expected, in order, each with
its name, error code, id and partitions, or without a name where `null` is expected.  Unless a topic
is expected to be called so, an answer that passes names all of its topics. -/
theorem judged_inOrder (addressable : r.encode.length < 0x8000000000000000) (ignoreSize : Bool)
    (w : World) :
    (Verdict.Passes e r ignoreSize w ↔
      (ignoreSize = false → r.encode.length < 0x80000000) ∧ e.MetBy r) ∧
    ((∀ wanted ∈ e.topics, wanted.name ≠ "null") → Verdict.Passes e r ignoreSize w →
      r.body.Named) :=
  ⟨passes_iff addressable, fun named passes => ((passes_iff addressable).1 passes).2.named named⟩

/-- A topic with a partition, and one that is not known. -/
def knownAndUnknown : DescribeTopicPartitionsExpectation :=
  { correlationId := 7
    topics := [⟨"orders", Uuid.nil, 0, [⟨0, 0⟩]⟩, ⟨"payments", Uuid.nil, 3, []⟩] }

def knownAndUnknownDescribed : Response DescribeTopicPartitionsResponseBody :=
  { header := { correlationId := 7 }
    body := { topics := [
      { name := some "orders", partitions := [{}] },
      { name := some "payments", errorCode := 3 }] } }

/-- The conditions of `judged_inOrder` hold of an answer that passes. -/
theorem judged_inOrder_knownAndUnknown :
    knownAndUnknownDescribed.encode.length < 0x8000000000000000 ∧
    (∀ wanted ∈ knownAndUnknown.topics, wanted.name ≠ "null") ∧
    Verdict.Passes knownAndUnknown knownAndUnknownDescribed false {} ∧
    knownAndUnknownDescribed.body.Named := by
  have short : knownAndUnknownDescribed.encode.length < 0x80000000 := by decide +kernel
  have addressable := Nat.lt_trans short (by decide : 0x80000000 < 0x8000000000000000)
  have named : ∀ wanted ∈ knownAndUnknown.topics, wanted.name ≠ "null" := by decide
  obtain ⟨exact, names⟩ := judged_inOrder (e := knownAndUnknown) addressable false {}
  have orders : ExpectedTopic.MetBy ⟨"orders", Uuid.nil, 0, [⟨0, 0⟩]⟩
      { name := some "orders", partitions := [{}] } :=
    ⟨.inl rfl, rfl, rfl, .cons ⟨rfl, rfl⟩ .nil⟩
  have payments : ExpectedTopic.MetBy ⟨"payments", Uuid.nil, 3, []⟩
      { name := some "payments", errorCode := 3 } := ⟨.inl rfl, rfl, rfl, .nil⟩
  have met : knownAndUnknown.MetBy knownAndUnknownDescribed :=
    ⟨rfl, rfl, .cons orders (.cons payments .nil)⟩
  have passes := exact.2 ⟨fun _ => short, met⟩
  exact ⟨addressable, named, passes, names named passes⟩

/-- A topic called `null` that is not known. -/
def calledNull : DescribeTopicPartitionsExpectation :=
  { correlationId := 7, topics := [⟨"null", Uuid.nil, 3, []⟩] }

/-- The answer that there is no such topic, without its name. -/
def unnamed : Response DescribeTopicPartitionsResponseBody :=
  { header := { correlationId := 7 }, body := { topics := [{ errorCode := 3 }] } }

/-- **A topic can pass without its name**, where `null` is expected: it is the text that is shown
which is compared. -/
theorem not_judged_named :
    ¬ ∀ (e : DescribeTopicPartitionsExpectation) (r : Response DescribeTopicPartitionsResponseBody)
        (w : World), r.encode.length < 0x80000000 →
      (Verdict.Passes e r false w ↔ e.MetBy r ∧ r.body.Named) := by
  intro judged
  have short : unnamed.encode.length < 0x80000000 := by decide +kernel
  have met : calledNull.MetBy unnamed :=
    ⟨rfl, rfl, .cons ⟨.inr ⟨rfl, rfl⟩, rfl, rfl, .nil⟩ .nil⟩
  have addressable := Nat.lt_trans short (by decide : 0x80000000 < 0x8000000000000000)
  have passes : Verdict.Passes calledNull unnamed false {} :=
    (passes_iff addressable).2 ⟨fun _ => short, met⟩
  obtain ⟨-, named⟩ := (judged calledNull unnamed {} short).1 passes
  exact named _ List.mem_cons_self rfl

end DescribeTopicPartitionsExpectation
end BrokerExam
