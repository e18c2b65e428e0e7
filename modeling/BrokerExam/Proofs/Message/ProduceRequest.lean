/-
BrokerExam/Proofs/Message/ProduceRequest.lean

Where the batches stand in a request to Produce.

Main results: `holds_batch`, that what is written below the path of a batch is the
batch, and `mem_batches_addBatches`, that a request which is drafted holds what was
added to it.
-/
import BrokerExam.Message.Draft
import BrokerExam.Proofs.Wire.Below

namespace BrokerExam

open Encoding

/-- A batch of a stream is written below its index. -/
theorem Codec.holds_batchStream (name : String) {batches : List RecordBatch} {k : Nat}
    {b : RecordBatch} (hb : batches[k]? = some b) :
    ((Codec.batchStream name).write batches).2.Holds [name, indexed name k] b.encoding := by
  have size : indexed name k ≠ "Size" := (ne_indexed (by decide) name k).symm
  have item : (batches.map fun b => (RecordBatch.codec.write b).2)[k]? = some b.encoding := by
    rw [List.getElem?_map, hb]
    rfl
  have items := Holds.items name item (Holds.root _)
  exact (items.append_right (below_leaf_of_ne size _ _)).scope name

/-- An element of a compact array is written below its index. -/
theorem Codec.holds_compactArray {α β : Type} (name : String) (element : Codec α β) {as : List α}
    {i : Nat} {a : α} {path : List String} {part : Encoding} (ha : as[i]? = some a)
    (h : (element.write a).2.Holds path part) :
    ((Codec.compactArray name element).write as).2.Holds (name :: indexed name i :: path) part := by
  have length : indexed name i ≠ "Length" := (ne_indexed (by decide) name i).symm
  have item : (as.map fun a => (element.write a).2)[i]? = some (element.write a).2 := by
    rw [List.getElem?_map, ha]
    rfl
  have items := Holds.items name item h
  exact (items.append_right (below_leaf_of_ne length _ _)).scope name

namespace ProduceRequestBody

/-! ### Places -/

/-- The place of a batch in a request, counted in each array that leads to it. -/
structure Place where
  topic : Nat
  partition : Nat
  batch : Nat
  deriving DecidableEq, Repr

def Place.path (p : Place) : List String :=
  ["ProduceRequest", "Body", "Topics", indexed "Topics" p.topic, "Partitions",
    indexed "Partitions" p.partition, "RecordBatches", indexed "RecordBatches" p.batch]

def batch? (body : ProduceRequestBody) (place : Place) : Option RecordBatch := do
  let topic ← body.topics[place.topic]?
  let partition ← topic.partitions[place.partition]?
  partition.recordBatches[place.batch]?

/-- **A batch is what is written below its path.** -/
theorem holds_batch {r : Request ProduceRequestBody} {place : Place} {b : RecordBatch}
    (hb : r.body.batch? place = some b) : r.encoding.Holds place.path b.encoding := by
  obtain ⟨topic, ht, hb⟩ := Option.bind_eq_some_iff.1 hb
  obtain ⟨partition, hp, hb⟩ := Option.bind_eq_some_iff.1 hb
  -- from the stream upwards: what is written beside each part has other segments
  have stream := Codec.holds_batchStream "RecordBatches" hb
  have inPartition : (ProduceRequestPartition.codec.write partition).2.Holds _ b.encoding :=
    (stream.append_left rfl).append_right rfl
  have partitions := Codec.holds_compactArray "Partitions" _ hp inPartition
  have inTopic : (ProduceRequestTopic.codec.write topic).2.Holds _ b.encoding :=
    (partitions.append_left rfl).append_right rfl
  have topics := Codec.holds_compactArray "Topics" _ ht inTopic
  have inBody : (RequestBody.codec.write r.body).2.Holds _ b.encoding :=
    ((((topics.append_left rfl).append_right rfl).append_right rfl).append_right rfl).scope "Body"
  have header : (RequestHeader.codec.write r.header).2.below ("Body" :: place.path.drop 2) = [] :=
    below_scope_of_ne (by decide) _ _
  exact ((inBody.append_left rfl).append_right header).scope "ProduceRequest"

/-! ### Drafts -/

/-- All batches, in the order of their places. -/
def batches (body : ProduceRequestBody) : List RecordBatch :=
  body.topics.flatMap fun t => t.partitions.flatMap (·.recordBatches)

/-- Every batch has a place. -/
theorem mem_batches_iff {body : ProduceRequestBody} {b : RecordBatch} :
    b ∈ body.batches ↔ ∃ place, body.batch? place = some b := by
  simp only [batches, List.mem_flatMap]
  simp only [List.mem_iff_getElem?, batch?, bind, Option.bind_eq_some_iff]
  constructor
  · rintro ⟨t, ⟨i, ht⟩, p, ⟨j, hp⟩, k, hb⟩
    exact ⟨⟨i, j, k⟩, t, ht, p, hp, hb⟩
  · rintro ⟨place, t, ht, p, hp, hb⟩
    exact ⟨t, ⟨_, ht⟩, p, ⟨_, hp⟩, _, hb⟩

variable {b : RecordBatch} {added : List RecordBatch}

theorem mem_addToPartition (id : Int32) (ps : List ProduceRequestPartition) :
    b ∈ (addToPartition id added ps).flatMap (·.recordBatches) ↔
      b ∈ ps.flatMap (·.recordBatches) ∨ b ∈ added := by
  induction ps with
  | nil => simp [addToPartition]
  | cons p ps ih =>
    rw [addToPartition]
    split
    · simp only [List.flatMap_cons, List.mem_append]
      rw [or_right_comm]
    · simp only [List.flatMap_cons, List.mem_append, ih, or_assoc]

theorem mem_addToTopic (name : String) (id : Int32) (ts : List ProduceRequestTopic) :
    b ∈ (addToTopic name id added ts).flatMap (fun t => t.partitions.flatMap (·.recordBatches)) ↔
      b ∈ ts.flatMap (fun t => t.partitions.flatMap (·.recordBatches)) ∨ b ∈ added := by
  induction ts with
  | nil => simp [addToTopic, addToPartition]
  | cons t ts ih =>
    rw [addToTopic]
    split
    · simp only [List.flatMap_cons, List.mem_append, mem_addToPartition]
      rw [or_right_comm]
    · simp only [List.flatMap_cons, List.mem_append, ih, or_assoc]

/-- Adding batches leaves those that are there, and adds nothing else. -/
theorem mem_batches_addBatches (body : ProduceRequestBody) (topic : String) (partition : Int32) :
    b ∈ (body.addBatches topic partition added).batches ↔ b ∈ body.batches ∨ b ∈ added :=
  mem_addToTopic topic partition body.topics

/-- What is added one step after the other is there in the end. -/
theorem mem_batches_foldl {α : Type} {f : ProduceRequestBody → α → ProduceRequestBody}
    {adds : α → Prop} (step : ∀ body a, b ∈ (f body a).batches ↔ b ∈ body.batches ∨ adds a)
    (as : List α) (body : ProduceRequestBody) :
    b ∈ (as.foldl f body).batches ↔ b ∈ body.batches ∨ ∃ a ∈ as, adds a := by
  induction as generalizing body with
  | nil => simp
  | cons a as ih => simp only [List.foldl_cons, ih, step, List.mem_cons, exists_eq_or_imp, or_assoc]

end ProduceRequestBody
end BrokerExam
