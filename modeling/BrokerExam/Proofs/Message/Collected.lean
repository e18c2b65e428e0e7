/-
BrokerExam/Proofs/Message/Collected.lean

Batches that are collected for a request to Produce.  They are added call by call,
each time for one partition of one topic; in the request every topic and every
partition stands once, in the order of their first mentions, and holds what was
added for it, in the order of the calls.

Main results: `addToTopic_topicsOf`, what one more call does, and
`produceDraft_collects`, what any sequence of calls comes to.
-/
import Mathlib.Data.List.Induction
import Mathlib.Data.List.Nodup
import BrokerExam.Message.Draft

namespace BrokerExam

/-! ### Lists under keys -/

section Keys

variable {α κ : Type} [DecidableEq κ]

/-- The keys are those mentioned, each of them once, in the order of their first mentions. -/
structure MentionOrder (keys mentioned : List κ) : Prop where
  distinct : keys.Nodup
  mentions : ∀ k, k ∈ keys ↔ k ∈ mentioned
  order : keys.Pairwise fun k k' => mentioned.idxOf k < mentioned.idxOf k'

/-- One more mention adds a key only if it is the first of it. -/
theorem eraseDups_concat (l : List κ) (k : κ) :
    (l ++ [k]).eraseDups = if k ∈ l.eraseDups then l.eraseDups else l.eraseDups ++ [k] := by
  rw [List.eraseDups_append]
  by_cases again : k ∈ l
  · have none : [k].removeAll l = [] := by simp [List.removeAll, again]
    rw [none, if_pos (List.mem_eraseDups.2 again), List.eraseDups_nil, List.append_nil]
  · have new : [k].removeAll l = [k] := by simp [List.removeAll, again]
    rw [new, if_neg fun mem => again (List.mem_eraseDups.1 mem)]
    rfl

theorem mentionOrder_eraseDups (l : List κ) : MentionOrder l.eraseDups l := by
  induction l using List.reverseRecOn with
  | nil => exact ⟨List.nodup_nil, fun _ => Iff.rfl, List.Pairwise.nil⟩
  | append_singleton l k ih =>
    -- where a key was mentioned first does not change
    have kept : l.eraseDups.Pairwise fun a b => (l ++ [k]).idxOf a < (l ++ [k]).idxOf b := by
      refine ih.order.imp_of_mem fun {a b} ha hb before => ?_
      rwa [List.idxOf_append_of_mem ((ih.mentions a).1 ha),
        List.idxOf_append_of_mem ((ih.mentions b).1 hb)]
    refine ⟨?_, fun _ => List.mem_eraseDups, ?_⟩
    · rw [eraseDups_concat]
      split
      · exact ih.distinct
      · next new => exact List.nodup_append_comm.1 (List.nodup_cons.2 ⟨new, ih.distinct⟩)
    · rw [eraseDups_concat]
      split
      · exact kept
      · next new =>
        refine List.pairwise_append.2 ⟨kept, List.pairwise_singleton _ _, fun a ha b hb => ?_⟩
        obtain rfl := List.mem_singleton.1 hb
        have there : a ∈ l := (ih.mentions a).1 ha
        have absent : b ∉ l := fun mem => new ((ih.mentions b).2 mem)
        rw [List.idxOf_append_of_mem there, List.idxOf_append_of_notMem absent]
        exact Nat.lt_add_right _ (List.idxOf_lt_length_of_mem there)

/-- The list with its first element under a key changed, or with a new one at the end. -/
def updateOrAdd (key : α → κ) (k : κ) (update : α → α) (new : α) : List α → List α
  | [] => [new]
  | a :: as => if key a = k then update a :: as else a :: updateOrAdd key k update new as

/-- Where each key has one element, that of the one key changes, or is added. -/
theorem updateOrAdd_map {key : α → κ} {k : κ} {update : α → α} {new : α} {g g' : κ → α}
    {keys : List κ} (distinct : keys.Nodup) (under : ∀ k, key (g k) = k)
    (others : ∀ k' ≠ k, g' k' = g k') (updated : k ∈ keys → update (g k) = g' k)
    (added : k ∉ keys → new = g' k) :
    updateOrAdd key k update new (keys.map g) =
      (if k ∈ keys then keys else keys ++ [k]).map g' := by
  induction keys with
  | nil => simpa [updateOrAdd] using added
  | cons k' keys ih =>
    obtain ⟨once, distinct⟩ := List.nodup_cons.1 distinct
    rw [List.map_cons, updateOrAdd, under]
    split
    · next here =>
      subst here
      -- the other keys are other keys
      have rest : keys.map g' = keys.map g :=
        List.map_congr_left fun k'' mem => others k'' fun same => once (same ▸ mem)
      rw [if_pos List.mem_cons_self, List.map_cons, rest, updated List.mem_cons_self]
    · next other =>
      have elsewhere : k ∈ k' :: keys ↔ k ∈ keys :=
        List.mem_cons.trans (or_iff_right (Ne.symm other))
      rw [ih distinct (updated ∘ elsewhere.2) (added ∘ mt elsewhere.1), ← others k' other]
      simp only [elsewhere]
      split <;> rfl

end Keys

/-! ### What a request has collected -/

namespace ProduceRequestBody

/-- Batches that are added for a partition of a topic. -/
structure Added where
  topic : String
  partition : Int32
  batches : List RecordBatch
  deriving DecidableEq, Repr

/-- What was added under a key: for a topic, or for a partition. -/
def Added.under {κ : Type} [DecidableEq κ] (key : Added → κ) (k : κ) (as : List Added) :
    List Added := as.filter (key · = k)

/-- The partitions mentioned, with what was added for each. -/
def partitionsOf (as : List Added) : List ProduceRequestPartition :=
  (as.map Added.partition).eraseDups.map fun id =>
    ⟨id, (Added.under Added.partition id as).flatMap Added.batches⟩

/-- The topics mentioned, with what was added for each. -/
def topicsOf (as : List Added) : List ProduceRequestTopic :=
  (as.map Added.topic).eraseDups.map fun name =>
    ⟨name, partitionsOf (Added.under Added.topic name as)⟩

theorem addToPartition_eq (id : Int32) (batches : List RecordBatch)
    (ps : List ProduceRequestPartition) : addToPartition id batches ps =
      updateOrAdd ProduceRequestPartition.id id
        (fun p => { p with recordBatches := p.recordBatches ++ batches }) ⟨id, batches⟩ ps := by
  induction ps with
  | nil => rfl
  | cons p ps ih => rw [addToPartition, updateOrAdd, ih]

theorem addToTopic_eq (name : String) (id : Int32) (batches : List RecordBatch)
    (ts : List ProduceRequestTopic) : addToTopic name id batches ts =
      updateOrAdd ProduceRequestTopic.name name
        (fun t => { t with partitions := addToPartition id batches t.partitions })
        ⟨name, addToPartition id batches []⟩ ts := by
  induction ts with
  | nil => rfl
  | cons t ts ih => rw [addToTopic, updateOrAdd, ih]

section Adding

variable {as : List Added} {a : Added}

theorem Added.under_concat {κ : Type} [DecidableEq κ] {key : Added → κ} {k : κ} :
    under key k (as ++ [a]) = under key k as ++ if key a = k then [a] else [] := by
  simp [under, List.filter_cons]

theorem Added.under_eq_nil {κ : Type} [DecidableEq κ] {key : Added → κ} {k : κ}
    (new : k ∉ as.map key) : under key k as = [] := by
  refine List.filter_eq_nil_iff.2 fun a mem same => new ?_
  exact List.mem_map.2 ⟨a, mem, of_decide_eq_true same⟩

variable (as a)

/-- **One more call, in its topic.** -/
theorem addToPartition_partitionsOf :
    addToPartition a.partition a.batches (partitionsOf as) = partitionsOf (as ++ [a]) := by
  have order := mentionOrder_eraseDups (as.map Added.partition)
  rw [addToPartition_eq, partitionsOf, partitionsOf, List.map_append, List.map_singleton,
    eraseDups_concat]
  apply updateOrAdd_map order.distinct
  · exact fun id => rfl
  · intro id other
    rw [Added.under_concat, if_neg (Ne.symm other), List.append_nil]
  · intro again
    rw [Added.under_concat, if_pos rfl, List.flatMap_append, List.flatMap_singleton]
  · intro new
    have none := Added.under_eq_nil fun mem => new ((order.mentions _).2 mem)
    rw [Added.under_concat, if_pos rfl, none, List.nil_append, List.flatMap_singleton]

/-- **One more call** adds its batches behind those of its partition, and mentions topic and
partition if nothing has before. -/
theorem addToTopic_topicsOf :
    addToTopic a.topic a.partition a.batches (topicsOf as) = topicsOf (as ++ [a]) := by
  have order := mentionOrder_eraseDups (as.map Added.topic)
  rw [addToTopic_eq, topicsOf, topicsOf, List.map_append, List.map_singleton, eraseDups_concat]
  apply updateOrAdd_map order.distinct
  · exact fun name => rfl
  · intro name other
    rw [Added.under_concat, if_neg (Ne.symm other), List.append_nil]
  · intro again
    rw [Added.under_concat, if_pos rfl, ← addToPartition_partitionsOf]
  · intro new
    have none := Added.under_eq_nil fun mem => new ((order.mentions _).2 mem)
    rw [Added.under_concat, if_pos rfl, none, ← addToPartition_partitionsOf]
    rfl

end Adding

/-- The topics hold what was added, and nothing else: nothing is lost, doubled or put elsewhere. -/
structure Collects (as : List Added) (ts : List ProduceRequestTopic) : Prop where
  /-- Every topic that was mentioned stands once, in the order of first mentions, -/
  topics : MentionOrder (ts.map (·.name)) (as.map (·.topic))
  /-- in it every partition that was mentioned for it, likewise, -/
  partitions : ∀ t ∈ ts,
    MentionOrder (t.partitions.map (·.id)) ((as.filter (·.topic = t.name)).map (·.partition))
  /-- and there all the batches of the calls for both, in the order of the calls. -/
  batches : ∀ t ∈ ts, ∀ p ∈ t.partitions, p.recordBatches =
    (as.filter fun a => a.topic = t.name ∧ a.partition = p.id).flatMap (·.batches)

theorem collects_topicsOf (as : List Added) : Collects as (topicsOf as) where
  topics := by
    rw [topicsOf, List.map_map]
    exact (List.map_id _).symm ▸ mentionOrder_eraseDups _
  partitions := by
    intro t ht
    obtain ⟨name, -, rfl⟩ := List.mem_map.1 ht
    rw [partitionsOf, List.map_map]
    exact (List.map_id _).symm ▸ mentionOrder_eraseDups _
  batches := by
    intro t ht p hp
    obtain ⟨name, -, rfl⟩ := List.mem_map.1 ht
    obtain ⟨id, -, rfl⟩ := List.mem_map.1 hp
    rw [Added.under, Added.under, List.filter_filter]
    simp only [Bool.decide_and, Bool.and_comm]

end ProduceRequestBody

/-! ### Drafting a request -/

namespace ProduceCall

open ProduceRequestBody

/-- What the call adds, if it is one that does. -/
def added? : ProduceCall → Option Added
  | .batches topic partition bs => some ⟨topic, partition, bs⟩
  | _ => none

theorem build_concat (calls : List ProduceCall) (call : ProduceCall) :
    build (calls ++ [call]) = apply (build calls) call := List.foldl_append ..

/-- A call changes the topics by what it adds. -/
theorem topics_apply {r : Request ProduceRequestBody} {as : List Added}
    (so : r.body.topics = topicsOf as) (call : ProduceCall) :
    (apply r call).body.topics = topicsOf (as ++ call.added?.toList) := by
  cases call with
  | batches topic partition bs =>
    show addToTopic topic partition bs r.body.topics = _
    rw [so]
    exact addToTopic_topicsOf as ⟨topic, partition, bs⟩
  | _ => exact so.trans (congrArg topicsOf (List.append_nil as).symm)

theorem topics_build (calls : List ProduceCall) :
    (build calls).body.topics = topicsOf (calls.filterMap added?) := by
  induction calls using List.reverseRecOn with
  | nil => rfl
  | append_singleton calls call ih =>
    rw [build_concat, topics_apply ih, List.filterMap_append]
    cases h : call.added? with
    | none => rw [List.filterMap_cons_none h, List.filterMap_nil, Option.toList_none]
    | some a => rw [List.filterMap_cons_some h, List.filterMap_nil, Option.toList_some]

end ProduceCall

/-- **A drafted request neither loses nor doubles nor reorders batches**, whatever the calls that
drafted it: every topic and every partition that was mentioned stands in it once, in the order of
their first mentions, with the batches of all the calls for it one after the other. -/
theorem produceDraft_collects (calls : List ProduceCall) :
    ProduceRequestBody.Collects (calls.filterMap ProduceCall.added?)
      (ProduceCall.build calls).body.topics := by
  rw [ProduceCall.topics_build]
  exact ProduceRequestBody.collects_topicsOf _

end BrokerExam
