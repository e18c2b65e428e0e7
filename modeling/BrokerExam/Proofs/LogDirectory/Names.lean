/-
BrokerExam/Proofs/LogDirectory/Names.lean

The names of partition directories.  A name is the topic, a dash and the
partition, and it is taken apart at its last dash; a number that is not negative
has none, so every name is read as what it was made of, dashes and digits in the
topic notwithstanding.  A name is also read if its number is spelled otherwise than
it is written, with a plus sign or with zeros in front.

Main results: `partitionOfName?_eq_some_iff`, which names are read as a partition,
and `check_eq_ok_iff`, which plans are fine.
-/
import Mathlib.Data.List.Nodup
import Mathlib.Data.List.TakeDrop
import BrokerExam.LogDirectory.Read
import BrokerExam.Proofs.Files.Path
import BrokerExam.Proofs.Sequence
import BrokerExam.Proofs.Text.Numeral

namespace BrokerExam.LogDirectory

open Files

/-- The name of the directory of a partition. -/
def partitionName (topic : String) (partition : Int32) : String := s!"{topic}-{partition}"

/-- A name for a partition, with a plus sign or zeros in front of its number. -/
def spelledName (topic : String) (plus : Bool) (zeros : Nat) (partition : Int32) : String :=
  topic ++ "-" ++ (if plus then "+" else "") ++ String.ofList (List.replicate zeros '0') ++
    toString partition

section Names

variable {name topic : String} {id : Int32}

theorem toList_spelledName (plus : Bool) (zeros : Nat) (positive : 0 ≤ id) :
    (spelledName topic plus zeros id).toList =
      topic.toList ++ '-' :: Numeral.spelling plus zeros id.toInt.toNat := by
  have number : id.toInt = (id.toInt.toNat : Int) :=
    (Int.toNat_of_nonneg (Int32.le_iff_toInt_le.1 positive)).symm
  have digits : toString id = Nat.repr id.toInt.toNat := by
    show Int.repr id.toInt = _
    rw [number]
    rfl
  rw [spelledName, digits, Numeral.spelling]
  cases plus <;> simp

theorem spelledName_plain (topic : String) (id : Int32) :
    spelledName topic false 0 id = partitionName topic id := by
  show topic ++ "-" ++ "" ++ String.ofList [] ++ toString id = topic ++ "-" ++ toString id
  simp

/-- A text is split at a dash after which there is none. -/
theorem splitLastDash_append {front back : List Char} (none : '-' ∉ back) :
    splitLastDash (front ++ '-' :: back) = some (front, back) := by
  have turned : (front ++ '-' :: back).reverse = back.reverse ++ '-' :: front.reverse := by simp
  have dashless : ∀ c ∈ back.reverse, decide (c ≠ '-') = true := fun c mem =>
    decide_eq_true fun same => none (same ▸ List.mem_reverse.1 mem)
  have span : (front ++ '-' :: back).reverse.span (fun c => decide (c ≠ '-')) =
      (back.reverse, '-' :: front.reverse) := by
    rw [turned, List.span_eq_takeWhile_dropWhile, List.takeWhile_append_of_pos dashless,
      List.dropWhile_append_of_pos dashless, List.takeWhile_cons_of_neg (by decide),
      List.dropWhile_cons_of_neg (by decide), List.append_nil]
  rw [splitLastDash, span]
  simp

theorem splitLastDash_eq_some_iff {cs front back : List Char} :
    splitLastDash cs = some (front, back) ↔ cs = front ++ '-' :: back ∧ '-' ∉ back := by
  constructor
  · intro split
    -- the text is looked at from its end
    have whole := List.takeWhile_append_dropWhile (p := fun c => decide (c ≠ '-')) (l := cs.reverse)
    rw [splitLastDash, List.span_eq_takeWhile_dropWhile] at split
    cases rest : cs.reverse.dropWhile fun c => decide (c ≠ '-') with
    | nil =>
      rw [rest] at split
      cases split
    | cons d before =>
      rw [rest] at split whole
      obtain ⟨rfl, rfl⟩ := Prod.mk.inj (Option.some.inj split)
      have stop := List.head?_dropWhile_not (fun c => decide (c ≠ '-')) cs.reverse
      rw [rest] at stop
      obtain rfl : d = '-' := Decidable.not_not.1 (of_decide_eq_false stop)
      refine ⟨?_, fun mem => ?_⟩
      · have turned := congrArg List.reverse whole
        simpa using turned.symm
      · have kept := List.all_eq_true.1 List.all_takeWhile _ (List.mem_reverse.1 mem)
        exact of_decide_eq_true kept rfl
  · rintro ⟨rfl, none⟩
    exact splitLastDash_append none

theorem toNat_toInt_ofNat {n : Nat} (bound : n < 2147483648) : (Int32.ofNat n).toInt.toNat = n := by
  rw [Int32.toInt_ofNat_of_lt bound]
  exact Int.toNat_natCast n

/-- **Which names are read as a partition**: those of which the topic is not empty and the number,
not negative, is spelled in one of the ways there are. -/
theorem partitionOfName?_eq_some_iff :
    partitionOfName? name = some (topic, id) ↔ topic ≠ "" ∧ 0 ≤ id ∧
      ∃ plus zeros, name = spelledName topic plus zeros id := by
  constructor
  · intro read
    rw [partitionOfName?] at read
    obtain ⟨⟨front, back⟩, split, read⟩ := Option.bind_eq_some_iff.1 read
    obtain ⟨chars, -⟩ := splitLastDash_eq_some_iff.1 split
    dsimp only at read
    split at read
    · cases read
    · next some =>
      obtain ⟨n, number, found⟩ := Option.bind_eq_some_iff.1 read
      obtain ⟨plus, zeros, rfl⟩ := Numeral.unsigned?_eq_some_iff.1 number
      split at found
      · next bound =>
        obtain ⟨rfl, rfl⟩ := Prod.mk.inj (Option.some.inj found)
        have positive : 0 ≤ Int32.ofNat n := by
          rw [Int32.le_iff_toInt_le, Int32.toInt_ofNat_of_lt bound]
          exact Int.natCast_nonneg n
        refine ⟨fun none => some ?_, positive, plus, zeros, ?_⟩
        · rw [← String.toList_ofList (l := front), none]
          rfl
        · rw [← String.toList_inj, toList_spelledName plus zeros positive, chars,
            String.toList_ofList, toNat_toInt_ofNat bound]
      · cases found
  · rintro ⟨some, positive, plus, zeros, rfl⟩
    have chars : topic.toList ≠ [] := fun none => some (String.toList_eq_nil_iff.1 none)
    have bound : id.toInt.toNat < 2147483648 := by
      have := id.toInt_lt
      omega
    rw [partitionOfName?, toList_spelledName plus zeros positive,
      splitLastDash_append (Numeral.not_mem_spelling rfl (by decide) plus zeros _)]
    show (if topic.toList = [] then none else _) = _
    rw [if_neg chars, Numeral.unsigned?_eq_some_iff.2 ⟨plus, zeros, rfl⟩]
    show (if id.toInt.toNat < 2147483648 then _ else none) = _
    rw [if_pos bound, String.ofList_toList]
    exact congrArg (fun i => Option.some (topic, i)) (Int32.ofNat_toNatClampNeg id positive)

/-- **A name is read as what it was made of.** -/
theorem partitionOfName?_partitionName (some : topic ≠ "") (positive : 0 ≤ id) :
    partitionOfName? (partitionName topic id) = Option.some (topic, id) :=
  partitionOfName?_eq_some_iff.2 ⟨some, positive, false, 0, (spelledName_plain topic id).symm⟩

theorem partitionName_inj {topic' : String} {id' : Int32} (some : topic ≠ "") (some' : topic' ≠ "")
    (positive : 0 ≤ id) (positive' : 0 ≤ id')
    (h : partitionName topic id = partitionName topic' id') : topic = topic' ∧ id = id' := by
  have same := congrArg partitionOfName? h
  rw [partitionOfName?_partitionName some positive,
    partitionOfName?_partitionName some' positive'] at same
  exact Prod.mk.inj (Option.some.inj same)

/-- The name of a partition can stand in a directory, if that of the topic has no separator. -/
theorem plain_partitionName (separator : '/' ∉ topic.toList) (positive : 0 ≤ id) :
    Plain (partitionName topic id) := by
  have chars : (spelledName topic false 0 id).toList = _ := toList_spelledName false 0 positive
  rw [spelledName_plain] at chars
  have dash : '-' ∈ (partitionName topic id).toList := by
    rw [chars]
    exact List.mem_append_right _ List.mem_cons_self
  constructor
  · rw [chars, List.mem_append, List.mem_cons, not_or, not_or]
    exact ⟨separator, by decide, Numeral.not_mem_spelling rfl (by decide) _ _ _⟩
  · rw [leads, Bool.and_eq_true, decide_eq_true_eq, decide_eq_true_eq]
    constructor
    · intro none
      rw [none] at dash
      cases dash
    · intro self
      rw [self] at dash
      exact absurd dash (by decide)
  · intro up
    rw [up] at dash
    exact absurd dash (by decide)

end Names

end BrokerExam.LogDirectory

/-! ### Plans -/

namespace BrokerExam.LogDirectoryPlan

/-- The plan names every topic, and names every topic and every partition once. -/
structure Valid (plan : LogDirectoryPlan) : Prop where
  named : ∀ t ∈ plan.topics, t.name ≠ ""
  topics : (plan.topics.map PlannedTopic.name).Nodup
  positive : ∀ t ∈ plan.topics, ∀ p ∈ t.partitions, 0 ≤ p.partitionId
  partitions : ∀ t ∈ plan.topics, (t.partitions.map PlannedPartition.partitionId).Nodup

/-- Keys that are none of those seen, where one more has been seen. -/
theorem unseen_cons {α κ : Type} {key : α → κ} {P : α → Prop} {a : α} {l : List α}
    {seen : List κ} :
    (∀ b ∈ l, P b ∧ key b ∉ key a :: seen) ∧ (l.map key).Nodup ↔
      (∀ b ∈ l, P b ∧ key b ∉ seen) ∧ key a ∉ l.map key ∧ (l.map key).Nodup := by
  constructor
  · rintro ⟨others, nodup⟩
    refine ⟨fun b hb => ⟨(others b hb).1, ?_⟩, fun mem => ?_, nodup⟩
    · exact fun mem => (others b hb).2 (List.mem_cons_of_mem _ mem)
    · obtain ⟨b, hb, same⟩ := List.mem_map.1 mem
      exact (others b hb).2 (same ▸ List.mem_cons_self)
  · rintro ⟨others, once, nodup⟩
    refine ⟨fun b hb => ⟨(others b hb).1, fun mem => ?_⟩, nodup⟩
    rcases List.mem_cons.1 mem with same | earlier
    · exact once (List.mem_map.2 ⟨b, hb, same⟩)
    · exact (others b hb).2 earlier

theorem checkPartitions_eq_ok_iff {topic : String} {ps : List PlannedPartition}
    {seen : List Int32} : checkPartitions topic ps seen = .ok () ↔
      (∀ p ∈ ps, 0 ≤ p.partitionId ∧ p.partitionId ∉ seen) ∧
        (ps.map PlannedPartition.partitionId).Nodup := by
  induction ps generalizing seen with
  | nil => exact iff_of_true rfl ⟨fun p hp => absurd hp List.not_mem_nil, List.nodup_nil⟩
  | cons p ps ih =>
    rw [checkPartitions, List.forall_mem_cons, List.map_cons, List.nodup_cons]
    split
    · next bad =>
      refine iff_of_false (fun h => by cases h) fun fine => ?_
      rcases bad with negative | again
      · exact absurd negative (Int32.not_lt.2 fine.1.1.1)
      · exact fine.1.1.2 again
    · next fine =>
      rw [not_or, Int32.not_lt] at fine
      rw [ih, unseen_cons, and_iff_right fine]

theorem checkTopics_eq_ok_iff {ts : List PlannedTopic} {seen : List String} :
    checkTopics ts seen = .ok () ↔
      (∀ t ∈ ts, (t.name ≠ "" ∧ checkPartitions t.name t.partitions [] = .ok ()) ∧
        t.name ∉ seen) ∧ (ts.map PlannedTopic.name).Nodup := by
  induction ts generalizing seen with
  | nil => exact iff_of_true rfl ⟨fun p hp => absurd hp List.not_mem_nil, List.nodup_nil⟩
  | cons t ts ih =>
    rw [checkTopics, List.forall_mem_cons, List.map_cons, List.nodup_cons]
    split
    · next empty => exact iff_of_false (fun h => by cases h) fun fine => fine.1.1.1.1 empty
    · next some =>
      split
      · next again => exact iff_of_false (fun h => by cases h) fun fine => fine.1.1.2 again
      · next fresh =>
        rw [Except.bind_eq_ok_iff]
        constructor
        · -- what was seen on the way is the key of this topic and those before
          rintro ⟨⟨⟩, fine, rest⟩
          obtain ⟨others, nodup⟩ := unseen_cons.1 (ih.1 rest)
          exact ⟨⟨⟨⟨some, fine⟩, fresh⟩, others⟩, nodup⟩
        · rintro ⟨⟨⟨⟨-, fine⟩, -⟩, others⟩, nodup⟩
          exact ⟨(), fine, ih.2 (unseen_cons.2 ⟨others, nodup⟩)⟩

/-- **The check** lets exactly the valid plans pass. -/
theorem check_eq_ok_iff {plan : LogDirectoryPlan} : plan.check = .ok () ↔ plan.Valid := by
  rw [check, checkTopics_eq_ok_iff]
  constructor
  · rintro ⟨each, topics⟩
    have fine (t : PlannedTopic) (ht : t ∈ plan.topics) :=
      checkPartitions_eq_ok_iff.1 (each t ht).1.2
    exact ⟨fun t ht => (each t ht).1.1, topics, fun t ht p hp => ((fine t ht).1 p hp).1,
      fun t ht => (fine t ht).2⟩
  · rintro ⟨named, topics, positive, partitions⟩
    refine ⟨fun t ht => ⟨⟨named t ht, ?_⟩, List.not_mem_nil⟩, topics⟩
    exact checkPartitions_eq_ok_iff.2
      ⟨fun p hp => ⟨positive t ht p hp, List.not_mem_nil⟩, partitions t ht⟩

end BrokerExam.LogDirectoryPlan
