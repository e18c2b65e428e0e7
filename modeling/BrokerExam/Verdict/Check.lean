/-
BrokerExam/Verdict/Check.lean

Checks that need more than one field, in the order in which they are made: a
demand that holds or not, or a remark on what has been found good so far.  The
first demand that does not hold ends them.
-/
namespace BrokerExam

inductive Check
  | remark (text : String)
  | demand (holds : Bool) (objection : String)
  deriving DecidableEq, Repr

namespace Check

/-- A demand for what has failed already. -/
def failed (objection : String) : Check := demand false objection

/-- The objection to the first demand that does not hold. -/
def objection? : List Check → Option String
  | [] => none
  | remark _ :: cs => objection? cs
  | demand holds objection :: cs => if holds then objection? cs else some objection

/-- The remarks up to the first demand that does not hold. -/
def remarks : List Check → List String
  | [] => []
  | remark text :: cs => text :: remarks cs
  | demand holds _ :: cs => if holds then remarks cs else []

/-- Everything that is demanded holds. -/
def Passes (cs : List Check) : Prop := ∀ holds objection, demand holds objection ∈ cs → holds

theorem objection?_eq_none_iff {cs : List Check} : objection? cs = none ↔ Passes cs := by
  induction cs with
  | nil => simp [objection?, Passes]
  | cons c cs ih =>
    cases c with
    | remark text => simp [objection?, ih, Passes]
    | demand holds objection =>
      cases holds with
      | true => simp [objection?, ih, Passes]
      | false =>
        simp only [objection?, Bool.false_eq_true, ↓reduceIte, reduceCtorEq, false_iff]
        intro h
        simpa using h false objection (by simp)

theorem passes_append {cs ds : List Check} : Passes (cs ++ ds) ↔ Passes cs ∧ Passes ds := by
  simp only [Passes, List.mem_append]
  constructor
  · exact fun h => ⟨fun b o hm => h b o (.inl hm), fun b o hm => h b o (.inr hm)⟩
  · rintro ⟨hc, hd⟩ b o (hm | hm)
    · exact hc b o hm
    · exact hd b o hm

@[simp] theorem passes_nil : Passes [] := fun _ _ hm => absurd hm List.not_mem_nil

@[simp] theorem passes_remark {text : String} {cs : List Check} :
    Passes (remark text :: cs) ↔ Passes cs := by
  simp only [Passes, List.mem_cons, reduceCtorEq, false_or]

@[simp] theorem passes_demand {holds : Bool} {objection : String} {cs : List Check} :
    Passes (demand holds objection :: cs) ↔ holds ∧ Passes cs := by
  constructor
  · exact fun h => ⟨h _ _ List.mem_cons_self, fun b o hm => h b o (List.mem_cons_of_mem _ hm)⟩
  · rintro ⟨first, others⟩ b o hm
    rcases List.mem_cons.1 hm with same | hm
    · rw [(Check.demand.inj same).1]
      exact first
    · exact others b o hm

theorem passes_flatten {css : List (List Check)} : Passes css.flatten ↔ ∀ cs ∈ css, Passes cs := by
  simp only [Passes, List.mem_flatten]
  constructor
  · exact fun h cs hcs b o hm => h b o ⟨cs, hcs, hm⟩
  · rintro h b o ⟨cs, hcs, hm⟩
    exact h cs hcs b o hm

/-- Checks made of one list against another are made index by index. -/
theorem passes_zipWith {α β : Type} {f : α → β → List Check} {as : List α} {bs : List β} :
    Passes (List.zipWith f as bs).flatten ↔
      ∀ (i : Nat) a b, as[i]? = some a → bs[i]? = some b → Passes (f a b) := by
  rw [passes_flatten]
  constructor
  · intro h i a b ha hb
    apply h
    apply List.mem_of_getElem? (i := i)
    rw [List.getElem?_zipWith, ha, hb]
  · intro h cs hcs
    obtain ⟨i, hi⟩ := List.mem_iff_getElem?.1 hcs
    rw [List.getElem?_zipWith_eq_some] at hi
    obtain ⟨a, b, ha, hb, rfl⟩ := hi
    exact h i a b ha hb

end Check
end BrokerExam
