/-
BrokerExam/Proofs/Text/Split.lean

The parts of a text that is put together: those before a separator and those
behind it (`split_append`), and the parts that were put together, if none of
them holds a separator (`split_intercalate`).  Where each part stands for
something, the parts can be told from what they stand for (`forall₂_iff_eq_map`).
-/
import Mathlib.Data.List.Forall2
import BrokerExam.Text.Split

namespace BrokerExam.Text

variable {separator : Char}

/-- Where there is no separator there is one part. -/
theorem split_eq_singleton {cs : List Char} (h : separator ∉ cs) : split separator cs = [cs] := by
  induction cs with
  | nil => rfl
  | cons c cs ih =>
    rw [List.mem_cons, not_or] at h
    rw [split, if_neg (Ne.symm h.1), ih h.2]

/-- The parts on both sides of a separator stand one behind the other. -/
theorem split_append (front back : List Char) :
    split separator (front ++ separator :: back) =
      split separator front ++ split separator back := by
  induction front with
  | nil =>
    show split separator (separator :: back) = [] :: split separator back
    rw [split, if_pos rfl]
  | cons c front ih =>
    rw [List.cons_append, split, split, ih]
    split
    · rfl
    · cases parts : split separator front with
      | nil => exact absurd parts (split_ne_nil separator front)
      | cons part rest => rfl

/-- Parts without separators are found again between them. -/
theorem split_intercalate {parts : List (List Char)} (some : parts ≠ [])
    (h : ∀ part ∈ parts, separator ∉ part) :
    split separator ([separator].intercalate parts) = parts := by
  induction parts with
  | nil => exact absurd rfl some
  | cons part parts ih =>
    have first := split_eq_singleton (h part List.mem_cons_self)
    cases parts with
    | nil => rw [List.intercalate_singleton, first]
    | cons next parts =>
      rw [List.intercalate_cons_cons, List.append_assoc, List.singleton_append, split_append, first,
        ih (List.cons_ne_nil _ _) fun p hp => h p (List.mem_cons_of_mem _ hp)]
      rfl

/-- No part holds a separator. -/
theorem not_mem_of_mem_split {cs part : List Char} (h : part ∈ split separator cs) :
    separator ∉ part := by
  induction cs generalizing part with
  | nil =>
    obtain rfl := List.mem_singleton.1 h
    exact List.not_mem_nil
  | cons c cs ih =>
    rw [split] at h
    split at h
    · rcases List.mem_cons.1 h with rfl | later
      · exact List.not_mem_nil
      · exact ih later
    · next other =>
      split at h
      · next first rest parts =>
        rcases List.mem_cons.1 h with rfl | later
        · have apart := ih (parts ▸ List.mem_cons_self)
          exact fun both => (List.mem_cons.1 both).elim (fun same => other same.symm) apart
        · exact ih (parts ▸ List.mem_cons_of_mem _ later)
      · next none => exact absurd none (split_ne_nil separator cs)

/-- If only one part can stand for each thing, parts stand for things if they are those. -/
theorem forall₂_iff_eq_map {α β : Type} {R : α → β → Prop} {f : β → α} {parts : List α}
    {things : List β} (only : ∀ a b, R a b ↔ a = f b) :
    List.Forall₂ R parts things ↔ parts = things.map f := by
  have same : R = fun a b => a = f b := by
    funext a b
    exact propext (only a b)
  rw [same, ← List.forall₂_map_right_iff, List.forall₂_eq_eq_eq]

end BrokerExam.Text
