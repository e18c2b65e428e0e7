/-
BrokerExam/Text/Split.lean

The parts of a text between its separators.  There is always at least one part,
and the parts with the separator between them are the text again
(`intercalate_split`).
-/
namespace BrokerExam.Text

def split (separator : Char) : List Char → List (List Char)
  | [] => [[]]
  | c :: cs =>
    if c = separator then [] :: split separator cs
    else match split separator cs with
      | part :: parts => (c :: part) :: parts
      | [] => [[c]]

theorem split_ne_nil (separator : Char) (cs : List Char) : split separator cs ≠ [] := by
  cases cs with
  | nil => simp [split]
  | cons c cs =>
    unfold split
    split
    · simp
    · split <;> simp

theorem intercalate_split (separator : Char) (cs : List Char) :
    [separator].intercalate (split separator cs) = cs := by
  induction cs with
  | nil => rfl
  | cons c cs ih =>
    unfold split
    split
    · next h =>
      subst h
      cases hs : split c cs with
      | nil => exact absurd hs (split_ne_nil c cs)
      | cons part parts =>
        rw [hs] at ih
        simp [List.intercalate, List.intersperse] at ih ⊢
        exact ih
    · split
      · next part parts hs =>
        rw [hs] at ih
        cases parts <;> simp_all [List.intercalate, List.intersperse]
      · next hs => exact absurd hs (split_ne_nil separator cs)

end BrokerExam.Text
