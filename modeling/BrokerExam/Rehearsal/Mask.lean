/-
BrokerExam/Rehearsal/Mask.lean

Texts without what a stage makes up: a word of its list becomes `WORD`, an
identity `UUID`, and, if wanted, a number `N`.  What two runs say about the same
broker is then the same.
-/
import BrokerExam.Exam.Material

namespace BrokerExam.Rehearsal

/-- How an identity is spelt: hexadecimal digits, and dashes at four places. -/
def looksLikeUuid (cs : List Char) : Bool :=
  let isHex (c : Char) : Bool :=
    c.isDigit || ('a' ≤ c && c ≤ 'f') || ('A' ≤ c && c ≤ 'F')
  cs.length = 36 && cs.zipIdx.all fun (c, i) => if i ∈ [8, 13, 18, 23] then c = '-' else isHex c

/-- Masks a text from left to right.  A number right behind a letter belongs to a name, and is left
as it is; `after` is the character before. -/
def maskFrom (numbers : Bool) : (fuel : Nat) → (after : Option Char) → List Char → List Char
  | 0, _, cs => cs
  | _, _, [] => []
  | fuel + 1, after, c :: cs =>
    let text := c :: cs
    if looksLikeUuid (text.take 36) then
      "UUID".toList ++ maskFrom numbers fuel (some 'D') (text.drop 36)
    else if c.isAlpha then
      let name := text.takeWhile Char.isAlpha
      let shown := if String.ofList name ∈ Exam.words then "WORD".toList else name
      shown ++ maskFrom numbers fuel (some c) (text.dropWhile Char.isAlpha)
    else if c.isDigit then
      let number := text.takeWhile Char.isDigit
      let shown := if numbers && !after.any Char.isAlpha then ['N'] else number
      shown ++ maskFrom numbers fuel (shown.getLast?) (text.dropWhile Char.isDigit)
    else c :: maskFrom numbers fuel (some c) cs

def mask (numbers : Bool) (text : String) : String :=
  String.ofList (maskFrom numbers text.length none text.toList)

/-- Each of the masked texts once. -/
def distinct (texts : List String) : List String := (texts.map (mask true)).eraseDups

end BrokerExam.Rehearsal
