/-
BrokerExam/Text/Utf8.lean

Text as bytes.  Encoding is plain UTF-8.  Decoding never fails: each maximal
ill-formed part of the input becomes one replacement character.  It runs an
automaton over the bytes: between characters, or inside one, waiting for
`missing` continuation bytes of which the next must lie in `low … high` (the
bounds exclude overlong forms, surrogates and numbers above U+10FFFF).
-/
import BrokerExam.Bytes.BigEndian

namespace BrokerExam.Utf8

def encode (s : String) : Bytes := s.toList.flatMap String.utf8EncodeChar

/-- A character of which the first bytes have been read. -/
structure Pending where
  missing : Nat
  low : UInt8
  high : UInt8
  /-- The bits read so far. -/
  bits : Nat
  deriving DecidableEq, Repr

def replacement : Char := '\uFFFD'

/-- What a byte between two characters completes, and what it begins. -/
def lead (b : UInt8) : List Char × Option Pending :=
  if b < 0x80 then ([Char.ofNat b.toNat], none)
  else if 0xC2 ≤ b ∧ b ≤ 0xDF then ([], some ⟨1, 0x80, 0xBF, b.toNat % 32⟩)
  -- behind E0, ED, F0 and F4 not every continuation byte will do
  else if b = 0xE0 then ([], some ⟨2, 0xA0, 0xBF, 0⟩)
  else if b = 0xED then ([], some ⟨2, 0x80, 0x9F, b.toNat % 16⟩)
  else if 0xE1 ≤ b ∧ b ≤ 0xEF then ([], some ⟨2, 0x80, 0xBF, b.toNat % 16⟩)
  else if b = 0xF0 then ([], some ⟨3, 0x90, 0xBF, 0⟩)
  else if 0xF1 ≤ b ∧ b ≤ 0xF3 then ([], some ⟨3, 0x80, 0xBF, b.toNat % 8⟩)
  else if b = 0xF4 then ([], some ⟨3, 0x80, 0x8F, 4⟩)
  else ([replacement], none)

/-- What the next byte completes, and what is pending after it. -/
def step : Option Pending → UInt8 → List Char × Option Pending
  | none, b => lead b
  | some p, b =>
    if p.low ≤ b ∧ b ≤ p.high then
      let bits := p.bits * 64 + b.toNat % 64
      if p.missing ≤ 1 then ([Char.ofNat bits], none)
      else ([], some ⟨p.missing - 1, 0x80, 0xBF, bits⟩)
    else (replacement :: (lead b).1, (lead b).2)

/-- The characters of `bs`, the character `pending` having been begun before it. -/
def decodeFrom : Option Pending → Bytes → List Char
  | none, [] => []
  | some _, [] => [replacement]
  | pending, b :: bs => (step pending b).1 ++ decodeFrom (step pending b).2 bs

def decodeLossy (bs : Bytes) : String := String.ofList (decodeFrom none bs)

end BrokerExam.Utf8
