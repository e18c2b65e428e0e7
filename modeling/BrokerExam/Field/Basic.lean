/-
BrokerExam/Field/Basic.lean

A field is one value at one path, with the bytes `start ≤ · < stop` that it
occupies in the message.  Its anchor is its place without the value: what an
error that is only noticed later points back to.
-/
import BrokerExam.Field.Value
import BrokerExam.Wire.Error

namespace BrokerExam

structure Anchor where
  path : FieldPath
  start : Nat
  stop : Nat
  deriving DecidableEq, Repr

structure Field where
  path : FieldPath
  value : Value
  start : Nat
  stop : Nat
  deriving DecidableEq, Repr

def Field.anchor (f : Field) : Anchor := ⟨f.path, f.start, f.stop⟩

/-- The error `cause`, blamed on the anchored field. -/
def Anchor.error (a : Anchor) (cause : CodecError) : DecodeError := ⟨a.path, a.start, a.stop, cause⟩

end BrokerExam
