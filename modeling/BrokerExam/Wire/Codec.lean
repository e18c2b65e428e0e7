/-
BrokerExam/Wire/Codec.lean

Both directions at once.  A codec writes a `β` that it takes from an `α`, and
reads a `β`.  Codecs compose as a monad does: what has been written, or read, so
far decides what follows.  A message that is described once in this way is
written and read with the same segments, the same kinds and in the same order.

What `write` returns is the value as it will read back, which need not be the
one given: a record batch comes back with its computed length and checksum.
-/
import BrokerExam.Wire.FieldRead
import BrokerExam.Wire.Encoding

namespace BrokerExam

structure Codec (α β : Type) where
  /-- The value as it reads back, and what is written for it. -/
  write : α → β × Encoding
  read : FieldRead β

namespace Codec

variable {α β γ : Type}

instance : Monad (Codec α) where
  pure b := ⟨fun _ => (b, []), pure b⟩
  bind c f :=
    { write := fun a =>
        let first := c.write a
        let second := (f first.1).write a
        (second.1, first.2 ++ second.2)
      read := do (f (← c.read)).read }

/-- The codec, for a part of the value. -/
def on (c : Codec α β) (part : γ → α) : Codec γ β := ⟨fun g => c.write (part g), c.read⟩

/-- One field. -/
def field (segment : String) (kind : Kind α) : Codec α α :=
  ⟨fun a => (a, Encoding.leaf segment (kind.value a)), FieldRead.field segment kind⟩

/-- The codec below the segment. -/
def scope (segment : String) (c : Codec α β) : Codec α β :=
  { write := fun a => ((c.write a).1, Encoding.scope segment (c.write a).2)
    read := FieldRead.scope segment c.read }

/-- An empty tag buffer. -/
def tagBuffer : Codec α Unit := ⟨fun _ => ((), Encoding.emptyTagBuffer), FieldRead.tagBuffer⟩

/-- What is written and never read. -/
def writeOnly (c : Codec α β) : Codec α Unit := ⟨fun a => ((), (c.write a).2), pure ()⟩

/-! ### Fields by kind -/

def int8 (segment : String) : Codec Int8 Int8 := field segment Kind.int8
def int16 (segment : String) : Codec Int16 Int16 := field segment Kind.int16
def int32 (segment : String) : Codec Int32 Int32 := field segment Kind.int32
def int64 (segment : String) : Codec Int64 Int64 := field segment Kind.int64
def varint (segment : String) : Codec Int64 Int64 := field segment Kind.varint
def compactString (segment : String) : Codec String String := field segment Kind.compactString
def compactNullableString (segment : String) : Codec (Option String) (Option String) :=
  field segment Kind.compactNullableString
def string (segment : String) : Codec (Option String) (Option String) :=
  field segment Kind.string
def uuid (segment : String) : Codec Uuid Uuid := field segment Kind.uuid
def boolean (segment : String) : Codec Bool Bool := field segment Kind.boolean

/-! ### Arrays -/

/-- The items as they read back, and what is written for each. -/
def writeItems (c : Codec α β) (as : List α) : List β × List Encoding :=
  (as.map fun a => (c.write a).1, as.map fun a => (c.write a).2)

def compactArray (name : String) (element : Codec α β) : Codec (List α) (List β) :=
  { write := fun as =>
      let (bs, es) := element.writeItems as
      (bs, Encoding.compactArray name es)
    read := FieldRead.compactArray name element.read }

def compactInt32Array (name : String) : Codec (List Int32) (List Int32) :=
  ⟨fun vs => (vs, Encoding.compactInt32Array name vs), FieldRead.compactInt32Array name⟩

def array (name : String) (element : Codec α β) : Codec (List α) (List β) :=
  { write := fun as =>
      let (bs, es) := element.writeItems as
      (bs, Encoding.array name es)
    read := FieldRead.array name element.read }

end Codec
end BrokerExam
