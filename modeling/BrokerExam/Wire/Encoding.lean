/-
BrokerExam/Wire/Encoding.lean

What is written.  An encoding is the list of the values of a message, each with
the path that leads to it.  Its bytes are those of the values one after the
other, and its fields are the values laid end to end: that the fields of a
written message tile it holds by construction.

One thing cannot be written: a text too long for the signed 16 bits in front of
it (`render`).
-/
import BrokerExam.Wire.Kind
import BrokerExam.Fault

namespace BrokerExam

/-- A value and the segments that lead to it. -/
structure Leaf where
  path : List String
  value : Value
  deriving DecidableEq, Repr

abbrev Encoding := List Leaf

namespace Encoding

def bytes (e : Encoding) : Bytes := e.flatMap fun l => l.value.bytes

/-- The fields of `e` laid out from offset `start` on. -/
def fieldsFrom (start : Nat) : Encoding → List Field
  | [] => []
  | l :: e =>
    let stop := start + l.value.bytes.length
    ⟨⟨l.path⟩, l.value, start, stop⟩ :: fieldsFrom stop e

def fields (e : Encoding) : List Field := fieldsFrom 0 e

/-- The bytes, unless some text is too long for its length prefix. -/
def render (e : Encoding) : Except Fault Bytes :=
  match e.findSome? fun l => l.value.overlong? with
  | some n => .error (.overlongString n)
  | none => .ok (bytes e)

/-! ### Building encodings -/

def leaf (segment : String) (v : Value) : Encoding := [⟨[segment], v⟩]

/-- `e` below the segment. -/
def scope (segment : String) (e : Encoding) : Encoding :=
  e.map fun l => { l with path := segment :: l.path }

def emptyTagBuffer : Encoding := leaf tagBufferSegment (.unsignedVarint 0)

/-- The items one after the other, each below its index. -/
def items (name : String) (es : List Encoding) : Encoding :=
  (es.mapIdx fun i e => scope (indexed name i) e).flatten

def compactLength (n : Nat) : Encoding :=
  leaf "Length" (.compactArrayLength (UInt64.ofNat (n + 1)))

def compactArray (name : String) (es : List Encoding) : Encoding :=
  scope name (compactLength es.length ++ items name es)

def compactInt32Array (name : String) (vs : List Int32) : Encoding :=
  scope name (compactLength vs.length ++
    (vs.mapIdx fun i v => leaf (indexed name i) (.int32 v)).flatten)

def array (name : String) (es : List Encoding) : Encoding :=
  scope name (leaf "Length" (.int32 (Int32.ofNat es.length)) ++ items name es)

end Encoding

/-- A payload behind its length as a signed 32-bit number. -/
def frame (payload : Bytes) : Bytes := BigEndian.encode 4 payload.length ++ payload

end BrokerExam
