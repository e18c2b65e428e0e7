/-
BrokerExam/Fault.lean

Faults of the program itself.  A broker's reply is judged, whatever it is; a
fault says that the program was used in a way that it does not provide for.
Operations that can fault return `Except Fault`.
-/
import BrokerExam.Field.Path
import BrokerExam.Field.Value

namespace BrokerExam

inductive Fault
  /-- A value was asked for as something that it is not. -/
  | wrongType (actual expected : ValueType)
  /-- The last segment of the root path. -/
  | rootHasNoSegment
  /-- The paths between two paths of which the first is not below the second. -/
  | notDescendant (path other : FieldPath)
  /-- A field that no rule judges. -/
  | unhandledPath (path : FieldPath)
  /-- A path to be marked in a tree that does not hold it. -/
  | fieldNotFound (path : FieldPath)
  /-- The latest field, when none has been read. -/
  | noFieldDecoded
  /-- A text of so many bytes behind a signed 16-bit length. -/
  | overlongString (bytes : Nat)
  /-- A range that ends before it starts. -/
  | rangeReversed (start stop : Nat)
  /-- A range beyond the end. -/
  | rangeBeyondEnd (stop length : Nat)
  /-- A sum outside its fixed width. -/
  | addOverflow
  /-- A difference outside its fixed width. -/
  | subtractOverflow
  deriving DecidableEq, Repr

namespace Fault

def message : Fault → String
  | wrongType actual expected => s!"Internal Error - Value of type {actual} is not {expected}"
  | rootHasNoSegment => "Internal Error: last_segment called on the root path"
  | notDescendant path other => s!"Internal Error: {path} is not a descendant of {other}"
  | unhandledPath path => s!"Internal Error: Unhandled field path: {path}"
  | fieldNotFound path =>
    s!"Internal Error: error field path '{path}' not found in the decoded fields"
  | noFieldDecoded => "Internal Error: no field decoded yet"
  | overlongString bytes =>
    s!"Internal Error: STRING of {bytes} bytes exceeds the int16 length prefix"
  | rangeReversed start stop => s!"slice index starts at {start} but ends at {stop}"
  | rangeBeyondEnd stop length =>
    s!"range end index {stop} out of range for slice of length {length}"
  | addOverflow => "attempt to add with overflow"
  | subtractOverflow => "attempt to subtract with overflow"

end Fault

/-- The bytes from `start` up to `stop`, which must lie in the byte string. -/
def Bytes.slice (bs : Bytes) (start stop : Nat) : Except Fault Bytes :=
  if stop < start then .error (.rangeReversed start stop)
  else if bs.length < stop then .error (.rangeBeyondEnd stop bs.length)
  else .ok ((bs.take stop).drop start)

namespace Value

/-- The value itself, when it is of type `t`. -/
def expect (t : ValueType) (v : Value) : Except Fault Value :=
  if v.type = t then .ok v else .error (.wrongType v.type t)

end Value
end BrokerExam
