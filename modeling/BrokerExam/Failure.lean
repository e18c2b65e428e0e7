/-
BrokerExam/Failure.lean

How a part of an exam can end early: the broker's answer is not the one to
expect (`Objection`), something could not be done (`Trouble`), or the program
itself is at fault (`Fault`).
-/
import BrokerExam.Fault
import BrokerExam.Trouble

namespace BrokerExam

/-- What is wrong with an answer. -/
inductive Objection
  /-- Fewer than the four bytes of a message size. -/
  | missingSize (bytes : Nat)
  /-- A message size that is not the number of bytes behind it. -/
  | wrongSize (declared actual : Int)
  /-- A field with the wrong value, in its bytes `start ≤ · < stop`. -/
  | field (path : FieldPath) (start stop : Nat) (text : String)
  /-- Bytes that cannot be read. -/
  | unreadable (e : DecodeError)
  /-- Fields that do not fit together. -/
  | composite (text : String)
  /-- A log file that is not there, for a reason that is kept as its text. -/
  | missingLog (path reason : String)
  /-- A log file with so many bytes that are not the expected ones. -/
  | differentLog (path : String) (differing : Nat)
  deriving DecidableEq, Repr

namespace Objection

def message : Objection → String
  | missingSize bytes => s!"Expected 4-byte integer (message size), only found {bytes} bytes"
  | wrongSize declared actual =>
    s!"Expected the first four bytes be {actual} (message size), got {declared}"
      ++ if declared = actual + 4 then
        "\nHint: The Message Size field should not count itself."
      else ""
  | field _ _ _ text => text
  | unreadable e => e.message
  | composite text => text
  | missingLog path reason => s!"Expected {path} to exist: {reason}"
  | differentLog path differing =>
    s!"Expected {path} to contain the produced record batches, got {differing} bytes that differ"

end Objection

inductive Failure
  | objection (o : Objection)
  | trouble (t : Trouble)
  | fault (f : Fault)
  deriving DecidableEq, Repr

namespace Failure

/-- What failed, and why, from the outermost attempt inwards. -/
def chain : Failure → List String
  | objection (.unreadable e) => (Cause.decode e).chain
  | objection o => [o.message]
  | trouble t => t.chain
  | fault f => [f.message]

/-- The whole text on one line. -/
def message (f : Failure) : String := ": ".intercalate f.chain

/-- The lines of a cause below others, the first of them after a label. -/
def indented (label text : String) : String :=
  label ++ ("\n" ++ String.ofList (label.toList.map fun _ => ' ')).intercalate (text.splitOn "\n")

/-- A label as wide as that of any other cause. -/
def label (i : Nat) : String :=
  let digits := toString i
  String.ofList (List.replicate (5 - digits.length) ' ') ++ digits ++ ": "

/-- The causes below their heading, with numbers if there is more than one. -/
def causes : List String → String
  | [] => ""
  | [cause] => "\n\nCaused by:\n" ++ indented "    " cause
  | causes =>
    "\n\nCaused by:\n" ++ "\n".intercalate (causes.mapIdx fun i cause => indented (label i) cause)

/-- The whole text over several lines, as what ended the program. -/
def report (f : Failure) : String :=
  match f.chain with
  | [] => "Error: "
  | what :: whys => "Error: " ++ what ++ causes whys

/-- The failure as met in a wider attempt. -/
def during (f : Failure) (what : Attempt) : Failure :=
  match f with
  | trouble t => trouble (t.during what)
  | f => f

end Failure

/-- A computation that can fail. -/
abbrev Tried (m : Type → Type) := ExceptT Failure m

section Trying

variable {m : Type → Type} [Monad m] {α : Type}

/-- Turns a fault into a failure. -/
def faultless (x : Except Fault α) : Tried m α := ExceptT.mk (pure (x.mapError .fault))

/-- How a computation ends, as a value. -/
def outcome (x : Tried m α) : Tried m (Except Failure α) := ExceptT.lift x.run

/-- Fails with a cause, met in no attempt yet. -/
def fail (cause : Cause) : Tried m α := throw (.trouble { cause })

/-- Runs a computation as part of an attempt. -/
def attempting (what : Attempt) (x : Tried m α) : Tried m α :=
  ExceptT.mk do return (← x.run).mapError (·.during what)

/-- An operation of the system as an attempt. -/
def attempt (what : Attempt) (x : m (Except SystemError α)) : Tried m α :=
  ExceptT.mk do return (← x).mapError fun e => .trouble ⟨[what], .system e⟩

end Trying
end BrokerExam
