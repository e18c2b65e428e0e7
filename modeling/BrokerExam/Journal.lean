/-
BrokerExam/Journal.lean

What an exam tells its candidate on the way: entries of five levels, each below
the spans in which it was made.  `Journal` is the means of telling it.
-/
import BrokerExam.Text.Numeral

namespace BrokerExam

inductive Level
  | error
  | warn
  | info
  | debug
  | trace
  deriving DecidableEq, Repr, Inhabited

namespace Level

def name : Level → String
  | error => "ERROR"
  | warn => "WARN"
  | info => "INFO"
  | debug => "DEBUG"
  | trace => "TRACE"

/-- How much is told at the level: one for errors alone, five for all there is. -/
def detail : Level → Nat
  | error => 1
  | warn => 2
  | info => 3
  | debug => 4
  | trace => 5

/-- Whether entries of this level are shown where `limit` is the level asked for. -/
def shownAt (level limit : Level) : Bool := level.detail ≤ limit.detail

def all : List Level := [error, warn, info, debug, trace]

/-- The level of a name, in letters of either case, or of a number for its detail. -/
def ofName? (name : String) : Option Level :=
  match Numeral.unsigned? name.toList with
  | some n => all.find? (·.detail = n)
  | none => all.find? (·.name = name.toUpper)

end Level

structure Entry where
  level : Level
  /-- The spans in which the entry was made, the outermost first. -/
  spans : List String := []
  text : String
  deriving DecidableEq, Repr

namespace Entry

/-- The entry with its spans, which are of the level `info` and shown with it. -/
def line (e : Entry) (limit : Level) : String :=
  let spans := if Level.info.shownAt limit then e.spans else []
  let place := if spans = [] then "" else ":".intercalate spans ++ ": "
  s!"{e.level.name} {place}{e.text}"

end Entry

class Journal (m : Type → Type) where
  record : Entry → m Unit
  /-- Puts the entries of a computation below a span. -/
  within {α : Type} (span : String) (x : m α) : m α

instance {m : Type → Type} {ε : Type} [Monad m] [Journal m] : Journal (ExceptT ε m) where
  record e := ExceptT.lift (Journal.record e)
  within span x := ExceptT.mk (Journal.within span x.run)

section Telling

variable {m : Type → Type} [Journal m]

def debug (text : String) : m Unit := Journal.record { level := .debug, text }

def info (text : String) : m Unit := Journal.record { level := .info, text }

def warn (text : String) : m Unit := Journal.record { level := .warn, text }

end Telling
end BrokerExam
