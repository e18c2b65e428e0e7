/-
BrokerExam/Verdict/Judge.lean

Judging an answer.  The size of the message comes first.  Then every field that
could be read is judged on its own, so that an objection stands in the tree of
fields, right at the value.  When all are fine and the whole answer could be
read, the checks across fields follow.
-/
import BrokerExam.Frame
import BrokerExam.Journal
import BrokerExam.Message.Basic
import BrokerExam.Report.HexDump
import BrokerExam.Report.Tree
import BrokerExam.Verdict.Check
import BrokerExam.Verdict.Rule

namespace BrokerExam

/-- What is expected of an answer with bodies of type `β`. -/
class Expectation (ε : Type) (β : outParam Type) where
  rules : ε → List Rule
  checks : ε → Response β → List Check

namespace Verdict

variable {ε β : Type} [Expectation ε β]

/-- The complaint about a field.  Tag buffers are not judged. -/
def complaint? (e : ε) (f : Field) : Except Fault (Option String) := do
  if (← f.path.lastSegment) = tagBufferSegment then return none
  else Rule.judge f (Expectation.rules e)

/-- The last of the fields about which there is a complaint, with the complaint. -/
def lastComplaint (e : ε) : List Field → Except Fault (Option (Field × String))
  | [] => .ok none
  | f :: fs => do
    let here ← complaint? e f
    match ← lastComplaint e fs with
    | some later => return some later
    | none => return here.map (f, ·)

variable {m : Type → Type} [Monad m] [Journal m]

/-- Records each line on a level. -/
def tell (level : Level) (lines : List String) : m Unit :=
  lines.forM fun text => Journal.record { level, text }

/-- Shows the tree of fields and where in the bytes something is wrong with it. -/
def showFailure (tree : Except Fault (List String)) (payload : Bytes) (start stop : Nat) :
    Tried m Unit := do
  tell .error (← faultless tree)
  tell .error ["Received bytes:"]
  let dump ← faultless ((HexDump.mk payload 0).formatWithRange start (max (stop - 1) start))
  tell .error (dump.splitOn "\n")

/-- Reads an answer and judges its fields. -/
def judgeFields [ResponseBody β] (e : ε) (payload : Bytes) : Tried m (Response β) := do
  let (answer, fields) : Except DecodeError (Response β) × List Field :=
    match Response.read payload with
    | .ok r s => (.ok r, s.fields.toList)
    | .error err s => (.error err, s.fields.toList)
  let complaint ← faultless (lastComplaint e fields)
  Journal.within "Decoder" do
    -- a complaint about a field goes before the error that ended the reading
    match complaint, answer with
    | some (f, text), _ =>
      showFailure (Tree.linesForFailedField fields f.path) payload f.start f.stop
      throw (.objection (.field f.path f.start f.stop text))
    | none, .error err =>
      showFailure (Tree.linesForDecodeError fields err.path) payload err.start err.stop
      throw (.objection (.unreadable err))
    | none, .ok r =>
      tell .debug (← faultless (Tree.lines fields))
      return r

/-- Makes the checks across fields. -/
def judgeWhole (e : ε) (r : Response β) : Tried m Unit := do
  let checks := Expectation.checks e r
  tell .info (Check.remarks checks)
  match Check.objection? checks with
  | none => pure ()
  | some text => throw (.objection (.composite text))

/-- Judges a message, the size of which may be left aside. -/
def judgeMessage [ResponseBody β] (e : ε) (f : Frame) (ignoreSize : Bool) :
    Tried m (Response β) := do
  if !ignoreSize then ExceptT.mk (pure (f.checkSize.mapError .objection))
  let r ← judgeFields e f.payload
  judgeWhole e r
  return r

end Verdict
end BrokerExam
