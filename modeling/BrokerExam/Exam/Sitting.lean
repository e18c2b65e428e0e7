/-
BrokerExam/Exam/Sitting.lean

An exam from the beginning to the first stage that is failed.
-/
import BrokerExam.Exam.Stage

namespace BrokerExam.Exam

/-- The stages of these names, in this order, or all of them. -/
def select (slugs : List String) : Except Cause (List Stage) :=
  if slugs = [] then .ok Stage.all
  else slugs.mapM fun slug =>
    match Stage.find? slug with
    | some stage => .ok stage
    | none => .error (.unknownStage slug)

variable {m : Type → Type} [Monad m] [Journal m] [Clock m] [Network m] [Storage m] [Chance m]

/-- Runs stages up to the first that is failed, and tells whether none is. -/
def sit (s : Setting) : List Stage → m Bool
  | [] => return true
  | stage :: stages => do
    match ← (stage.run s).run with
    | .ok () =>
      info "Test passed."
      sit s stages
    | .error e =>
      Journal.record { level := .error, text := e.message }
      Journal.record { level := .error, text := s!"Test failed ({stage.slug})" }
      return false

end BrokerExam.Exam
