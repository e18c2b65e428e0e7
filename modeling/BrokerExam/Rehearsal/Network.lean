/-
BrokerExam/Rehearsal/Network.lean

Connections in a made-up world.  While the exam waits for bytes, time goes on to
the next thing that happens at the connection, or to the end of the waiting,
whichever is first; where both come at once, the waiting ends.
-/
import BrokerExam.Broker.Reply
import BrokerExam.Rehearsal.Link

namespace BrokerExam.Rehearsal

namespace World

def link? (i : Nat) : InWorld (Option Link) := return (← get).links[i]?

def setLink (i : Nat) (l : Link) : InWorld Unit :=
  modify fun w => { w with links := w.links.set i l }

/-- The steps that a request leads to, and how the other side goes on. -/
def answer (conduct : Conduct) (request : Bytes) : InWorld (List Step × Conduct) := do
  match conduct with
  | .listening | .deaf => return ([], conduct)
  | .canned after reply echo close =>
    let write : Step := ⟨after, .write (if echo then Link.echoed reply request else reply)⟩
    return if close then ([write, ⟨0, .close⟩], .listening) else ([write], conduct)
  | .broker root defect =>
    if defect = some .hangUp then return ([⟨0, .close⟩], .listening)
    else
      let payload ← (Broker.reply root defect request : Tried InWorld Bytes).run
      let steps := Link.replySteps defect payload.toOption
      return (steps, if ⟨0, .close⟩ ∈ steps then .listening else conduct)

/-- Lets the other side act on the requests that have come in, at most `fuel` of them. -/
def serve (i : Nat) : (fuel : Nat) → InWorld Unit
  | 0 => pure ()
  | fuel + 1 => do
    match ← link? i with
    | none => pure ()
    | some l =>
      match Link.nextRequest l.partialRequest with
      | none => pure ()
      | some (request, rest) =>
        let (steps, conduct) ← answer l.conduct request
        let now := (← get).time
        setLink i (Link.plan now steps { l with conduct, partialRequest := rest })
        serve i fuel

/-- Bytes that are there by now, or the end of the waiting; or else time goes on to the next step
of the other side. -/
def takeOrWait (i limit : Nat) (deadline : Option Nat) : InWorld (Option (Waited Bytes)) := do
  match ← link? i with
  | none => return some (.failed .connectionReset)
  | some unsettled =>
    let now := (← get).time
    let l := unsettled.settled now
    -- what has come in can still be read after the connection has ended
    if l.inbox ≠ [] then
      let (bs, l) := l.take now limit
      setLink i l
      return some (.done bs)
    else
      setLink i l
      match l.ending with
      | .closed => return some (.done [])
      | .reset => return some (.failed .connectionReset)
      | .open =>
        match l.due? with
        | some due =>
          -- where both come at once, the waiting ends
          if deadline.any (· ≤ due) then
            waitUntil deadline
            return some .timedOut
          else
            waitUntil due
            return none
        | none =>
          waitUntil deadline
          return some .timedOut

/-- Waits for bytes, through at most `fuel` steps of the other side. -/
def awaitBytes (i limit : Nat) (deadline : Option Nat) : (fuel : Nat) → InWorld (Waited Bytes)
  | 0 => return (← takeOrWait i limit deadline).getD .timedOut
  | fuel + 1 => do
    match ← takeOrWait i limit deadline with
    | some result => return result
    | none => awaitBytes i limit deadline fuel

end World

open World

instance : Network InWorld where
  Connection := Nat
  connect _ := modifyGet fun w =>
    match w.reception.refusals with
    | some 0 =>
      let r := w.reception
      let l : Link :=
        { conduct := r.conduct w.links.length, capacity := r.capacity, steps := r.script, since := w.time }
      (.ok w.links.length, { w with links := w.links ++ [l] })
    | some (n + 1) =>
      (.error .connectionRefused, { w with reception := { w.reception with refusals := some n } })
    | none => (.error .connectionRefused, w)
  read i limit deadline := do
    match ← link? i with
    | none => return .failed .connectionReset
    | some l => awaitBytes i limit (deadline.map Int.toNat) l.steps.length
  write i bs deadline := do
    match ← link? i with
    | none => return .failed .connectionReset
    | some l =>
      if l.conduct = .deaf then
        let room := l.capacity - l.outbox.length
        setLink i { l with outbox := l.outbox ++ bs.take room }
        if bs.length ≤ room then return .done ()
        else
          waitUntil (some deadline.toNat)
          return .timedOut
      else
        setLink i { l with taken := l.taken ++ bs, partialRequest := l.partialRequest ++ bs }
        serve i (l.partialRequest.length + bs.length)
        return .done ()
  finish _ := return .ok ()

end BrokerExam.Rehearsal
