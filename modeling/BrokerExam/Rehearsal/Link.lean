/-
BrokerExam/Rehearsal/Link.lean

What goes on at a single connection as time goes by.  The other side takes its
steps one after the other, each so long after the one before; a write for which
there is no room goes on when there is room again.
-/
import BrokerExam.Rehearsal.World

namespace BrokerExam.Rehearsal.Link

/-- When the next step is due. -/
def due? (l : Link) : Option Nat := l.steps.head?.map fun s => l.since + s.after

/-- Takes the given steps, as far as they are due and there is room. -/
def advance (now : Nat) : List Step → Link → Link
  | [], l => { l with steps := [] }
  | s :: rest, l =>
    let due := l.since + s.after
    if now < due then { l with steps := s :: rest }
    else
      let l := { l with since := due }
      match s.act with
      | .write bs =>
        let room := l.capacity - l.inbox.length
        -- what is written after the end is lost
        if l.ending ≠ .open then advance now rest l
        else if bs.length ≤ room then advance now rest { l with inbox := l.inbox ++ bs }
        else
          { l with
            inbox := l.inbox ++ bs.take room
            steps := ⟨0, .write (bs.drop room)⟩ :: rest }
      | .close => advance now rest (if l.ending = .reset then l else { l with ending := .closed })
      | .reset => advance now rest { l with ending := .reset }

/-- The connection as it is by now. -/
def settled (now : Nat) (l : Link) : Link := advance now l.steps l

/-- Some of what has come in.  A write that waited for the room goes on from now. -/
def take (now limit : Nat) (l : Link) : Bytes × Link :=
  let stalled := l.due?.any (· ≤ now)
  (l.inbox.take limit,
    { l with inbox := l.inbox.drop limit, since := if stalled then now else l.since })

/-- Plans steps for the other side, to be taken after those that are planned. -/
def plan (now : Nat) (steps : List Step) (l : Link) : Link :=
  { l with since := if l.steps = [] then now else l.since, steps := l.steps ++ steps }

/-- The first request in a row of bytes, without its size, and what is behind it. -/
def nextRequest (bs : Bytes) : Option (Bytes × Bytes) :=
  let size := BigEndian.decode (bs.take 4)
  if bs.length < 4 + size then none else some ((bs.drop 4).take size, bs.drop (4 + size))

/-! ### What requests lead to -/

/-- How a broker sends the payload of a reply, or closes the connection where there is none. -/
def replySteps (defect : Option Defect) (reply : Option Bytes) : List Step :=
  match reply with
  | none => [⟨0, .close⟩]
  | some payload =>
    let payload := match defect with
      | some .truncate => payload.dropLast
      | some .trailing => payload ++ [0]
      | _ => payload
    let size := match defect with
      | some .sizeIncludesPrefix => payload.length + 4
      | _ => payload.length
    let sent := match defect with
      | some .halfThenSilence => payload.take (payload.length / 2)
      | _ => payload
    match defect with
    | some .noReply => [⟨0, .close⟩]
    | some .slow => [⟨90, .write (BigEndian.encode 4 size ++ sent)⟩]
    | _ => [⟨0, .write (BigEndian.encode 4 size ++ sent)⟩]

/-- The bytes with the correlation id of a request at the place of their own. -/
def echoed (reply request : Bytes) : Bytes :=
  if reply.length < 8 then reply
  else reply.take 4 ++ (request.drop 4).take 4 ++ reply.drop 8

end BrokerExam.Rehearsal.Link
