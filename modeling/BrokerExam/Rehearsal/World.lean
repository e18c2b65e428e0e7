/-
BrokerExam/Rehearsal/World.lean

A made-up world to run an exam in: files in a tree, a clock that stands still
while anything can go on, and connections to a broker that acts by a script or
by rules.  All that happens in it is determined by how it starts.
-/
import BrokerExam.Broker.Defect
import BrokerExam.Environment
import BrokerExam.Files.Tree

namespace BrokerExam.Rehearsal

/-! ### Connections -/

/-- What the other side of a connection does once. -/
inductive Act
  | write (bs : Bytes)
  /-- Ends its sending side. -/
  | close
  /-- Breaks the connection; what was written before can still be read. -/
  | reset
  deriving DecidableEq, Repr

/-- An act, and the milliseconds to wait for it after the act before. -/
structure Step where
  after : Nat
  act : Act
  deriving DecidableEq, Repr

/-- What the other side does when a request has come in. -/
inductive Conduct
  /-- It takes what is sent, at once, and does nothing about it. -/
  | listening
  /-- It takes nothing. -/
  | deaf
  /-- It answers every request with the same bytes, so many milliseconds later; with `echo`, the
  correlation id of the request stands in them at its place; with `close`, it closes the connection
  after the first answer. -/
  | canned (after : Nat) (reply : Bytes) (echo close : Bool)
  /-- It is a broker that serves the log directory at `root`, with a defect or none. -/
  | broker (root : String) (defect : Option Defect)
  deriving DecidableEq, Repr

inductive Ending
  | open
  | closed
  | reset
  deriving DecidableEq, Repr

structure Link where
  conduct : Conduct
  /-- How many bytes either direction holds. -/
  capacity : Nat
  /-- Bytes on the way to the exam. -/
  inbox : Bytes := []
  /-- Bytes on the way to the other side, which has not taken them. -/
  outbox : Bytes := []
  /-- All that the other side has taken. -/
  taken : Bytes := []
  /-- What has been taken of a request that is not complete. -/
  partialRequest : Bytes := []
  /-- What the other side is going to do. -/
  steps : List Step := []
  /-- When it began to wait for the first of the steps. -/
  since : Nat := 0
  ending : Ending := .open
  deriving Repr

/-! ### The world -/

/-- How connections to the broker come about. -/
structure Reception where
  /-- How many attempts are refused; all of them, if there is no number. -/
  refusals : Option Nat := some 0
  /-- What the other side does on each connection, by its number. -/
  conduct : Nat → Conduct := fun _ => .listening
  /-- What the other side does from the moment of a connection. -/
  script : List Step := []
  capacity : Nat := BigEndian.span 8

/-- What has been said, and where. -/
inductive Said
  | entry (e : Entry)
  | output (text : String)
  | complaint (text : String)
  deriving DecidableEq, Repr

/-- Numbers that look random: the `i`-th of them. -/
def scattered (i : Nat) : Nat :=
  (i + 1) * 6364136223846793005 % BigEndian.span 8 / 2147483648

structure World where
  files : Files.Tree := .emptyDirectory
  /-- Milliseconds since the start. -/
  time : Nat := 0
  /-- When what goes on is abandoned, if it still waits for something. -/
  abandonAt : Option Nat := none
  reception : Reception := {}
  links : List Link := []
  said : Array Said := #[]
  spans : List String := []
  /-- Up to which level entries are shown. -/
  limit : Level := .info
  /-- What chance has for each draw. -/
  chance : Nat → Nat := scattered
  /-- How many draws there were. -/
  draws : Nat := 0

/-- Nothing happened that was waited for. -/
inductive Blocked
  | mk
  deriving DecidableEq, Repr

/-- A computation in a made-up world. -/
abbrev InWorld := EStateM Blocked World

namespace World

/-- All entries, with their levels and texts. -/
def entries (w : World) : List Entry :=
  w.said.toList.filterMap fun
    | .entry e => some e
    | _ => none

/-- What went to the standard output. -/
def output (w : World) : String :=
  "".intercalate (w.said.toList.filterMap fun
    | .output text => some text
    | _ => none)

/-- The lines of a text; a line end at the end ends the last of them. -/
def linesOf (text : String) : List String :=
  let lines := text.splitOn "\n"
  if lines.getLast? = some "" then lines.dropLast else lines

/-- The lines that went to the standard error. -/
def errorLines (w : World) : List String :=
  w.said.toList.flatMap fun
    | .entry e => if e.level.shownAt w.limit then (e.line w.limit).splitOn "\n" else []
    | .complaint text => linesOf text
    | .output _ => []

/-- Applies a change of the files that can fail. -/
def change (f : Files.Tree → Except SystemError Files.Tree) : InWorld (Except SystemError Unit) :=
  modifyGet fun w =>
    match f w.files with
    | .ok files => (.ok (), { w with files })
    | .error e => (.error e, w)

/-- Lets time go on to `moment` at most, which is when a wait ends, or gives the world up if it is
given up before.  A wait that does not end, for something that does not come, is given up at
once. -/
def waitUntil (moment : Option Nat) : InWorld Unit := do
  let w ← get
  match moment, w.abandonAt with
  | none, none => throw .mk
  | some t, none => set { w with time := max w.time t }
  | none, some last =>
    set { w with time := max w.time last }
    throw .mk
  | some t, some last =>
    set { w with time := max w.time (min t last) }
    if last < t then throw .mk

end World

instance : Storage InWorld where
  pathExists path := return (← get).files.exists path
  removeDirectory path := World.change (·.removeDirectory path)
  createPath path := modifyGet fun w =>
    let (files, result) := w.files.createPath path
    (result, { w with files })
  removeFile path := World.change (·.remove path)
  writeFile path contents := World.change (·.write path contents)
  readFile path := return (← get).files.read path
  listDirectory path := do
    let nodes := (← get).files.list path
    return nodes.map fun ns => ns.map fun (name, node) => ⟨name, node == .directory⟩

instance : Journal InWorld where
  record e := modify fun w =>
    { w with said := w.said.push (.entry { e with spans := w.spans ++ e.spans }) }
  within span x := do
    let outer := (← get).spans
    modify ({ · with spans := outer ++ [span] })
    let a ← x
    modify ({ · with spans := outer })
    return a

instance : Clock InWorld where
  now := return (← get).time
  sleep n := do World.waitUntil (some ((← get).time + n))

instance : Chance InWorld where
  below n := modifyGet fun w => (w.chance w.draws % n, { w with draws := w.draws + 1 })

instance : Console InWorld where
  print text := modify fun w => { w with said := w.said.push (.output text) }
  complain text := modify fun w => { w with said := w.said.push (.complaint text) }
  showEntries limit := modify ({ · with limit })

end BrokerExam.Rehearsal
