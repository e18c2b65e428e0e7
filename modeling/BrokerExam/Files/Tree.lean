/-
BrokerExam/Files/Tree.lean

A tree of files as a value: a list of locations with what is there.  Only the root
is a directory without being listed.

A path is followed step by step from the current directory or from the root.
Each step needs a directory to start from, so a path through a missing name or
through a file fails before its end is looked at.
-/
import BrokerExam.Bytes.BigEndian
import BrokerExam.Files.Path
import BrokerExam.SystemError

namespace BrokerExam.Files

/-- The names from the root down. -/
abbrev Location := List String

inductive Node
  | file (contents : Bytes)
  | directory
  deriving DecidableEq, Repr

structure Tree where
  nodes : List (Location × Node) := []
  /-- Where relative paths start. -/
  current : Location := []
  deriving DecidableEq, Repr

namespace Tree

/-- An empty directory, which is the current one. -/
def emptyDirectory : Tree :=
  { nodes := [(["tmp"], .directory), (["tmp", "work"], .directory)], current := ["tmp", "work"] }

def node? (t : Tree) (place : Location) : Option Node :=
  if place = [] then some .directory else t.nodes.lookup place

/-- The tree with a node put at a location, instead of the one there. -/
def put (t : Tree) (place : Location) (n : Node) : Tree :=
  if (t.nodes.lookup place).isSome then
    { t with nodes := t.nodes.map fun (l, old) => (l, if l = place then n else old) }
  else { t with nodes := t.nodes ++ [(place, n)] }

/-- The tree without a location and what is below it. -/
def cut (t : Tree) (place : Location) : Tree :=
  { t with nodes := t.nodes.filter fun (l, _) => !place.isPrefixOf l }

/-- What is directly below a location. -/
def entries (t : Tree) (place : Location) : List (String × Node) :=
  t.nodes.filterMap fun (l, n) =>
    match l.getLast? with
    | some name => if l.dropLast = place then some (name, n) else none
    | none => none

/-! ### Following paths -/

/-- The most bytes of a name. -/
def maxNameBytes : Nat := 255

/-- The most bytes of a path. -/
def maxPathBytes : Nat := 4095

/-- One step from a location. -/
def step (t : Tree) (place : Location) (name : String) : Except SystemError Location :=
  match t.node? place with
  | none => .error .notFound
  | some (.file _) => .error .notADirectory
  | some .directory =>
    if name = ".." then .ok place.dropLast
    else if name.utf8ByteSize > maxNameBytes then .error .nameTooLong
    else .ok (place ++ [name])

/-- Where the steps lead; the last one may lead to nothing. -/
def walk (t : Tree) (place : Location) : List String → Except SystemError Location
  | [] => .ok place
  | name :: names => do walk t (← t.step place name) names

/-- Where a path leads. -/
def locate (t : Tree) (path : String) : Except SystemError Location :=
  if path = "" then .error .notFound
  else if path.toList.contains '\x00' then .error .zeroInName
  else if path.utf8ByteSize > maxPathBytes then .error .nameTooLong
  else t.walk (if isAbsolute path then [] else t.current) (components path)

/-- What is at a path. -/
def find (t : Tree) (path : String) : Except SystemError (Location × Node) := do
  let place ← t.locate path
  match t.node? place with
  | none => throw .notFound
  | some .directory => return (place, .directory)
  | some (.file contents) =>
    if endsAsDirectory path then throw .notADirectory else return (place, .file contents)

def isDirectory (t : Tree) (path : String) : Bool :=
  match t.find path with
  | .ok (_, .directory) => true
  | _ => false

/-! ### Operations -/

def «exists» (t : Tree) (path : String) : Bool := (t.find path).isOk

def read (t : Tree) (path : String) : Except SystemError Bytes := do
  match ← t.find path with
  | (_, .file contents) => return contents
  | (_, .directory) => throw .isADirectory

/-- Writes a file, which may be there already. -/
def write (t : Tree) (path : String) (contents : Bytes) : Except SystemError Tree := do
  let place ← t.locate path
  match t.node? place with
  | some .directory => throw .isADirectory
  | some (.file _) => unlessDirectory place .notADirectory
  | none => unlessDirectory place .notFound
where
  unlessDirectory (place : Location) (missing : SystemError) : Except SystemError Tree :=
    if endsInSelf path then .error missing
    else if endsAsDirectory path then .error .isADirectory
    else .ok (t.put place (.file contents))

/-- Removes a directory with all that is below it.  A directory cannot be removed by the name that
it has for itself. -/
def removeDirectory (t : Tree) (path : String) : Except SystemError Tree := do
  match ← t.find path with
  | (_, .file _) => throw .notADirectory
  | (place, .directory) =>
    if endsInSelf path then throw (.other 22 "Invalid argument")
    else return t.cut place

/-- Removes a file, or a directory with all that is below it. -/
def remove (t : Tree) (path : String) : Except SystemError Tree := return t.cut (← t.find path).1

/-- The names and the nodes in a directory. -/
def list (t : Tree) (path : String) : Except SystemError (List (String × Node)) := do
  match ← t.find path with
  | (_, .file _) => throw .notADirectory
  | (place, .directory) => return t.entries place

/-- Makes the directory at the end of a walk, where there must be nothing. -/
def createDirectory (t : Tree) (start : Location) (names : List String) :
    Except SystemError Tree := do
  let place ← t.walk start names
  match t.node? place with
  | some _ => throw .alreadyExists
  | none => return t.put place .directory

/-- Makes the directory at the end of a walk, and those on the way that are missing; the names
are given last one first.  Directories made before a failure stay. -/
def createDirectories (start : Location) : List String → Tree → Tree × Except SystemError Unit
  | [], t => (t, .ok ())
  | name :: before, t =>
    let names := (name :: before).reverse
    let settle (t : Tree) : Tree × Except SystemError Unit :=
      match t.createDirectory start names with
      | .ok t' => (t', .ok ())
      | .error e =>
        -- a directory that is there already is as good as made
        match t.node? <$> t.walk start names with
        | .ok (some .directory) => (t, .ok ())
        | _ => (t, .error e)
    match t.createDirectory start names with
    | .error .notFound =>
      match createDirectories start before t with
      | (t', .ok ()) => settle t'
      | failed => failed
    | _ => settle t

/-- Makes a directory and those on the way to it that are missing.  The name that a directory has
for itself makes no directory. -/
def createPath (t : Tree) (path : String) : Tree × Except SystemError Unit :=
  let start := if isAbsolute path then [] else t.current
  if path.toList.contains '\x00' then (t, .error .zeroInName)
  else if path.utf8ByteSize > maxPathBytes then (t, .error .nameTooLong)
  else if endsInSelf path then
    match createDirectories start (components path).dropLast.reverse t with
    | (t', .ok ()) => (t', (t'.find path).map fun _ => ())
    | failed => failed
  else createDirectories start (components path).reverse t

/-- All that is below the current directory, with its path from there, in the order of the paths. -/
def below (t : Tree) : List (String × Node) :=
  let paths := t.nodes.filterMap fun (l, n) =>
    if t.current.isPrefixOf l ∧ l ≠ t.current then
      some ("/".intercalate (l.drop t.current.length), n)
    else none
  paths.mergeSort fun a b => a.1 ≤ b.1

end Tree
end BrokerExam.Files
