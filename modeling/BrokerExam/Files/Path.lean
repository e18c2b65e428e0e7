/-
BrokerExam/Files/Path.lean

Paths of files, as text.  A repeated separator and a `.` lead nowhere, except
that at the end of a path they say that a directory is meant.
-/
import BrokerExam.Text.Split

namespace BrokerExam.Files

/-- The parts of a path between its separators. -/
def pieces (path : String) : List String := (Text.split '/' path.toList).map String.ofList

def isAbsolute (path : String) : Bool := path.toList.head? = some '/'

/-- The path of `name` below `dir`; an absolute name stands for itself. -/
def join (dir name : String) : String :=
  if isAbsolute name || dir.isEmpty then name
  else if dir.toList.getLast? = some '/' then dir ++ name
  else dir ++ "/" ++ name

/-- What a walk along the path goes through. -/
def components (path : String) : List String :=
  (pieces path).filter fun c => c ≠ "" && c ≠ "."

/-- Whether the path ends in the name that a directory has for itself. -/
def endsInSelf (path : String) : Bool := (pieces path).getLast? = some "."

/-- Whether the path ends in a way that only a directory's does. -/
def endsAsDirectory (path : String) : Bool :=
  endsInSelf path || (pieces path).getLast? = some ""

/-- The pieces, the last one first, without those at the end that lead nowhere. -/
def trimmed : List String → List String
  | [] => []
  | [first] => [first]
  | last :: rest => if last = "" || last = "." then trimmed rest else last :: rest

/-- The path of what holds the last component, unless there is none. -/
def parent? (path : String) : Option String :=
  match trimmed (pieces path).reverse with
  | [] => none
  | [only] => if only = "" then none else some ""
  | _ :: rest =>
    match trimmed rest with
    | [""] => some "/"
    | kept => some ("/".intercalate kept.reverse)

end BrokerExam.Files
