/-
BrokerExam/CommandLine/Help.lean

Usage lines and help texts.  An option or a command and what it does stand on
one line, in two columns, unless the second column would not fit.
-/
import BrokerExam.CommandLine.Scope

namespace BrokerExam.CommandLine

/-- An option as it is spelt with its value. -/
def Opt.spelling (o : Opt) : String := s!"--{o.long} <{o.placeholder}>"

/-- An option or a flag that was given. -/
inductive Mention
  | option (o : Opt)
  | flag (f : Flag)
  deriving DecidableEq, Repr

def Mention.spelling : Mention → String
  | option o => o.spelling
  | flag f => s!"--{f.long}"

/-- What was given, in the order given. -/
def asGiven (given : List Mention) : List String := given.map Mention.spelling

namespace Scope

variable (sc : Scope)

/-! ### Usage -/

/-- What was given, but instead of an option that belongs to a group, at the end, all of the
group. -/
def asGrouped (given : List Mention) : List String :=
  let isIn (members : List String) : Mention → Bool
    | .option o => members.contains o.long
    | .flag _ => false
  let groups := sc.groups.filter fun members => given.any (isIn members)
  let single := given.filter fun x => !groups.any (isIn · x)
  let group (members : List String) : String :=
    "<" ++ "|".intercalate ((members.filterMap sc.option?).map Opt.spelling) ++ ">"
  single.map Mention.spelling ++ groups.map group

/-- How to call the program here; where something was given, with that. -/
def usage (given : List String) : String :=
  let arguments :=
    if given = [] then
      (if sc.options.isEmpty && sc.flags.isEmpty then [] else ["[OPTIONS]"])
        ++ (sc.words.map (·.1)).toList
    else given
  let command := if sc.commands.isEmpty then [] else ["<COMMAND>"]
  "Usage: " ++ " ".intercalate (sc.title :: arguments ++ command)

/-! ### Help -/

/-- The width of a line. -/
def lineWidth : Nat := 100

/-- A line of a help text: what can be given, and what it does. -/
structure Row where
  short : Option Char := none
  long : String
  about : String
  /-- What to sort by, where the order is not that of the ranks. -/
  rank : Nat := 0
  deriving DecidableEq, Repr

/-- The options in the order of their ranks, and then the flags. -/
def optionRows : List Row :=
  let key (r : Row) : List Char := (r.short.map ([·])).getD (r.long.toList.drop 2)
  let shown (o : Opt) : String :=
    match o.default with
    | some value => s!"{o.about} [default: {value}]"
    | none => o.about
  let options := sc.options.map fun (rank, o) =>
    ({ short := o.short, long := o.spelling, about := shown o, rank } : Row)
  let flags := sc.flags.map fun f =>
    ({ short := some f.short, long := s!"--{f.long}", about := f.about } : Row)
  options.mergeSort (fun a b => a.rank < b.rank || a.rank = b.rank && !(key b).lex (key a) (·.toNat < ·.toNat)) ++ flags

def spaces (n : Nat) : String := String.ofList (List.replicate n ' ')

/-- Pads a text to a width. -/
def padded (width : Nat) (text : String) : String := text ++ spaces (width - text.length)

def widest (texts : List String) : Nat := (texts.map String.length).foldl max 0

/-- Two columns, the first as wide as its widest text. -/
def columns (rows : List (String × String)) : List String :=
  let width := widest (rows.map (·.1))
  rows.map fun (left, right) => s!"  {padded width left}  {right}"

/-- The options and the flags.  The second column fits if it is on at least three fifths of the
line, or else if all of its texts are short enough. -/
def optionLines : List String :=
  let rows := sc.optionRows
  let left (r : Row) : String :=
    match r.short with
    | some c => s!"-{c}, {r.long}"
    | none => s!"    {r.long}"
  let taken := widest (rows.map (·.long)) + 12
  let fits := taken * 5 ≤ lineWidth * 2 || rows.all fun r => r.about.length ≤ lineWidth - taken
  if fits then columns (rows.map fun r => (left r, r.about))
  else rows.flatMap fun r => [s!"  {left r}", spaces 10 ++ r.about]

/-- Sections below their headings, those with nothing in them left out. -/
def section? (heading : String) (lines : List String) : List String :=
  if lines = [] then [] else "\n".intercalate (heading :: lines) |> ([·])

/-- What the program does here, and how to call it. -/
def help : String :=
  "\n\n".intercalate
    ([sc.about, sc.usage []]
      ++ section? "Commands:" (columns sc.commands)
      ++ section? "Arguments:" (columns sc.words.toList)
      ++ section? "Options:" sc.optionLines)
  ++ "\n"

end Scope
end BrokerExam.CommandLine
