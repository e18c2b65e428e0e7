/-
BrokerExam/CommandLine/Arguments.lean

Reading a command line from left to right.  An option waits for its value, which
is the next argument unless that looks like an option itself; a value is looked
at when the next option comes or the arguments end.
-/
import BrokerExam.CommandLine.Refusal
import BrokerExam.Text.Similarity

namespace BrokerExam.CommandLine

/-- What has been read in a scope. -/
structure Taken where
  /-- The values of options, by their long names, in order. -/
  values : List (String × String) := []
  given : List Mention := []
  /-- An option whose value is awaited, or has not been looked at. -/
  pending : Option (Opt × Option String) := none
  deriving DecidableEq, Repr

/-- Why reading ends before the end of the arguments. -/
inductive Interruption
  /-- Help was asked for. -/
  | help (sc : Scope)
  | version
  /-- Nothing was given. -/
  | nothing (sc : Scope)
  | refused (r : Refusal)
  deriving DecidableEq, Repr

namespace Taken

/-- The next argument is a value if it does not look like an option. -/
def awaits (t : Taken) : Bool := t.pending.any (·.2.isNone)

def mention (t : Taken) (x : Mention) : Taken :=
  if x ∈ t.given then t else { t with given := t.given ++ [x] }

/-- What is wrong with a value. -/
def complaint? (o : Opt) (value : String) : Option Complaint :=
  match o.form with
  | .text => none
  | .path => if value = "" then some (.missingValue o) else none
  | .level =>
    match Level.parse value with
    | .ok _ => none
    | .error reason => some (.unacceptable o value reason)

/-- Takes a value. -/
def take (t : Taken) (o : Opt) (value : String) : Taken × Option Complaint :=
  if !o.repeatable && t.given.contains (.option o) then
    ({ t with given := t.given.erase (.option o) }, some (.givenAgain o))
  else
    let t := t.mention (.option o)
    match complaint? o value with
    | some complaint => (t, some complaint)
    | none => ({ t with values := t.values ++ [(o.long, value)] }, none)

/-- Looks at the value that has not been looked at. -/
def settle (t : Taken) : Taken × Option Complaint :=
  let settled := { t with pending := none }
  match t.pending with
  | none => (settled, none)
  | some (o, none) => (settled, some (.missingValue o))
  | some (o, some value) => settled.take o value

/-- Fails with a complaint, if there is one. -/
def orRefuse (sc : Scope) : Taken × Option Complaint → Except Interruption Taken
  | (t, none) => .ok t
  | (_, some complaint) => .error (.refused { scope := sc, complaint })

/-- Goes on to an option, which may have its value with it. -/
def offer (t : Taken) (sc : Scope) (o : Opt) (value : Option String) :
    Except Interruption Taken := do
  let t ← orRefuse sc t.settle
  match value with
  | some value => orRefuse sc (t.take o value)
  | none => return { t with pending := some (o, none) }

/-- What a flag leads to. -/
def heed (t : Taken) (sc : Scope) (f : Flag) : Except Interruption Taken := do
  let _ ← orRefuse sc t.settle
  throw (match f with
    | .help => .help sc
    | .version => .version)

/-- The options and flags of the commands that follow which may be meant, in the order of these
commands among the arguments. -/
def elsewhere (sc : Scope) (long : String) (rest : List String) : List (Nat × Tip) :=
  sc.commandNames.filterMap fun command => do
    let inner ← sc.enter? command
    let candidate ← (Similarity.suggestions long inner.longNames).getLast?
    let place ← rest.idxOf? command
    return (place, .optionOf command candidate)

/-- Refuses a long name that there is not. -/
def refuseLong (t : Taken) (sc : Scope) (long : String) (rest : List String) : Interruption :=
  let t := t.settle.1
  let refuse (t : Taken) (tip : Option Tip) : Interruption :=
    .refused { scope := sc, complaint := .unknownArgument s!"--{long}" tip, given := t.given }
  match (Similarity.suggestions long sc.longNames).getLast? with
  | some candidate =>
    let t := match sc.option? candidate, sc.flag? candidate with
      | some o, _ => t.mention (.option o)
      | none, some f => t.mention (.flag f)
      | none, none => t
    refuse t (some (.option candidate))
  | none =>
    let found := (elsewhere sc long rest).mergeSort fun a b => a.1 ≤ b.1
    refuse t (found.head?.map (·.2))

/-- Reads an argument that begins with two dashes. -/
def readLong (t : Taken) (sc : Scope) (argument : List Char) (rest : List String) :
    Except Interruption Taken :=
  let long := String.ofList (argument.takeWhile (· ≠ '='))
  let value := (argument.dropWhile (· ≠ '=')).tail? |>.map String.ofList
  match sc.option? long, sc.flag? long with
  | some o, _ => t.offer sc o value
  | none, some f =>
    match value with
    | none => t.heed sc f
    | some value =>
      .error (.refused
        { scope := sc, complaint := .needlessValue f value, given := (t.mention (.flag f)).given })
  | none, none => .error (t.refuseLong sc long rest)

/-- Reads an argument that begins with one dash.  What is behind the letter of an option is its
value; an equals sign before that does not count. -/
def readShort (t : Taken) (sc : Scope) : List Char → Except Interruption Taken
  | [] => .ok t
  | c :: cs =>
    match sc.optionOfShort? c, sc.flagOfShort? c with
    | some o, _ =>
      let value := match cs with
        | [] => none
        | '=' :: cs => some (String.ofList cs)
        | cs => some (String.ofList cs)
      t.offer sc o value
    | none, some f => t.heed sc f
    | none, none =>
      .error (.refused { scope := sc, complaint := .unknownArgument s!"-{c}" none })

end Taken

/-- Refuses a word for which there is no place, which may follow the mark for words. -/
def refuseWord (sc : Scope) (word : String) (marked : Bool) : Interruption :=
  let complaint : Complaint :=
    if marked && sc.commandNames.contains word then .unknownArgument word (some (.unmark word))
    else if sc.commands.isEmpty then .unknownArgument word none
    else
      match Similarity.suggestions word sc.commandNames with
      | [] => .unknownCommand word none
      | names => .unknownCommand word (some (.commands names))
  .refused { scope := sc, complaint }

/-- Help on the command that words lead to. -/
def helpOn (sc : Scope) : List String → Interruption
  | [] => .help sc
  | word :: words =>
    match sc.enter? word with
    | some inner => helpOn inner words
    | none => .refused { scope := sc, complaint := .unknownCommand word none }

/-- Reads the arguments of a scope, as far as the command that opens another one. -/
def readScope (sc : Scope) (t : Taken) :
    List String → Except Interruption (Taken × Option (String × List String))
  | [] => .ok (t, none)
  | argument :: rest =>
    if !t.awaits && sc.commandNames.contains argument then
      if argument = "help" then .error (helpOn sc rest) else .ok (t, some (argument, rest))
    else
      match argument.toList with
      -- two dashes alone mark all that follows as words, for which there is no place
      | ['-', '-'] =>
        match rest with
        | [] => .ok (t, none)
        | word :: _ => .error (refuseWord sc word true)
      | '-' :: '-' :: cs => do readScope sc (← t.readLong sc cs rest) rest
      | '-' :: c :: cs => do readScope sc (← t.readShort sc (c :: cs)) rest
      | _ =>
        match t.pending with
        | some (o, none) => readScope sc { t with pending := some (o, some argument) } rest
        | _ => .error (refuseWord sc argument false)

/-! ### What is asked for -/

inductive Errand
  | generate (plan : LogDirectoryPlan)
  | run (broker : String) (stages : List String) (plan : LogDirectoryPlan)
  | list
  deriving DecidableEq, Repr

structure Invocation where
  level : Level
  errand : Errand
  deriving DecidableEq, Repr

/-- The value of an option, or what it is by default. -/
def Taken.value (t : Taken) (o : Opt) : String :=
  (t.values.lookup o.long).getD (o.default.getD "")

/-- The values of an option. -/
def Taken.valuesOf (t : Taken) (o : Opt) : List String :=
  t.values.filterMap fun (long, value) => if long = o.long then some value else none

def Taken.plan (t : Taken) : LogDirectoryPlan :=
  { root := t.value root, serverPropertiesPath := t.value serverProperties }

def errandOf (command : String) (t : Taken) : Errand :=
  match command with
  | "generate" => .generate t.plan
  | "run" => .run (t.value broker) (t.valuesOf stages) t.plan
  | _ => .list

/-- Reads a command line.  The level that is given last counts. -/
def read (arguments : List String) : Except Interruption Invocation := do
  let (t, command) ← readScope outermost {} arguments
  match command.bind fun (name, rest) => (outermost.enter? name).map (name, ·, rest) with
  | some (name, sc, rest) =>
    let (inner, _) ← readScope sc {} rest
    let inner ← Taken.orRefuse sc inner.settle
    let t ← Taken.orRefuse outermost t.settle
    let level := ((t.values ++ inner.values).filter (·.1 = logLevel.long)).getLast?.bind fun x =>
      Level.ofName? x.2
    return ⟨level.getD .info, errandOf name inner⟩
  | none =>
    let t ← Taken.orRefuse outermost t.settle
    if t.given = [] then throw (.nothing outermost)
    else throw (.refused { scope := outermost, complaint := .missingCommand })

end BrokerExam.CommandLine
