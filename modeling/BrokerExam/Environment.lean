/-
BrokerExam/Environment.lean

What an exam needs of the world around it, an operation at a time: files, the
time, connections, chance.  The exam is written over these classes, so that it
runs as well in a made-up world, where it can be reasoned about, as in the real
one.
-/
import BrokerExam.Journal
import BrokerExam.SystemError
import BrokerExam.Bytes.BigEndian

namespace BrokerExam

/-- The names in a directory. -/
structure DirectoryEntry where
  name : String
  isDirectory : Bool
  deriving DecidableEq, Repr

class Storage (m : Type → Type) where
  pathExists : String → m Bool
  /-- Removes a directory with all that is below it. -/
  removeDirectory : String → m (Except SystemError Unit)
  /-- Makes a directory and those on the way to it. -/
  createPath : String → m (Except SystemError Unit)
  removeFile : String → m (Except SystemError Unit)
  writeFile : String → Bytes → m (Except SystemError Unit)
  readFile : String → m (Except SystemError Bytes)
  /-- What is in a directory, in any order. -/
  listDirectory : String → m (Except SystemError (List DirectoryEntry))

class Clock (m : Type → Type) where
  /-- Milliseconds since the epoch, which may be in the future. -/
  now : m Int
  /-- Waits for so many milliseconds. -/
  sleep : Nat → m Unit

/-- How waiting for a connection ended. -/
inductive Waited (α : Type)
  | done (a : α)
  | timedOut
  | failed (e : SystemError)
  deriving Repr

class Network (m : Type → Type) where
  /-- What stands for an open connection. -/
  Connection : Type
  connect : (address : String) → m (Except SystemError Connection)
  /-- Between one byte and `limit` bytes, as soon as there are any, or none at the end of the
  stream; waits until `deadline` at most. -/
  read : Connection → (limit : Nat) → (deadline : Option Int) → m (Waited Bytes)
  /-- Writes all the bytes; waits until `deadline` at most. -/
  write : Connection → Bytes → (deadline : Int) → m (Waited Unit)
  /-- Ends the sending side. -/
  finish : Connection → m (Except SystemError Unit)

class Chance (m : Type → Type) where
  /-- A number below a positive bound. -/
  below : Nat → m Nat

/-- The standard output and the standard error of a program. -/
class Console (m : Type → Type) where
  print : String → m Unit
  complain : String → m Unit
  /-- From now on, entries up to a level are shown among the complaints. -/
  showEntries : Level → m Unit

/-! ### Under failure -/

section Lifting

variable {m : Type → Type} {ε : Type} [Monad m]

instance [Storage m] : Storage (ExceptT ε m) where
  pathExists p := ExceptT.lift (Storage.pathExists p)
  removeDirectory p := ExceptT.lift (Storage.removeDirectory p)
  createPath p := ExceptT.lift (Storage.createPath p)
  removeFile p := ExceptT.lift (Storage.removeFile p)
  writeFile p bs := ExceptT.lift (Storage.writeFile p bs)
  readFile p := ExceptT.lift (Storage.readFile p)
  listDirectory p := ExceptT.lift (Storage.listDirectory p)

instance [Clock m] : Clock (ExceptT ε m) where
  now := ExceptT.lift Clock.now
  sleep n := ExceptT.lift (Clock.sleep n)

instance [Chance m] : Chance (ExceptT ε m) where
  below n := ExceptT.lift (Chance.below n)

end Lifting
end BrokerExam
