/-
BrokerExam/Exam/Material.lean

What a stage makes up, so that a broker cannot know its answers beforehand:
names and messages out of a list of words, identities, numbers.
-/
import BrokerExam.Environment
import BrokerExam.LogDirectory.Plan

namespace BrokerExam.Exam

/-- Topics are named for these, and messages greet them. -/
def words : List String :=
  ["apple", "banana", "blueberry", "cherry", "grape", "lemon", "mango", "orange", "pear",
    "pineapple", "raspberry", "strawberry", "bar", "baz", "foo", "pax", "paz", "qux", "quz", "saz"]

variable {m : Type → Type} [Monad m] [Chance m]

/-- A number from `low` to `high`, both included. -/
def numberBetween (low high : Nat) : m Nat := return low + (← Chance.below (high + 1 - low))

/-- A correlation id below the greatest one, so that the next one is never negative. -/
def correlationId : m Int32 := return Int32.ofNat (← Chance.below 2147483647)

def uuid : m Uuid := return Uuid.ofRandom (BitVec.ofNat 128 (← Chance.below (BigEndian.span 16)))

/-- So many of the given, none of them twice, as far as there are enough. -/
def pick {α : Type} : (count : Nat) → List α → m (List α)
  | 0, _ => return []
  | count + 1, as => do
    let i ← Chance.below as.length
    match as[i]? with
    | none => return []
    | some a => return a :: (← pick count (as.eraseIdx i))

def topicNames (count : Nat) : m (List String) := pick count words

def topicName : m String := return (← topicNames 1).headD ""

def messages (count : Nat) : m (List String) :=
  return (← pick count words).map fun word => s!"Hello {word}!"

/-- A topic of this name, with so many messages in each of the given partitions. -/
def topic (name : String) (partitions : List Int32) (messageCount : Nat) : m PlannedTopic := do
  let uuid ← uuid
  let partitions ← partitions.mapM fun id => return ⟨id, ← messages messageCount⟩
  return ⟨name, uuid, partitions⟩

/-- The ids of so many partitions. -/
def partitionIds (count : Nat) : List Int32 := (List.range count).map Int32.ofNat

/-- A few topics with a few partitions and messages each, to look around in. -/
def demoTopics : m (List PlannedTopic) := do
  (← topicNames 3).mapM fun name => do
    let partitionCount ← numberBetween 1 3
    topic name (partitionIds partitionCount) (← numberBetween 1 3)

end BrokerExam.Exam
