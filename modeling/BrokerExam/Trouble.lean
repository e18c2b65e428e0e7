/-
BrokerExam/Trouble.lean

What keeps an exam from going on, other than a wrong answer: a cause, and what
was attempted when it arose, from the outermost attempt inwards.
-/
import BrokerExam.Journal
import BrokerExam.SystemError
import BrokerExam.Text.Quoted
import BrokerExam.Wire.Error
import BrokerExam.Message.ApiKey

namespace BrokerExam

/-- An argument that cannot be meant. -/
inductive InvalidArgument
  | emptyTopicName
  | duplicateTopic (name : String)
  /-- A partition id that is negative or was given to the topic before. -/
  | badPartition (id : Int32) (topic : String)
  | unknownLevel (name : String)
  deriving DecidableEq, Repr

namespace InvalidArgument

def message (e : InvalidArgument) : String :=
  "Invalid argument: " ++ match e with
  | emptyTopicName => "topic name must not be empty"
  | duplicateTopic name => s!"duplicate topic {name}"
  | badPartition id topic => s!"invalid or duplicate partition {id} for topic {topic}"
  | unknownLevel name => s!"unknown log level: {name}"

end InvalidArgument

/-- The level that a name stands for. -/
def Level.parse (name : String) : Except InvalidArgument Level :=
  match ofName? name with
  | some level => .ok level
  | none => .error (.unknownLevel name)

/-- What was being done, with the path of the file or the address that it was done to. -/
inductive Attempt
  | removeLogDirectory (path : String)
  | createLogDirectory (path : String)
  | createDirectory (path : String)
  | writeServerProperties (path : String)
  | writeMetaProperties (path : String)
  | writeCleanShutdown (path : String)
  | createPartitionDirectory (path : String)
  | writePartitionMetadata (path : String)
  | writeLog (path : String)
  | createMetadataDirectory (path : String)
  | writeMetadataLog (path : String)
  | writeMetadataTopicId (path : String)
  | readLog (path : String)
  | decodeLog (path : String)
  | decodeMetadataRecord (offset : Int64)
  | listLogDirectory (path : String)
  | generateLogDirectory (path : String)
  | connect (address : String) (retries : Nat)
  | writeRequest
  | readSize
  | readResponse
  | closeConnection
  deriving DecidableEq, Repr

namespace Attempt

def message : Attempt → String
  | removeLogDirectory path => s!"Failed to remove log directory: {Quoted.quote path}"
  | createLogDirectory path => s!"Failed to create log directory: {Quoted.quote path}"
  | createDirectory path => s!"Failed to create directory: {Quoted.quote path}"
  | writeServerProperties path => s!"Failed to write server properties: {Quoted.quote path}"
  | writeMetaProperties path => s!"Failed to write meta properties: {Quoted.quote path}"
  | writeCleanShutdown path => s!"Failed to write clean shutdown file: {Quoted.quote path}"
  | createPartitionDirectory path => s!"Failed to create partition directory: {Quoted.quote path}"
  | writePartitionMetadata path => s!"Failed to write partition metadata: {Quoted.quote path}"
  | writeLog path => s!"Failed to write log file: {Quoted.quote path}"
  | createMetadataDirectory path =>
    s!"Failed to create cluster metadata directory: {Quoted.quote path}"
  | writeMetadataLog path => s!"Failed to write cluster metadata log: {Quoted.quote path}"
  | writeMetadataTopicId path =>
    s!"Failed to write cluster metadata partition metadata: {Quoted.quote path}"
  | readLog path => s!"Failed to read log file: {Quoted.quote path}"
  | decodeLog path => s!"Failed to decode record batches in {Quoted.quote path}"
  | decodeMetadataRecord offset => s!"Failed to decode cluster metadata record at offset {offset}"
  | listLogDirectory path => s!"Failed to list log directory: {Quoted.quote path}"
  | generateLogDirectory path => s!"Failed to generate log directory at {Quoted.quote path}"
  | connect address retries => s!"Failed to connect to broker at {address} after {retries} retries"
  | writeRequest => "Failed to write request"
  | readSize => "Failed to read message size"
  | readResponse => "Failed to read response"
  | closeConnection => "Failed to close connection"

end Attempt

inductive Cause
  | system (e : SystemError)
  | argument (e : InvalidArgument)
  | codec (e : CodecError)
  | decode (e : DecodeError)
  /-- The broker did not take a request in time. -/
  | writeTimedOut
  | negativeSize (size : Int32)
  /-- An API that the broker does not serve. -/
  | unservedApi (key : Int16)
  /-- A correlation id that is not the one sent. -/
  | wrongCorrelationId (expected actual : Int32)
  /-- No response could be read, for a reason that is kept as its text alone. -/
  | noResponse (api : ApiKey) (reason : String)
  /-- A stage that there is not. -/
  | unknownStage (slug : String)
  deriving DecidableEq, Repr

namespace Cause

def message : Cause → String
  | system e => e.message
  | argument e => e.message
  | codec e => e.message
  | decode e => e.message
  | writeTimedOut => "write operation timed out"
  | negativeSize size => s!"Expected message size to be non-negative, got {size}"
  | unservedApi key => s!"unsupported api key {key}"
  | wrongCorrelationId expected actual =>
    s!"Expected CorrelationID to be {expected}, got {actual}"
  | noResponse api reason => s!"Failed to receive {api.name} response: {reason}"
  | unknownStage slug => s!"Unknown stage: {slug}"

/-- The text, and that of what is behind it.  An error that came with its place says what it is,
and then what caused it, which is the same. -/
def chain : Cause → List String
  | decode e => [e.message, e.message]
  | c => [c.message]

/-- The name of the kind of cause. -/
def kind : Cause → String
  | system _ => "IO"
  | argument _ => "INVALID_ARGUMENT"
  | codec e => e.kind
  | decode e => e.cause.kind
  | writeTimedOut | negativeSize _ | unservedApi _ | wrongCorrelationId .. | noResponse ..
  | unknownStage _ => "OTHER"

end Cause

structure Trouble where
  attempts : List Attempt := []
  cause : Cause
  deriving DecidableEq, Repr

namespace Trouble

/-- The attempts and the cause, a text each. -/
def chain (t : Trouble) : List String := t.attempts.map Attempt.message ++ t.cause.chain

def message (t : Trouble) : String := ": ".intercalate t.chain

/-- The trouble as met in a wider attempt. -/
def during (t : Trouble) (what : Attempt) : Trouble := { t with attempts := what :: t.attempts }

end Trouble
end BrokerExam
