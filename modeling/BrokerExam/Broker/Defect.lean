/-
BrokerExam/Broker/Defect.lean

Ways in which a broker can be wrong.  Each changes one thing.
-/
namespace BrokerExam

inductive Defect
  /-- Answers with the next correlation id. -/
  | wrongCorrelationId
  /-- Counts the message size in itself. -/
  | sizeIncludesPrefix
  /-- Leaves out the last byte of a payload. -/
  | truncate
  /-- Adds a byte to a payload. -/
  | trailing
  /-- Sends the first half of a payload and no more. -/
  | halfThenSilence
  /-- Does what is asked and closes the connection. -/
  | noReply
  /-- Closes the connection without doing what is asked. -/
  | hangUp
  /-- Takes its time. -/
  | slow
  /-- Serves every version of `ApiVersions`. -/
  | anyVersion
  /-- Lacks the latest version of every API. -/
  | oldVersions
  /-- Lacks the first versions of every API. -/
  | newVersions
  /-- Knows one API, and one that there is not. -/
  | fewKeys
  /-- An error code in the body. -/
  | bodyError
  | throttle
  | dropTopics
  | dupTopics
  | reverseTopics
  | topicError
  | wrongName
  | wrongUuid
  | cursor
  | dropPartitions
  | reversePartitions
  | wrongIndex
  | partitionError
  | dropBatches
  | dupBatches
  | bumpOffset
  | session
  | appendTime
  | logStart
  /-- Writes a byte too many to a log. -/
  | extraWrite
  /-- Changes a byte of a log. -/
  | corruptWrite
  /-- Empties a log. -/
  | noWrite
  /-- Deletes a log. -/
  | removeLog
  deriving DecidableEq, Repr

end BrokerExam
