/-
BrokerExam/Message/ApiKey.lean

The APIs that are known by name, and the error codes that are.
-/
namespace BrokerExam

inductive ApiKey
  | produce | fetch | apiVersions | createTopics | describeTopicPartitions
  deriving DecidableEq, Repr

namespace ApiKey

def all : List ApiKey := [produce, fetch, apiVersions, createTopics, describeTopicPartitions]

def code : ApiKey → Int16
  | produce => 0
  | fetch => 1
  | apiVersions => 18
  | createTopics => 19
  | describeTopicPartitions => 75

def ofCode? (code : Int16) : Option ApiKey := all.find? fun k => k.code = code

/-- The name in message roots and log lines. -/
def name : ApiKey → String
  | produce => "Produce"
  | fetch => "Fetch"
  | apiVersions => "ApiVersions"
  | createTopics => "CreateTopics"
  | describeTopicPartitions => "DescribeTopicPartitions"

/-- The name in capitals. -/
def constantName : ApiKey → String
  | produce => "PRODUCE"
  | fetch => "FETCH"
  | apiVersions => "API_VERSIONS"
  | createTopics => "CREATE_TOPICS"
  | describeTopicPartitions => "DESCRIBE_TOPIC_PARTITIONS"

end ApiKey

inductive ErrorCode
  | unknownServerError | none | offsetOutOfRange | corruptMessage | unknownTopicOrPartition
  | invalidFetchSize | leaderNotAvailable | notLeaderOrFollower | requestTimedOut
  | invalidTopicException | invalidRequiredAcks | unsupportedVersion | invalidRequest
  | unknownTopicId
  deriving DecidableEq, Repr

namespace ErrorCode

def all : List ErrorCode :=
  [unknownServerError, none, offsetOutOfRange, corruptMessage, unknownTopicOrPartition,
    invalidFetchSize, leaderNotAvailable, notLeaderOrFollower, requestTimedOut,
    invalidTopicException, invalidRequiredAcks, unsupportedVersion, invalidRequest, unknownTopicId]

def code : ErrorCode → Int16
  | unknownServerError => -1
  | none => 0
  | offsetOutOfRange => 1
  | corruptMessage => 2
  | unknownTopicOrPartition => 3
  | invalidFetchSize => 4
  | leaderNotAvailable => 5
  | notLeaderOrFollower => 6
  | requestTimedOut => 7
  | invalidTopicException => 17
  | invalidRequiredAcks => 21
  | unsupportedVersion => 35
  | invalidRequest => 42
  | unknownTopicId => 100

def ofCode? (code : Int16) : Option ErrorCode := all.find? fun e => e.code = code

def name : ErrorCode → String
  | unknownServerError => "UNKNOWN_SERVER_ERROR"
  | none => "NO_ERROR"
  | offsetOutOfRange => "OFFSET_OUT_OF_RANGE"
  | corruptMessage => "CORRUPT_MESSAGE"
  | unknownTopicOrPartition => "UNKNOWN_TOPIC_OR_PARTITION"
  | invalidFetchSize => "INVALID_FETCH_SIZE"
  | leaderNotAvailable => "LEADER_NOT_AVAILABLE"
  | notLeaderOrFollower => "NOT_LEADER_OR_FOLLOWER"
  | requestTimedOut => "REQUEST_TIMED_OUT"
  | invalidTopicException => "INVALID_TOPIC_EXCEPTION"
  | invalidRequiredAcks => "INVALID_REQUIRED_ACKS"
  | unsupportedVersion => "UNSUPPORTED_VERSION"
  | invalidRequest => "INVALID_REQUEST"
  | unknownTopicId => "UNKNOWN_TOPIC_ID"

/-- A code with its name, or alone if it has none here. -/
def describe (code : Int16) : String :=
  match ofCode? code with
  | some known => s!"{code} ({known.name})"
  | .none => toString code

end ErrorCode
end BrokerExam
