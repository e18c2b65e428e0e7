/-
BrokerExam/Exam/Handshake.lean

Stages about connections and `ApiVersions`, the request with which a client
begins.  The first of them look at the correlation id alone, which takes no more
than the first eight bytes of an answer to be right.
-/
import BrokerExam.Exam.Setting
import BrokerExam.Message.Draft
import BrokerExam.Verdict.ApiVersions

namespace BrokerExam.Exam

variable {m : Type → Type} [Monad m] [Journal m] [Clock m] [Network m]

/-- The broker accepts a connection. -/
def bind (s : Setting) : Tried m Unit := do
  info s!"Connecting to broker at {s.address}"
  let c ← s.connect
  info s!"Connection to broker at {s.address} successful"
  c.close

/-! ### The correlation id alone -/

/-- What the bytes of an answer begin with. -/
def readCorrelationId : FieldRead Int32 :=
  FieldRead.scope "ApiVersionsResponse" do
    let _ ← FieldRead.field "MessageLength" Kind.int32
    FieldRead.scope "Header" (FieldRead.field "CorrelationID" Kind.int32)

/-- Judges the correlation id in the bytes of an answer. -/
def judgeCorrelationId (bytes : Bytes) (expected : Int32) : Tried m Unit :=
  Journal.within "Decoder" do
    match readCorrelationId (ReadState.start bytes ()) with
    | .error e s =>
      let tree := Tree.linesForDecodeError s.fields.toList e.path
      Verdict.showFailure tree bytes e.start e.stop
      fail (.decode e)
    | .ok actual s =>
      let fields := s.fields.toList
      if actual = expected then
        Verdict.tell .debug (← faultless (Tree.lines fields))
        info s!"✓ CorrelationID: {actual}"
      else
        for field in fields.getLast? do
          Verdict.showFailure (Tree.linesForFailedField fields field.path) bytes field.start
            field.stop
        fail (.wrongCorrelationId expected actual)

/-- An answer begins with the correlation id of its request. -/
def checkCorrelationId (s : Setting) (id : Int32) : Tried m Unit := do
  let c ← s.connect
  c.sendRequest (ApiVersionsRequestBody.draft.withCorrelationId id)
  judgeCorrelationId (← c.receiveRaw).raw id
  c.close

/-! ### Versions -/

/-- A version that no broker serves. -/
def unservedVersion : Int16 := 1234

/-- The broker refuses a version that it does not serve. -/
def refuseVersion (s : Setting) (id : Int32) : Tried m Unit :=
  askOnce s ((ApiVersionsRequestBody.draft.withCorrelationId id).withApiVersion unservedVersion)
    ({ correlationId := id, errorCode := ErrorCode.unsupportedVersion.code } :
      ApiVersionsExpectation)

/-- The broker serves the APIs in these versions. -/
def serveVersions (s : Setting) (id : Int32) (apiKeys : List ApiKeyVersions) : Tried m Unit :=
  askOnce s (ApiVersionsRequestBody.draft.withCorrelationId id)
    ({ correlationId := id, apiKeys } : ApiVersionsExpectation)

/-- What the stages about connections ask for. -/
def ownVersions : List ApiKeyVersions := [⟨ApiKey.apiVersions.code, 0, 4⟩]

/-! ### More than one request -/

/-- What is expected of the answer to one of several requests. -/
def ownAnswer (id : Int32) : ApiVersionsExpectation :=
  { correlationId := id, apiKeys := ownVersions }

/-- Requests with these correlation ids on one connection, each answered before the next. -/
def serially (s : Setting) (ids : List Int32) : Tried m Unit := do
  let c ← s.connect
  ids.zipIdx.forM fun (id, i) => do
    ask c (ApiVersionsRequestBody.draft.withCorrelationId id) (ownAnswer id)
    info s!"✓ Request {i + 1} of {ids.length} answered"
  c.close

/-- A client among several, with its number and the correlation id of its request. -/
structure Participant (m : Type → Type) [Network m] where
  number : Nat
  id : Int32
  client : Client m

/-- Requests with these correlation ids, each on a connection of its own.  All of them are sent
before the first answer is read; the answers are read in the other order. -/
def concurrently (s : Setting) (ids : List Int32) : Tried m Unit := do
  let participants ← ids.zipIdx.mapM fun (id, i) =>
    return ({ number := i + 1, id, client := ← s.connect } : Participant m)
  participants.forM fun p => do
    info s!"client-{p.number}: sending request"
    p.client.sendRequest (ApiVersionsRequestBody.draft.withCorrelationId p.id)
  participants.reverse.forM fun p => do
    let answer ← p.client.receiveResponse .apiVersions
    info s!"client-{p.number}: received response"
    judge (ownAnswer p.id) answer
  participants.forM fun p => p.client.close

end BrokerExam.Exam
