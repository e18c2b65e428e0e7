/-
BrokerExam/Verdict/ApiVersions.lean

What is expected of an answer to `ApiVersions`: an error code, and, unless that
is an error, version ranges that cover the given ones.
-/
import BrokerExam.Message.ApiVersions
import BrokerExam.Verdict.Judge

namespace BrokerExam

structure ApiVersionsExpectation where
  correlationId : Int32
  errorCode : Int16 := 0
  /-- Ranges of versions that must be served. -/
  apiKeys : List ApiKeyVersions := []
  deriving DecidableEq, Repr

namespace ApiVersionsExpectation

open Check

def rules (e : ApiVersionsExpectation) : List Rule :=
  [⟨.exactly "ApiVersionsResponse.Header.CorrelationID", .int32 e.correlationId⟩,
    ⟨.exactly "ApiVersionsResponse.Body.ErrorCode", .int16 e.errorCode⟩,
    ⟨.exactly "ApiVersionsResponse.Body.ThrottleTimeMs", .anything⟩,
    ⟨.exactly "ApiVersionsResponse.Body.ApiKeys.Length", .anything⟩,
    ⟨.like "ApiVersionsResponse.Body.ApiKeys.ApiKeys[*].APIKey", .anything⟩,
    ⟨.like "ApiVersionsResponse.Body.ApiKeys.ApiKeys[*].MinVersion", .anything⟩,
    ⟨.like "ApiVersionsResponse.Body.ApiKeys.ApiKeys[*].MaxVersion", .anything⟩]

/-- The range of an API covers the expected one.  Of several ranges of one API the first counts. -/
def keyChecks (actual : List ApiKeyVersions) (expected : ApiKeyVersions) : List Check :=
  let name := ((ApiKey.ofCode? expected.apiKey).map ApiKey.name).getD "Unknown"
  match actual.find? (·.apiKey = expected.apiKey) with
  | none => [failed s!"Expected ApiKeys array to include API key {expected.apiKey} ({name})"]
  | some k =>
    [demand (k.minVersion ≤ expected.minVersion)
      s!"Expected API version {expected.minVersion} to be supported for {name}, got min version {k.minVersion}",
    remark s!"✓ MinVersion for {name} is <= {expected.minVersion}",
    demand (expected.maxVersion ≤ k.maxVersion)
      s!"Expected API version {expected.maxVersion} to be supported for {name}, got max version {k.maxVersion}",
    remark s!"✓ MaxVersion for {name} is >= {expected.maxVersion}"]

def checks (e : ApiVersionsExpectation) (r : Response ApiVersionsResponseBody) : List Check :=
  let actual := r.body.apiKeys
  [remark s!"✓ CorrelationID: {e.correlationId}",
    remark s!"✓ ErrorCode: {ErrorCode.describe e.errorCode}"]
  ++ if e.errorCode ≠ 0 then [] else
    [demand (e.apiKeys.length ≤ actual.length)
      s!"Expected ApiKeys array to include at least {e.apiKeys.length} keys, got {actual.length}"]
    ++ (if e.apiKeys = [] then [] else [remark s!"✓ API keys array length: {actual.length}"])
    ++ e.apiKeys.flatMap (keyChecks actual)

end ApiVersionsExpectation

instance : Expectation ApiVersionsExpectation ApiVersionsResponseBody :=
  ⟨ApiVersionsExpectation.rules, ApiVersionsExpectation.checks⟩

end BrokerExam
