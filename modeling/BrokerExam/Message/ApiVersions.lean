/-
BrokerExam/Message/ApiVersions.lean

ApiVersions, version 4: which versions of which APIs a broker serves.

A broker that does not know the version asked for answers with error 35 and may
stop there, so reading stops at that error code whatever follows.  Writing does
not stop.  The header keeps its oldest form, without a tag buffer, so that every
client can read it.
-/
import BrokerExam.Message.Basic

namespace BrokerExam

structure ApiVersionsRequestBody where
  clientSoftwareName : String
  clientSoftwareVersion : String
  deriving DecidableEq, Repr

/-- The versions that a broker serves of one API. -/
structure ApiKeyVersions where
  apiKey : Int16
  minVersion : Int16
  maxVersion : Int16
  deriving DecidableEq, Repr

structure ApiVersionsResponseBody where
  errorCode : Int16 := 0
  apiKeys : List ApiKeyVersions := []
  throttleTimeMs : Int32 := 0
  deriving DecidableEq, Repr

instance : RequestBody ApiVersionsRequestBody where
  api := .apiVersions
  codec := Codec.scope "Body" do
    let clientSoftwareName ← (Codec.compactString "ClientSoftwareName").on (·.clientSoftwareName)
    let clientSoftwareVersion ←
      (Codec.compactString "ClientSoftwareVersion").on (·.clientSoftwareVersion)
    Codec.tagBuffer
    return { clientSoftwareName, clientSoftwareVersion }

def ApiKeyVersions.codec : Codec ApiKeyVersions ApiKeyVersions := do
  let apiKey ← (Codec.int16 "APIKey").on (·.apiKey)
  let minVersion ← (Codec.int16 "MinVersion").on (·.minVersion)
  let maxVersion ← (Codec.int16 "MaxVersion").on (·.maxVersion)
  Codec.tagBuffer
  return { apiKey, minVersion, maxVersion }

namespace ApiVersionsResponseBody

/-- The versions served of an API. -/
def find? (body : ApiVersionsResponseBody) (key : ApiKey) : Option ApiKeyVersions :=
  body.apiKeys.find? fun entry => entry.apiKey = key.code

/-- Whether the body says that the version asked for is not served. -/
def isUnsupported (body : ApiVersionsResponseBody) : Bool :=
  body.errorCode = ErrorCode.unsupportedVersion.code

/-- What follows an error code of the body. -/
def afterErrorCode (errorCode : Int16) : Codec ApiVersionsResponseBody ApiVersionsResponseBody := do
  let apiKeys ← (Codec.compactArray "ApiKeys" ApiKeyVersions.codec).on (·.apiKeys)
  let throttleTimeMs ← (Codec.int32 "ThrottleTimeMs").on (·.throttleTimeMs)
  Codec.tagBuffer
  return { errorCode, apiKeys, throttleTimeMs }

end ApiVersionsResponseBody

instance : ResponseBody ApiVersionsResponseBody where
  api := .apiVersions
  flexibleHeader := false
  endsEarly := ApiVersionsResponseBody.isUnsupported
  codec := Codec.scope "Body" do
    let errorCode ← (Codec.int16 "ErrorCode").on (·.errorCode)
    if errorCode = ErrorCode.unsupportedVersion.code then do
      Codec.writeOnly (ApiVersionsResponseBody.afterErrorCode errorCode)
      return { errorCode }
    else ApiVersionsResponseBody.afterErrorCode errorCode

end BrokerExam
