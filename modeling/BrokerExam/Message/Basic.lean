/-
BrokerExam/Message/Basic.lean

Requests and responses.  A message is a header and a body below a root segment
named for the API and the direction.  The APIs differ only in their bodies: a
`RequestBody` or `ResponseBody` instance gives the API and the codec of the
body, and the rest is common.

A message takes all the bytes there are.  The one exception is a response body
that says that its contents stop early (`ResponseBody.endsEarly`).

A body has one codec, in which each segment and each kind of value is named once.
That a body is written and read with the same names is therefore a matter of how
it is described here, to be checked against the protocol by reading; what the
theorems say about the two directions is about values, bytes and offsets.
-/
import BrokerExam.Wire.Codec
import BrokerExam.Message.ApiKey

namespace BrokerExam

/-! ### Headers -/

structure RequestHeader where
  apiKey : Int16
  apiVersion : Int16
  correlationId : Int32
  clientId : Option String
  deriving DecidableEq, Repr

structure ResponseHeader where
  correlationId : Int32
  deriving DecidableEq, Repr

def RequestHeader.codec : Codec RequestHeader RequestHeader := Codec.scope "Header" do
  let apiKey ← (Codec.int16 "APIKey").on (·.apiKey)
  let apiVersion ← (Codec.int16 "APIVersion").on (·.apiVersion)
  let correlationId ← (Codec.int32 "CorrelationID").on (·.correlationId)
  let clientId ← (Codec.string "ClientID").on (·.clientId)
  Codec.tagBuffer
  return { apiKey, apiVersion, correlationId, clientId }

/-- Flexible headers end with a tag buffer. -/
def ResponseHeader.codec (flexible : Bool) : Codec ResponseHeader ResponseHeader :=
  Codec.scope "Header" do
    let correlationId ← (Codec.int32 "CorrelationID").on (·.correlationId)
    if flexible then Codec.tagBuffer else pure ()
    return { correlationId }

/-! ### Messages -/

structure Request (β : Type) where
  header : RequestHeader
  body : β
  deriving DecidableEq, Repr

structure Response (β : Type) where
  header : ResponseHeader
  body : β
  deriving DecidableEq, Repr

/-- A type of request bodies. -/
class RequestBody (β : Type) where
  api : ApiKey
  codec : Codec β β

/-- A type of response bodies. -/
class ResponseBody (β : Type) where
  api : ApiKey
  codec : Codec β β
  /-- Whether the header ends with a tag buffer. -/
  flexibleHeader : Bool := true
  /-- Whether bytes after the body are none of its business. -/
  endsEarly : β → Bool := fun _ => false

/-- Fails if there are bytes left, and writes nothing. -/
def Codec.finished {α : Type} (root : String) : Codec α Unit :=
  { write := fun _ => ((), [])
    read := do
      let left ← FieldRead.remaining
      if left = 0 then pure ()
      else throw (← FieldRead.errorOverRemaining (.invalidLength (.trailingMessage left root))) }

namespace Request

variable {β : Type} [RequestBody β]

variable (β) in
def root : String := (RequestBody.api β).name ++ "Request"

def codec : Codec (Request β) (Request β) := Codec.scope (root β) do
  let header ← RequestHeader.codec.on (·.header)
  let body ← RequestBody.codec.on (·.body)
  Codec.finished (root β)
  return { header, body }

/-- What is written for the request. -/
def encoding (r : Request β) : Encoding := (codec.write r).2

/-- The request as it is sent. -/
def encode (r : Request β) : Except Fault Bytes := return frame (← r.encoding.render)

/-- The request in a payload without its frame. -/
def decode (payload : Bytes) : Except DecodeError (Request β) :=
  match codec.read (ReadState.start payload ()) with
  | .ok r _ => .ok r
  | .error e _ => .error e

end Request

/-- The header alone, whatever the API. -/
def RequestHeader.decode (payload : Bytes) : Except DecodeError RequestHeader :=
  match FieldRead.scope "Request" RequestHeader.codec.read (ReadState.start payload ()) with
  | .ok h _ => .ok h
  | .error e _ => .error e

namespace Response

variable {β : Type} [ResponseBody β]

variable (β) in
def root : String := (ResponseBody.api β).name ++ "Response"

def codec : Codec (Response β) (Response β) := Codec.scope (root β) do
  let header ← (ResponseHeader.codec (ResponseBody.flexibleHeader β)).on (·.header)
  let body ← ResponseBody.codec.on (·.body)
  if ResponseBody.endsEarly body then pure () else Codec.finished (root β)
  return { header, body }

/-- The response as a payload without its frame. -/
def encode (r : Response β) : Bytes := Encoding.bytes (codec.write r).2

/-- Reads a response, and keeps the fields read on the way, also when that fails. -/
def read (payload : Bytes) : EStateM.Result DecodeError (ReadState Unit) (Response β) :=
  codec.read (ReadState.start payload ())

end Response
end BrokerExam
