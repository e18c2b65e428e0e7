/-
BrokerExam/Client.lean

A client of the broker, which sends and receives one message at a time.

Waiting is bounded: once the size of a message has come in, its payload is read
until it is complete or the time is up.  What has come in by then is the
message; whether that is all of it is for the verdict to say.
-/
import BrokerExam.Environment
import BrokerExam.Frame
import BrokerExam.Message.Basic
import BrokerExam.Report.HexDump
import BrokerExam.Report.Tree
import BrokerExam.Text.Duration

namespace BrokerExam

/-- Times are in milliseconds. -/
structure ClientConfig where
  connectRetries : Nat := 10
  retryInterval : Nat := 1000
  writeTimeout : Nat := 100
  /-- How long a payload may take from the moment its size is known. -/
  readTimeout : Nat := 100
  /-- The most bytes that are read without a size. -/
  maxRawReadBytes : Nat := 1048576
  deriving DecidableEq, Repr

structure Client (m : Type → Type) [Network m] where
  connection : Network.Connection m
  config : ClientConfig

namespace Client

variable {m : Type → Type} [Monad m] [Journal m] [Clock m] [Network m]

/-! ### Connecting -/

/-- Connects, with so many retries left after those that were used. -/
def connectWithin (address : String) (config : ClientConfig) (used : Nat) :
    (left : Nat) → Tried m (Client m)
  | 0 => do
    let connection ← attempt (.connect address used) (Network.connect address)
    debug s!"Connected to broker at {address}"
    return { connection, config }
  | left + 1 => do
    match ← ExceptT.lift (Network.connect (m := m) address) with
    | .ok connection =>
      debug s!"Connected to broker at {address}"
      return { connection, config }
    | .error e =>
      debug s!"Failed to connect to broker at {address} ({e.message}), retrying in {Duration.text config.retryInterval}"
      Clock.sleep config.retryInterval
      connectWithin address config (used + 1) left

def connect (address : String) (config : ClientConfig) : Tried m (Client m) :=
  connectWithin address config 0 config.connectRetries

/-! ### Bytes -/

/-- Why reading stopped. -/
inductive Stop
  /-- All that was wanted is there. -/
  | complete
  | ended
  | timedOut
  | failed (e : SystemError)

/-- The most bytes that are taken at once. -/
def chunkBytes : Nat := 65536

/-- Reads until so many bytes are there, in at most `fuel` reads. -/
def drain (c : Client m) (deadline : Option Int) : (fuel wanted : Nat) → m (Bytes × Stop)
  | _, 0 | 0, _ => return ([], .complete)
  | fuel + 1, wanted => do
    match ← Network.read c.connection (min wanted chunkBytes) deadline with
    | .failed e => return ([], .failed e)
    | .timedOut => return ([], .timedOut)
    | .done [] => return ([], .ended)
    | .done bs =>
      let (more, stop) ← c.drain deadline fuel (wanted - bs.length)
      return (bs ++ more, stop)

/-- Reads until so many bytes are there; every read gives one at least. -/
def read (c : Client m) (deadline : Option Int) (wanted : Nat) : Tried m (Bytes × Stop) :=
  ExceptT.lift (c.drain deadline wanted wanted)

/-- Sends bytes as they are. -/
def send (c : Client m) (message : Bytes) : Tried m Unit := do
  let deadline := (← Clock.now) + c.config.writeTimeout
  match ← ExceptT.lift (Network.write c.connection message deadline) with
  | .done () => pure ()
  | .timedOut => fail .writeTimedOut
  | .failed e => attempting .writeRequest (fail (.system e))

/-! ### Messages -/

/-- Reads the size of a message, however long that takes. -/
def receiveSize (c : Client m) : Tried m Bytes := do
  match ← c.read none Frame.sizeBytes with
  | (bs, .complete) => return bs
  | (_, .failed e) => attempting .readSize (fail (.system e))
  | _ => attempting .readSize (fail (.system .endOfStream))

/-- Reads one message. -/
def receive (c : Client m) : Tried m Frame := do
  let sizeBytes ← c.receiveSize
  let size := (Frame.mk sizeBytes).declared
  if size < 0 then fail (.negativeSize size)
  else
    let deadline := (← Clock.now) + c.config.readTimeout
    match ← c.read deadline size.toInt.toNat with
    | (_, .failed e) => attempting .readResponse (fail (.system e))
    -- a message that is cut short is left to the verdict
    | (payload, .timedOut) =>
      debug s!"Read deadline reached with {payload.length} of {size} payload bytes"
      return ⟨sizeBytes ++ payload⟩
    | (payload, _) => return ⟨sizeBytes ++ payload⟩

/-- Reads whatever comes in before the time is up. -/
def receiveRaw (c : Client m) : Tried m Frame := do
  let deadline := (← Clock.now) + c.config.readTimeout
  match ← c.read deadline c.config.maxRawReadBytes with
  | (_, .failed e) => attempting .readResponse (fail (.system e))
  | (bs, _) => return ⟨bs⟩

/-! ### Requests and responses -/

/-- Sends a request without waiting for its response. -/
def sendRequest {β : Type} [RequestBody β] (c : Client m) (r : Request β) : Tried m Unit := do
  let message ← faultless r.encode
  let api := (RequestBody.api β).name
  info s!"Sending \"{api}\" (version: {r.header.apiVersion}) request (Correlation id: {r.header.correlationId})"
  let lines ← faultless (Tree.lines r.encoding.fields)
  Journal.within "Encoder" do lines.forM fun line => debug line
  debug s!"Sending bytes:\n{(HexDump.mk message 0).formatWithHeading}"
  c.send message

/-- Reads the response to a request of an API. -/
def receiveResponse (c : Client m) (api : ApiKey) : Tried m Frame := do
  match ← outcome c.receive with
  | .error e => fail (.noResponse api e.message)
  | .ok f =>
    debug s!"Received bytes:\n{(HexDump.mk f.raw 0).formatWithHeading}"
    return f

def exchange {β : Type} [RequestBody β] (c : Client m) (r : Request β) : Tried m Frame := do
  c.sendRequest r
  c.receiveResponse (RequestBody.api β)

def close (c : Client m) : Tried m Unit := attempt .closeConnection (Network.finish c.connection)

end Client
end BrokerExam
