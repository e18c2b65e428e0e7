/-
BrokerExam/Live.lean

The world as it is: files on disk, the time of day, connections by TCP, the
standard streams.  Nothing is decided here; every operation is handed on, and
what the system refuses is put in the program's own terms.
-/
import BrokerExam.Environment
import Std.Async

namespace BrokerExam

/-! ### Refusals -/

namespace SystemError

/-- The number and the text of a refusal. -/
def codeAndText : IO.Error → Option (Nat × String)
  | .alreadyExists _ code text | .otherError code text | .resourceBusy code text
  | .resourceVanished code text | .unsupportedOperation code text | .hardwareFault code text
  | .unsatisfiedConstraints code text | .illegalOperation code text | .protocolError code text
  | .timeExpired code text | .interrupted _ code text | .noFileOrDirectory _ code text
  | .invalidArgument _ code text | .permissionDenied _ code text | .resourceExhausted _ code text
  | .inappropriateType _ code text | .noSuchThing _ code text => some (code.toNat, text)
  | .unexpectedEof | .userError _ => none

/-- The refusals that have a name here. -/
def named : List SystemError :=
  [notFound, alreadyExists, notADirectory, isADirectory, nameTooLong, connectionReset,
    connectionRefused]

/-- A refusal in the program's terms.  Numbers that the network counts down from zero are those of
the system otherwise. -/
def ofIO (e : IO.Error) : SystemError :=
  match codeAndText e with
  | none => endOfStream
  | some (code, text) =>
    let code := if code < 2147483648 then code else BigEndian.span 4 - code
    let known := named.find? fun e => e.codeAndName.map (·.1) = some code
    known.getD (other code text)

end SystemError

/-! ### The monad -/

/-- How entries are shown. -/
structure Display where
  limit : Level := .info
  spans : List String := []

/-- A computation in the world as it is. -/
abbrev Live := ReaderT (IO.Ref Display) IO

namespace Live

open Std.Async Std.Time

/-- Runs an operation that the system may refuse. -/
def trying {α : Type} (x : IO α) : Live (Except SystemError α) :=
  fun _ => do return (← x.toBaseIO).mapError SystemError.ofIO

/-- Milliseconds since the epoch. -/
def millisecondsNow : IO Int :=
  return (← Timestamp.now).toMillisecondsSinceUnixEpoch.val

/-! ### Files -/

instance : Storage Live where
  pathExists path := do
    return (← trying (System.mkFilePath [path]).metadata).isOk
  removeDirectory path := trying (IO.FS.removeDirAll path)
  createPath path := trying (if path = "" then pure () else IO.FS.createDirAll path)
  removeFile path := trying (IO.FS.removeFile path)
  writeFile path contents := trying (IO.FS.writeBinFile path ⟨contents.toArray⟩)
  readFile path := trying do return (← IO.FS.readBinFile path).toList
  listDirectory path := trying do
    let entries ← (System.mkFilePath [path]).readDir
    entries.toList.mapM fun entry => return ⟨entry.fileName, ← entry.path.isDir⟩

/-! ### Time and chance -/

instance : Clock Live where
  now := millisecondsNow
  sleep milliseconds := IO.sleep milliseconds.toUInt32

instance : Chance Live where
  below bound := do if bound ≤ 1 then return 0 else IO.rand 0 (bound - 1)

/-! ### Connections -/

/-- The host and the service of an address.  The number of the service stands behind the last
colon. -/
def hostAndService (address : String) : String × UInt16 :=
  match (address.splitOn ":").reverse with
  | service :: rest@(_ :: _) =>
    (":".intercalate rest.reverse, (service.toNat?.getD 0).toUInt16)
  | _ => (address, 0)

def socketAddress (service : UInt16) : Std.Net.IPAddr → Std.Net.SocketAddress
  | .v4 addr => .v4 ⟨addr, service⟩
  | .v6 addr => .v6 ⟨addr, service⟩

/-- Connects to the first of some places that accepts. -/
def connectAny : List Std.Net.SocketAddress → IO TCP.Socket.Client
  | [] => throw (.otherError 99 "Cannot assign requested address")
  | [only] => do
    let socket ← TCP.Socket.Client.mk
    (socket.connect only).block
    return socket
  | place :: places => do
    let socket ← TCP.Socket.Client.mk
    try
      (socket.connect place).block
      return socket
    catch _ => connectAny places

/-- The milliseconds until a moment. -/
def timeUntil (deadline : Int) : IO Millisecond.Offset := do
  return Millisecond.Offset.ofInt (max 0 (deadline - (← millisecondsNow)))

/-- Waits for a computation, until a moment at most. -/
def waiting {α : Type} (x : IO (Option α)) : Live (Waited α) := do
  match ← trying x with
  | .ok (some a) => return .done a
  | .ok none => return .timedOut
  | .error e => return .failed e

/-- What has come in; nothing at the end of the stream. -/
def received (bytes : Option ByteArray) : Bytes :=
  match bytes with
  | some bytes => bytes.toList
  | none => []

instance : Network Live where
  Connection := TCP.Socket.Client
  connect address := trying do
    let (host, service) := hostAndService address
    let places ← (DNS.getAddrInfo host (toString service)).block
    connectAny (places.toList.map (socketAddress service))
  read socket limit deadline := waiting do
    match deadline with
    | none => return some (received (← (socket.recv? limit.toUInt64).block))
    | some deadline =>
      let left ← timeUntil deadline
      Async.block do
        Selectable.one #[
          .case (socket.recvSelector limit.toUInt64) fun bytes => return some (received bytes),
          .case (← Selector.sleep left) fun _ => return none]
  write socket bytes deadline := waiting do
    let left ← timeUntil deadline
    Async.block do
      Async.race (do socket.send ⟨bytes.toArray⟩; return some ()) (do sleep left; return none)
  finish socket := trying socket.shutdown.block

/-! ### Streams -/

/-- The time of day at the start of a line. -/
def timeText : IO String := do
  let now := DateTime.ofTimestampWithZone (← Timestamp.now) TimeZone.UTC
  return now.format "uuuu-MM-dd'T'HH:mm:ss.SSSSSS" ++ "Z"

instance : Journal Live where
  record e := do
    let display ← (← read).get
    if e.level.shownAt display.limit then
      let e := { e with spans := display.spans ++ e.spans }
      IO.eprintln s!"{← timeText} {e.line display.limit}"
  within span x := do
    let display ← read
    let outer := (← display.get).spans
    display.modify ({ · with spans := outer ++ [span] })
    let a ← x
    display.modify ({ · with spans := outer })
    return a

instance : Console Live where
  print text := IO.print text
  complain text := IO.eprint text
  showEntries limit := do (← read).modify ({ · with limit })

/-- Runs a computation. -/
def run {α : Type} (x : Live α) : IO α := do x (← IO.mkRef {})

end Live
end BrokerExam
