/-
  CqlClient formalization — the client connection (`cql_client_connection.hpp`).

  Each function of the class takes the connection to the connection it leaves,
  and says whether the process survived.  Requests and received messages are
  objects on the heap, named by their position in `requests` and `responses`.
  `writes` are the buffers given to `uv_write`, and `out` the other calls the
  connection made, in order.

  The constructor of a request makes a `std::string` from `NULL`.  With the common
  library that throws, so no call of `exec` or `prepare` comes any further; what
  these two and the handlers do with a request is modelled all the same, for a
  library that returns a string there (`NullString`).

  The message under way is not part of this state: only the read loop uses it.
  The log lines are left out, and so are the host name and the addresses, which
  are passed on unread.
-/
import CqlClient.ReadLoop
import CqlClient.StreamStorage

namespace CqlClient

open Word

def cqlStreamIdMax : ℕ := 127

inductive ClientConnectionState where
  | new
  | resolved
  | connected
  | handshake
  | supported
  | ready
  | disconnecting
  | disconnected
  deriving DecidableEq, Repr

/-- The place of a state in the enumeration. -/
def ClientConnectionState.index : ClientConnectionState → ℕ
  | new => 0
  | resolved => 1
  | connected => 2
  | handshake => 3
  | supported => 4
  | ready => 5
  | disconnecting => 6
  | disconnected => 7

/-- A `CallerRequest*`. -/
inductive RequestPtr where
  /-- never assigned -/
  | indeterminate
  | null
  | request (i : ℕ)
  deriving DecidableEq, Repr

/-- What `std::string(NULL)` does, which the language leaves undefined. -/
inductive NullString where
  /-- `std::logic_error`, as the common library has it -/
  | throws
  /-- a string, of whatever is found there -/
  | returns (text : List UInt8)
  deriving DecidableEq, Repr

/-- `CallerRequest`; `notified` counts the calls of `notify`. -/
structure CallerRequest where
  flag : Bool := false
  error : Option Error := none
  data : List UInt8
  result : Option ℕ := none
  callback : Bool := false
  notified : ℕ := 0
  deriving DecidableEq, Repr

/-- `new CallerRequest()`, whose `data(NULL)` makes a `std::string` from `NULL`;
    `none` if that throws. -/
def CallerRequest.new : NullString → Option CallerRequest
  | .throws => none
  | .returns text => some { data := text }

/-- `notify`. -/
def CallerRequest.notify (r : CallerRequest) : CallerRequest :=
  { r with flag := true, notified := r.notified + 1 }

/-- A frame that `Message::prepare` made, with the request it was sent for. -/
structure SentFrame where
  opcode : UInt8
  stream : ℕ
  request : RequestPtr
  frame : Message.Encoded
  deriving DecidableEq, Repr

/-- A buffer given to `uv_write`: from `Message::prepare`, or the `write_output`
    of `SSLSession::read_write`. -/
inductive Write where
  | frame (f : SentFrame)
  | sslOutput (bytes : List UInt8)
  deriving DecidableEq, Repr

/-- The other calls out of the connection. -/
inductive Output where
  | getaddrinfo
  | tcpConnect
  | readStart
  | close
  | connectCallback (err : Option Error)
  | keyspaceCallback (keyspace : Option ℤ) (size : ℕ)
  | prepareCallback (err : Option Error) (data : List UInt8) (prepared : Option ℤ) (size : ℕ)
  /-- a read or a write of a field of the request -/
  | access (request : ℕ)
  | notify (request : ℕ)
  deriving DecidableEq, Repr

/-- The part of a connection that requests and their answers go through. -/
structure Core where
  streamStorage : StreamStorage RequestPtr cqlStreamIdMax
  requests : List CallerRequest := []
  responses : List Message := []
  writes : List Write := []

structure Connection extends Core where
  state : ClientConnectionState := .new
  connectCallback : Bool := false
  keyspaceCallback : Bool := false
  prepareCallback : Bool := false
  /-- `ssl_` is not `NULL` -/
  ssl : Bool
  sslHandshakeDone : Bool := false
  cqlVersion : List UInt8 := ascii "3.0.0"
  /-- the input that `on_read` has left, while it is in its loop -/
  reading : Option (List UInt8) := none
  out : List Output := []
  /-- the responses that were deleted, in order -/
  deleted : List ℕ := []
  /-- what fresh memory happens to hold -/
  heap : Memory
  nullString : NullString

/-- The text of a `char*` passed as a `std::string`, up to a NUL.  Without one in
    the body it goes on behind the body, with whatever is there; that part is
    left out. -/
def CharPtr.text (mem : List UInt8) : CharPtr → Except Crash (List UInt8)
  | null => .error .nullDeref
  | own bs => .ok (bs.takeWhile (· ≠ 0))
  | inBody pos => .ok ((mem.drop pos.toNat).takeWhile (· ≠ 0))

/-- The request behind a pointer that is dereferenced. -/
def RequestPtr.deref : RequestPtr → Except Crash ℕ
  | indeterminate => .error .indeterminate
  | null => .error .nullDeref
  | request i => .ok i

namespace Connection

/-- `ClientConnection(loop, ssl_session)`, with what the memory held and the
    library does. -/
def new (heap : Memory) (nullString : NullString) (ssl prepareCallback : Bool) : Connection where
  streamStorage := StreamStorage.new fun _ => .indeterminate
  prepareCallback := prepareCallback
  ssl := ssl
  heap := heap
  nullString := nullString

def emit (c : Connection) (o : Output) : Connection := { c with out := c.out ++ [o] }

/-- `send_data`. -/
def sendData (c : Connection) (w : Write) : Connection := { c with writes := c.writes ++ [w] }

/-! ## Sending -/

/-- `send_message`: the error, if there was no stream.  A message without a body
    leaves the buffer it sends unassigned. -/
def sendMessage (message : Message) (request : RequestPtr) (c : Connection) :
    Connection × Except Crash (Option Error) :=
  match c.streamStorage.setStream request with
  | (streamStorage, .error err) => ({ c with streamStorage }, .ok (some err))
  | (streamStorage, .ok stream) =>
    let c := { c with streamStorage }
    match ({ message with stream := toInt8 stream } : Message).prepare with
    | (_, none) => (c, .error .indeterminate)
    | (message, some frame) =>
      if opcodeHasName message.opcode then
        (c.sendData (.frame ⟨message.opcode, stream, request, frame⟩), .ok none)
      else (c, .error .assertFailed)

/-- A message of the connection's own, which ignores the error of `send_message`. -/
def sendOwn (opcode : UInt8) (body : Body) (c : Connection) : Connection × Option Crash :=
  match Message.ofOpcode c.heap opcode with
  | .error e => (c, some e)
  | .ok message =>
    match c.sendMessage { message with body := some body } .null with
    | (c, .error e) => (c, some e)
    | (c, .ok _) => (c, none)

/-- `send_options`. -/
def sendOptions (c : Connection) : Connection × Option Crash := c.sendOwn cqlOpcodeOptions .options

/-- `send_startup`. -/
def sendStartup (c : Connection) : Connection × Option Crash :=
  c.sendOwn cqlOpcodeStartup (.startup { cqlVersion := c.cqlVersion })

/-- `set_keyspace`. -/
def setKeyspace (keyspace : List UInt8) (c : Connection) : Connection × Option Crash :=
  c.sendOwn cqlOpcodeQuery (.query { query := ascii "USE " ++ keyspace })

/-- `request->notify(loop_)`. -/
def notify (i : ℕ) (c : Connection) : Connection :=
  { c.emit (.notify i) with requests := c.requests.modify i CallerRequest.notify }

/-- A new request sent with `message`: `request->error` and `notify` if that fails. -/
def sendRequest (message : Message) (request : CallerRequest) (c : Connection) :
    Connection × Except Crash (Option ℕ) :=
  let i := c.requests.length
  match ({ c with requests := c.requests ++ [request] } : Connection).sendMessage message
      (.request i) with
  | (c, .error e) => (c, .error e)
  | (c, .ok none) => (c, .ok (some i))
  | (c, .ok (some err)) =>
    (({ c with requests := c.requests.modify i fun r => { r with error := some err } } :
      Connection).notify i, .ok (some i))

/-- `exec`: the request it returns, or `none` if its first statement, the
    `new CallerRequest()`, throws and the exception goes to the caller. -/
def exec (message : Message) (callback : Bool) (c : Connection) :
    Connection × Except Crash (Option ℕ) :=
  match CallerRequest.new c.nullString with
  | none => (c, .ok none)
  | some request => c.sendRequest message { request with callback }

/-- `prepare`, of which the same holds. -/
def prepare (statement : List UInt8) (callback : Bool) (c : Connection) :
    Connection × Except Crash (Option ℕ) :=
  match CallerRequest.new c.nullString with
  | none => (c, .ok none)
  | some request =>
    match Message.ofOpcode c.heap cqlOpcodePrepare with
    | .error e => (c, .error e)
    | .ok message =>
      c.sendRequest { message with body := some (.prepare ⟨statement⟩) }
        { request with callback, data := statement }

/-! ## The handshake -/

/-- `notify_ready`. -/
def notifyReady (c : Connection) : Connection :=
  if c.connectCallback then c.emit (.connectCallback none) else c

/-- `notify_error`. -/
def notifyError (err : Error) (c : Connection) : Connection :=
  if c.connectCallback then c.emit (.connectCallback (some err)) else c

/-- `resolve`. -/
def resolve (c : Connection) : Connection := c.emit .getaddrinfo

/-- `connect`. -/
def connect (c : Connection) : Connection := c.emit .tcpConnect

/-- The switch of `event_received`, with what it calls in the connected state. -/
def eventReceivedWith (sslHandshake : Connection → Connection × Option Crash) (c : Connection) :
    Connection × Option Crash :=
  match c.state with
  | .new => (c.resolve, none)
  | .resolved => (c.connect, none)
  | .connected => sslHandshake c
  | .handshake => c.sendOptions
  | .supported => c.sendStartup
  | .ready => (c.notifyReady, none)
  | .disconnecting | .disconnected => (c, some .assertFailed)

/-- `ssl_handshake`: with SSL it enters `on_read` without any input; without, it
    goes on in the handshake state. -/
def sslHandshake (c : Connection) : Connection × Option Crash :=
  if c.ssl then ({ c with reading := some [] }, none)
  else eventReceivedWith (fun c => (c, some .outOfFuel)) { c with state := .handshake }

/-- `event_received`. -/
def eventReceived (c : Connection) : Connection × Option Crash := c.eventReceivedWith sslHandshake

/-- `init`. -/
def init (connect keyspace : Bool) (c : Connection) : Connection × Option Crash :=
  ({ c with connectCallback := connect, keyspaceCallback := keyspace } : Connection).eventReceived

/-- `on_resolve`. -/
def onResolve (status : ℤ) (c : Connection) : Connection × Option Crash :=
  if status = -1 then (c, none)
  else ({ c with state := .resolved } : Connection).eventReceived

/-- `on_connect`. -/
def onConnect (status : ℤ) (c : Connection) : Connection × Option Crash :=
  if status = -1 then (c, none)
  else ({ c.emit .readStart with state := .connected } : Connection).eventReceived

/-- `close`. -/
def close (c : Connection) : Connection := { c.emit .close with state := .disconnecting }

/-- `on_close`. -/
def onClose (c : Connection) : Connection × Option Crash :=
  ({ c with state := .disconnected } : Connection).eventReceived

/-! ## Responses -/

/-- A released message is an object on the heap. -/
def receive (message : Message) (c : Connection) : Connection :=
  { c with responses := c.responses ++ [message] }

/-- `delete response`. -/
def deleteResponse (response : ℕ) (c : Connection) : Connection :=
  { c with deleted := c.deleted ++ [response] }

/-- `request->result = response; request->notify(loop_);` -/
def complete (request : RequestPtr) (response : ℕ) (c : Connection) :
    Connection × Option Crash :=
  match request.deref with
  | .error e => (c, some e)
  | .ok i =>
    (({ c.emit (.access i) with
        requests := c.requests.modify i fun r => { r with result := some response } } :
      Connection).notify i, none)

/-- `prepare_callback_`, which reads the request's data. -/
def callPrepareCallback (err : Option Error) (request : RequestPtr) (result : BodyResult)
    (c : Connection) : Connection × Option Crash :=
  if c.prepareCallback then
    match request.deref with
    | .error e => (c, some e)
    | .ok i =>
      ((c.emit (.access i)).emit (.prepareCallback err
        ((c.requests[i]?.map CallerRequest.data).getD []) result.prepared result.preparedSize),
        none)
  else (c, none)

/-- `get_stream(response->stream, request)`. -/
def getStream (stream : ℤ) (c : Connection) : Connection × RequestPtr × Option Error :=
  let (streamStorage, request, err) := c.streamStorage.getStream stream.toNat true
  ({ c with streamStorage }, request, err)

/-- `on_result`. -/
def onResult (message : Message) (response : ℕ) (c : Connection) : Connection × Option Crash :=
  match message.body with
  | some (.result result) =>
    if result.kind = cqlResultKindSetKeyspace then
      if c.keyspaceCallback then
        (c.emit (.keyspaceCallback result.keyspace result.keyspaceSize), none)
      else (c, none)
    else if result.kind = cqlResultKindPrepared then
      let (c, request, err) := c.getStream message.stream
      match c.callPrepareCallback err request result with
      | (c, some e) => (c, some e)
      | (c, none) =>
        match err with
        | none => c.complete request response
        | some _ => (c, none)
    else
      let (c, request, err) := c.getStream message.stream
      match err with
      | none => c.complete request response
      | some err => (c.notifyError err, none)
  | _ => (c, some .badCast)

/-- `on_error`. -/
def onError (message : Message) (response : ℕ) (c : Connection) : Connection × Option Crash :=
  match message.body with
  | some (.error error) =>
    if c.state.index < ClientConnectionState.ready.index then
      match error.message.text (message.bodyBuffer.take message.length.toNat) with
      | .error e => (c, some e)
      | .ok text =>
        ((c.notifyError ⟨cqlErrorSourceServer, 0, text⟩).deleteResponse response, none)
    else (c.deleteResponse response, none)
  | _ => (c, some .badCast)

/-- `on_ready`. -/
def onReady (response : ℕ) (c : Connection) : Connection × Option Crash :=
  ({ c.deleteResponse response with state := .ready } : Connection).eventReceived

/-- `on_supported`. -/
def onSupported (response : ℕ) (c : Connection) : Connection × Option Crash :=
  ({ c.deleteResponse response with state := .supported } : Connection).eventReceived

/-- The handlers of the read loop. -/
def handlers : Handlers Connection where
  onSupported message c := (c.receive message).onSupported c.responses.length
  onError message c := (c.receive message).onError message c.responses.length
  onReady message c := (c.receive message).onReady c.responses.length
  onResult message c := (c.receive message).onResult message c.responses.length

end Connection

end CqlClient
