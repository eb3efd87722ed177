import Initd.Runtime.Fragmentation
import Initd.Runtime.Handles

namespace Initd

open Library

/-! The clients of the control sockets, and the connections that they are
served on. -/

/-- Why the server's end of a socket is closed.  Where a control task stops, it
has `refused` the clients that it has not accepted, and the connections of the
others are `stopped`. -/
inductive Departure
  | hungUp
  | failed
  | refused
  | stopped
  deriving DecidableEq, Repr

/-- Where the server's end of a client's socket is: in the backlog of the
server socket, in the connection of an id, or closed. -/
inductive Stage
  | waiting
  | served (id : Nat)
  | left (why : Departure)
  deriving DecidableEq, Repr

def Stage.isLeft : Stage → Bool
  | .left _ => true
  | _ => false

/-- What `destroyed_tag` of a `stream_socket` points to.  The constructor does
not set it; every callback sets it to a variable of its own, and leaves it so. -/
inductive DestroyedTag
  | uninitialized
  | callback
  | dangling
  deriving DecidableEq, Repr

/-- `sends` is all that the client writes unless it is cut short, `unsent` what
is left of it, and `avail` what it has written and the server has not read. -/
structure ControlClient (n : Nat) where
  task : Fin n
  sends : Bytes
  unsent : Bytes
  avail : Bytes
  closed : Bool
  stage : Stage
  tag : DestroyedTag
  connection : Connection
  deriving DecidableEq, Repr

namespace ControlClient

open Connection

variable {n : Nat}

def connect (t : Fin n) (sends : Bytes) : ControlClient n where
  task := t
  sends := sends
  unsent := sends
  avail := []
  closed := false
  stage := .waiting
  tag := .uninitialized
  connection := .opened

def write (count : Nat) (client : ControlClient n) : ControlClient n :=
  { client with
    avail := client.avail ++ client.unsent.take count
    unsent := client.unsent.drop count }

/-- The server's end is closed, and the connection destroyed. -/
def leave (why : Departure) (client : ControlClient n) : ControlClient n :=
  { client with
    stage := .left why
    connection :=
      { client.connection with buffer := [], connected := false } }

/-- The handler of `read_process` takes all that there is. -/
def read (operation : ContextOperation) (client : ControlClient n) :
    ControlClient n :=
  { client with
    avail := []
    connection := onReady operation { client.connection with
      buffer := client.connection.buffer ++ client.avail } }

/-- What a change of the tasks leaves of the client: a control task that stops
closes its server socket and its connections. -/
def swept (ctx : Context n) (client : ControlClient n) : ControlClient n :=
  let handle := (ctx.state.tasks client.task).handle
  match client.stage with
  | .waiting =>
      if handle.control.isSome then client else client.leave .refused
  | .served id =>
      if id ∈ handle.connections then client else client.leave .stopped
  | .left _ => client

/-- A change of the tasks destroys the socket outside of its own callback. -/
def dangles (ctx : Context n) (client : ControlClient n) : Bool :=
  match client.stage with
  | .served id =>
      id ∉ (ctx.state.tasks client.task).handle.connections &&
        client.tag ≠ .callback
  | _ => false

end ControlClient

/-- `assertion` is the one of `on_disconnect`, that the map has the id, on a
connection that is there.  At a `danglingTag` the destructor of a socket writes
to where its `destroyed_tag` points, and that is not the variable of a callback
that runs. -/
inductive Fault
  | assertion
  | danglingTag
  | misuse (how : Misuse)
  deriving DecidableEq, Repr

/-- `calls` are the operations that connections have called, each with the
client that asked for it; `fault` is the first that there was. -/
structure ControlServer (n : Nat) where
  ctx : Context n
  clients : List (ControlClient n)
  calls : List (Nat × ControlMessage)
  fault : Option Fault

namespace ControlServer

variable {n : Nat}

def replace (k : Nat) (client : ControlClient n) (server : ControlServer n) :
    ControlServer n :=
  { server with clients := server.clients.set k client }

def raise (fault : Fault) (server : ControlServer n) : ControlServer n :=
  { server with fault := server.fault.or (some fault) }

/-- The tasks change, and with them which connections there are. -/
def moved (ctx : Context n) (server : ControlServer n) : ControlServer n :=
  { server with
    ctx := ctx
    clients := server.clients.map (ControlClient.swept ctx)
    fault :=
      if server.clients.any (ControlClient.dangles ctx) then
        (server.raise .danglingTag).fault
      else
        server.fault }

/-- The `on_disconnect` of the connection `id`. -/
def onDisconnect (k : Nat) (client : ControlClient n) (id : Nat)
    (why : Departure) (server : ControlServer n) : ControlServer n :=
  if id ∈ (server.ctx.state.tasks client.task).handle.connections then
    { server.replace k (client.leave why) with
      ctx := (server.ctx.disconnected client.task id).state
      fault :=
        if client.tag = .callback then
          server.fault
        else
          (server.raise .danglingTag).fault }
  else
    server.raise .assertion

/-- The handler after the operation of a message, which calls `clear_buffer`, or
`on_disconnect` for an exception, be the connection there or not. -/
def ended (k : Nat) (client : ControlClient n) (id : Nat) (threw : Bool)
    (server : ControlServer n) : ControlServer n :=
  if id ∈ (server.ctx.state.tasks client.task).handle.connections then
    if threw then server.onDisconnect k client id .failed else server
  else
    server.raise (.misuse (if threw then .onDisconnect else .clearBuffer))

/-- The `on_read` of a socket.  Where the operation of a message throws, `what`
is the text of the exception. -/
def onRead (graph : TaskGraph n) (environment : Environment n) (k : Nat)
    (client : ControlClient n) (id : Nat) (what : Bytes)
    (server : ControlServer n) : Option (ControlServer n) :=
  let read := client.read fun _ =>
    server.ctx.reply graph environment client.task id what
  let server := server.replace k read
  match parseMessage (client.connection.buffer ++ client.avail) with
  | .ok none => some server
  | .error _ => some (server.onDisconnect k read id .failed)
  | .ok (some message) => do
      let call ← server.ctx.dispatch graph environment message
      let server := { server.moved call.state with
        calls := server.calls ++ [(k, message)] }
      return server.ended k read id call.threw

/-- The callback of a `stream_socket`, which asks after `on_read` whether the
socket is still there. -/
def onEvents (graph : TaskGraph n) (environment : Environment n) (k : Nat)
    (hangUp : Bool) (what : Bytes) (server : ControlServer n) :
    Option (ControlServer n) := do
  let client ← server.clients[k]?
  match client.stage with
  | .served id =>
      -- the kernel reports bytes, or the end of the stream, and a hang-up at
      -- the latest with the next event after it
      guard (client.avail ≠ [] ∨ client.closed = true)
      guard (hangUp = true → client.closed = true)
      let client := { client with tag := .callback }
      let server ← onRead graph environment k client id what
        (server.replace k client)
      let read ← server.clients[k]?
      -- this is where `destroyed` is asked after
      if read.stage ≠ .served id then
        return server
      else if hangUp then
        return server.onDisconnect k read id .hungUp
      else
        return server.replace k { read with tag := .dangling }
  | _ => none

/-- `write` and `close` are what the clients do. -/
inductive Event (n : Nat)
  | context (event : Context.Event n)
  | connect (task : Fin n) (sends : Bytes)
  | write (k : Nat) (count : Nat)
  | close (k : Nat)
  | accept (k : Nat)
  | ready (k : Nat) (hangUp : Bool) (what : Bytes)
  deriving Repr

def contextChanged (graph : TaskGraph n) (environment : Environment n)
    (event : Context.Event n) (server : ControlServer n) :
    Option (ControlServer n) := do
  guard (event.isOffSocket = true)
  let call ← server.ctx.step graph environment event
  return server.moved call.state

def connect (t : Fin n) (sends : Bytes) (server : ControlServer n) :
    Option (ControlServer n) := do
  guard ((server.ctx.state.tasks t).handle.control.isSome = true)
  return { server with clients := server.clients ++ [.connect t sends] }

def write (k count : Nat) (server : ControlServer n) :
    Option (ControlServer n) := do
  let client ← server.clients[k]?
  guard (client.closed = false ∧ client.stage.isLeft = false)
  return server.replace k (client.write count)

/-- The end of a client, be it that it has written all, that its write was cut
short, or that it was killed. -/
def close (k : Nat) (server : ControlServer n) : Option (ControlServer n) := do
  let client ← server.clients[k]?
  return server.replace k { client with closed := true }

def accept (k : Nat) (server : ControlServer n) :
    Option (ControlServer n) := do
  let client ← server.clients[k]?
  let handle ← (server.ctx.state.tasks client.task).handle.control
  guard (client.stage = .waiting)
  return { server.replace k { client with stage := .served handle.nextId } with
    ctx := (server.ctx.accepted client.task).state }

/-- Nothing is said of what comes after a fault: at an `assertion` the process
is aborted, and after the others anything may happen. -/
def next (graph : TaskGraph n) (environment : Environment n) (event : Event n)
    (server : ControlServer n) : Option (ControlServer n) :=
  match server.fault, event with
  | some _, _ => none
  | none, .context event => server.contextChanged graph environment event
  | none, .connect t sends => server.connect t sends
  | none, .write k count => server.write k count
  | none, .close k => server.close k
  | none, .accept k => server.accept k
  | none, .ready k hangUp what =>
      server.onEvents graph environment k hangUp what

end ControlServer

/-- The runs of the control sockets up to their first fault, over the
environments of one kind. -/
def controlSystem {n : Nat} (descriptions : TaskDescriptions n)
    (allowed : Environment n → Prop) : StepSystem (ControlServer n) where
  init server := (contextSystem descriptions allowed).init server.ctx ∧
    server.clients = [] ∧ server.calls = [] ∧ server.fault = none
  step before after := ∃ environment event, allowed environment ∧
    before.next descriptions.graph environment event = some after

end Initd
