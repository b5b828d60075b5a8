import DeflHotstuff.Library.Machine

namespace DeflHotstuff

open Verification

/-- A message for a connection, whose cancel handler goes by a number of its own. -/
structure InnerMessage where
  data : List UInt8
  cancelHandler : Nat
  deriving DecidableEq

/-- An answer resolves a cancel handler. The code does not see which frame the peer answered. -/
structure Answer where
  handler : Nat
  frame : InnerMessage
  bytes : List UInt8

inductive Phase where
  | connecting
  | waiting
  | connected
  deriving DecidableEq

/-- The connection to one peer with the message whose write is awaited and the frames that the peer
has yet to answer. The code keeps no record of the accepted messages and the answers. -/
structure Connection where
  phase : Phase
  channel : List InnerMessage
  buffer : List InnerMessage
  writing : Option InnerMessage
  pendingReplies : List InnerMessage
  frames : List InnerMessage
  closed : List Nat
  accepted : List InnerMessage
  answers : List Answer

inductive ConnectionEvent where
  | send (data : List UInt8)
  | cancel (handler : Nat)
  | connect (succeeds : Bool)
  | timer
  | receive
  | transmit
  | written (succeeds : Bool)
  | answer (bytes : List UInt8)
  | readFails

namespace Connection

def new : Connection := ⟨.connecting, [], [], none, [], [], [], [], []⟩

/-- The messages without a reply go back in front of the buffer. -/
def disconnect (connection : Connection) : Connection := { connection with
  phase := .connecting
  buffer := connection.pendingReplies ++ connection.buffer
  pendingReplies := []
  frames := [] }

/-- While the connection waits to reconnect, it drains the channel and drops what is cancelled. -/
def receive (connection : Connection) (message : InnerMessage) (rest : List InnerMessage) :
    Option Connection :=
  match connection.phase with
  | .connecting => none
  | .waiting => some { connection with
      channel := rest
      buffer := (connection.buffer ++ [message]).filter fun queued =>
        queued.cancelHandler ∉ connection.closed }
  | .connected =>
      if connection.buffer = [] ∧ connection.writing = none then some { connection with
        channel := rest
        buffer := connection.buffer ++ [message] }
      else none

/-- A cancelled message is skipped, and any other one is in no queue while its write is awaited. -/
def transmit (connection : Connection) (message : InnerMessage) (rest : List InnerMessage) :
    Connection :=
  if message.cancelHandler ∈ connection.closed then { connection with buffer := rest }
  else { connection with buffer := rest, writing := some message }

/-- A failed write puts the message back in front of the buffer. -/
def written (connection : Connection) (message : InnerMessage) (succeeds : Bool) : Connection :=
  if succeeds then { connection with
    writing := none
    pendingReplies := connection.pendingReplies ++ [message]
    frames := connection.frames ++ [message] }
  else { connection with writing := none, buffer := message :: connection.buffer }.disconnect

/-- A reply resolves the handler of the oldest message without one, unless it is closed. -/
def reply (connection : Connection) (frame : InnerMessage) (bytes : List UInt8) : Connection :=
  match connection.pendingReplies with
  | [] => connection.disconnect
  | message :: rest => { connection with
      pendingReplies := rest
      answers :=
        if message.cancelHandler ∈ connection.closed then connection.answers
        else connection.answers ++ [⟨message.cancelHandler, frame, bytes⟩] }

def step (connection : Connection) : ConnectionEvent → Option Connection
  | .send data =>
      if connection.channel.length < 1000 then
        let message : InnerMessage := ⟨data, connection.accepted.length⟩
        some { connection with
          channel := connection.channel ++ [message]
          accepted := connection.accepted ++ [message] }
      else none
  | .cancel handler =>
      if handler < connection.accepted.length then
        some { connection with closed := handler :: connection.closed }
      else none
  | .connect succeeds =>
      if connection.phase = .connecting then some { connection with
        phase := if succeeds then .connected else .waiting }
      else none
  | .timer =>
      if connection.phase = .waiting then some { connection with phase := .connecting } else none
  | .receive =>
      match connection.channel with
      | [] => none
      | message :: rest => connection.receive message rest
  | .transmit =>
      match connection.phase, connection.writing, connection.buffer with
      | .connected, none, message :: rest => some (connection.transmit message rest)
      | _, _, _ => none
  | .written succeeds => connection.writing.map fun message => connection.written message succeeds
  | .answer bytes =>
      match connection.phase, connection.writing, connection.buffer, connection.frames with
      | .connected, none, [], frame :: rest =>
          some ({ connection with frames := rest }.reply frame bytes)
      | _, _, _, _ => none
  | .readFails =>
      if connection.phase = .connected ∧ connection.writing = none ∧ connection.buffer = [] then
        some connection.disconnect
      else none

/-- A connection to a peer that answers each frame once and in order. -/
def machine : Machine Connection ConnectionEvent := ⟨new, step⟩

end Connection

end DeflHotstuff
