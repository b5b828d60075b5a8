import DeflHotstuff.Construction.Application
import DeflHotstuff.Library.Schedule
import Mathlib.Logic.Function.Basic

namespace DeflHotstuff

open Verification

/-- The address that a client registered, with its parsed host. -/
structure ClientAddr where
  ip : IpAddr
  port : UInt16
  deriving DecidableEq

namespace SimpleSender

/-- What the task of a connection awaits. A task that returned has dropped its channel. -/
inductive Stage where
  | connecting
  | selecting
  | writing (data : ClientMessage)
  | returned

/-- The task of a connection with the messages in its channel. -/
structure Connection where
  channel : List ClientMessage
  stage : Stage

inductive ConnectionEvent where
  | connect (succeeds : Bool)
  | receive
  | written (succeeds : Bool)
  | response (isOk : Bool)

namespace Connection

def closed (connection : Connection) : Bool :=
  match connection.stage with
  | .returned => true
  | _ => false

/-- The task ends at the first error. An event that it does not await changes nothing. -/
def step (connection : Connection) (event : ConnectionEvent) : Connection :=
  match connection.stage, event with
  | .connecting, .connect succeeds =>
      { connection with stage := if succeeds then .selecting else .returned }
  | .selecting, .receive =>
      match connection.channel with
      | [] => connection
      | data :: rest => ⟨rest, .writing data⟩
  | .selecting, .response isOk =>
      { connection with stage := if isOk then .selecting else .returned }
  | .writing _, .written succeeds =>
      { connection with stage := if succeeds then .selecting else .returned }
  | _, _ => connection

end Connection

end SimpleSender

/-- The connections by address. -/
structure SimpleSender where
  connections : ClientAddr → Option SimpleSender.Connection

namespace SimpleSender

def new : SimpleSender := ⟨fun _ => none⟩

def insert (sender : SimpleSender) (address : ClientAddr) (connection : Connection) :
    SimpleSender :=
  ⟨Function.update sender.connections address (some connection)⟩

/-- A new connection takes the message, unless its task could not connect and returned before. -/
def spawnConnection (sender : SimpleSender) (address : ClientAddr) (data : ClientMessage)
    (refused : Bool) : Bool × SimpleSender :=
  if refused then (false, sender) else (true, sender.insert address ⟨[data], .connecting⟩)

/-- The call returns nothing while it waits for room in the channel of an open connection. -/
def send (sender : SimpleSender) (address : ClientAddr) (data : ClientMessage) (refused : Bool) :
    Option (Bool × SimpleSender) :=
  match sender.connections address with
  | none => some (sender.spawnConnection address data refused)
  | some connection =>
      if connection.closed then some (sender.spawnConnection address data refused)
      else if connection.channel.length < 1000 then
        some (true, sender.insert address
          { connection with channel := connection.channel ++ [data] })
      else none

/-- The task of the connection takes an event. -/
def run (sender : SimpleSender) (address : ClientAddr) (event : ConnectionEvent) : SimpleSender :=
  match sender.connections address with
  | none => sender
  | some connection => sender.insert address (connection.step event)

end SimpleSender

variable [Crypto]

/-- A piece of the work on a block. The host strings are parsed before the messages are sent. -/
inductive Job where
  | read (digest : Digest)
  | transaction (clientTx : List UInt8)
  | respondToClient (clientName : String) (response : Response)
  | respondToAllClient (weights : WeightsResponse)
  | respondToContact (info : SimpleRegisterInfo) (weights : WeightsResponse)
  | send (address : ClientAddr) (data : ClientMessage)

namespace Job

variable (formats : Formats) (store : Store)

/-- The sender after its part in the job. Whether the message went out is only logged. -/
def sending (sender : SimpleSender) (refused : Bool) : Job → Option SimpleSender
  | .send address data => (sender.send address data refused).map Prod.snd
  | _ => some sender

/-- The job with the work that it leads to, or a panic. -/
def perform (application : Application) : Job → Option (Application × List Job)
  | .read digest => (store.read digest).map fun value =>
      match formats.decodeMessage (formats.bytes value) with
      | some (.batch batch) => (application, batch.map .transaction)
      | _ => (application, [])
  | .transaction clientTx => (formats.decodeRequest clientTx).map fun request =>
      let (response, passiveResponse, databanks) := application.databanks.getResponses request
        (formats.newV4 application.drawn) (formats.newV4 (application.drawn + 1))
      ({ application with databanks := databanks, drawn := application.drawn + 2 },
        .respondToClient request.clientName response ::
          passiveResponse.toList.map .respondToAllClient)
  | .respondToClient clientName response =>
      match application.contacts.get clientName with
      | none => some (application, [])
      | some info => (formats.parseIp info.host).map fun ip =>
          (application, [.send ⟨ip, info.port⟩ (.response response)])
  | .respondToAllClient weights =>
      some (application, application.contacts.entries.map fun entry =>
        .respondToContact entry.2 weights)
  | .respondToContact info weights => (formats.parseIp info.pasvHost).map fun ip =>
      (application, [.send ⟨ip, info.pasvPort⟩ (.weights weights)])
  | .send address data => some (application.send address.ip address.port data, [])

end Job

/-- The application loop within a block, with the work that is left. -/
structure Analysis where
  application : Application
  sender : SimpleSender
  jobs : List Job
  panicked : Bool

/-- The loop is polled, the obsido registers a client, or a connection goes on. -/
inductive AnalysisEvent where
  | turn (refused : Bool)
  | register (clientName : String) (info : RegisterInfo)
  | connection (address : ClientAddr) (event : SimpleSender.ConnectionEvent)

namespace Analysis

variable (formats : Formats) (store : Store)

/-- The loop does its next job, or waits in it. -/
def turn (refused : Bool) (analysis : Analysis) : Analysis :=
  match analysis.panicked, analysis.jobs with
  | false, job :: rest =>
      match job.sending analysis.sender refused with
      | none => analysis
      | some sender =>
          match job.perform formats store analysis.application with
          | none => { analysis with panicked := true }
          | some (application, work) => ⟨application, sender, work ++ rest, false⟩
  | _, _ => analysis

def step (analysis : Analysis) : AnalysisEvent → Analysis
  | .turn refused => analysis.turn formats store refused
  | .register clientName info => { analysis with
      application := { analysis.application with
        contacts := analysis.application.contacts.clientRegister clientName info } }
  | .connection address event => { analysis with sender := analysis.sender.run address event }

/-- The loop has a committed block in hand. -/
def schedule (payload : List Digest) (application : Application) (sender : SimpleSender)
    (events : Nat → AnalysisEvent) : Schedule Analysis AnalysisEvent where
  step := step formats store
  initial := ⟨application, sender, payload.map .read, false⟩
  events := events

end Analysis

end DeflHotstuff
