import DeflHotstuff.Construction.Databank
import DeflHotstuff.Construction.Mempool

namespace DeflHotstuff

open Verification

/-- The octets of an address. -/
structure IpAddr where
  octets : List UInt8
  deriving DecidableEq

structure RegisterInfo where
  host : String
  port : Int
  pasvHost : String
  pasvPort : Int

structure SimpleRegisterInfo where
  host : String
  port : UInt16
  pasvHost : String
  pasvPort : UInt16

/-- The conversion keeps the low bits of the ports and the host strings as they are. -/
def RegisterInfo.into (info : RegisterInfo) : SimpleRegisterInfo :=
  ⟨info.host, UInt16.ofInt info.port, info.pasvHost, UInt16.ofInt info.pasvPort⟩

/-- The registered clients by name. -/
structure Contacts where
  entries : List (String × SimpleRegisterInfo)

namespace Contacts

def new : Contacts := ⟨[]⟩

def get (contacts : Contacts) (clientName : String) : Option SimpleRegisterInfo :=
  contacts.entries.lookup clientName

def clientRegister (contacts : Contacts) (clientName : String) (info : RegisterInfo) : Contacts :=
  ⟨(clientName, info.into) :: contacts.entries.filter fun entry => entry.1 ≠ clientName⟩

end Contacts

inductive ClientMessage where
  | response (response : Response)
  | weights (weights : WeightsResponse)

inductive RespondError where
  | registrationError (clientName : String)

variable [Crypto]

/-- The formats that `prost`, `bincode`, the address parser and the identifiers come in. -/
structure Formats where
  decodeRequest : List UInt8 → Option ClientRequest
  decodeMessage : List UInt8 → Option MempoolMessage
  serializeBlock : Block → List UInt8
  parseIp : String → Option IpAddr
  newV4 : Nat → String

/-- The bytes of a stored value. -/
def Formats.bytes (formats : Formats) : Value → List UInt8
  | .block block => formats.serializeBlock block
  | .batch bytes => bytes

/-- A client's transaction goes to the batch maker when it decodes. -/
def TxReceiverHandler.dispatch (formats : Formats) (message : List UInt8) :
    Option (List UInt8) × String :=
  match formats.decodeRequest message with
  | some _ => (some message, "Ack")
  | none => (none, "Invalid CLIENT Transaction")

/-- Where a message of another mempool goes. -/
inductive MempoolRoute where
  | processor (serialized : List UInt8)
  | helper (missing : List Digest) (requestor : PublicKey)
  | warning

/-- A peer's batch goes to the processor whatever its transactions are. -/
def MempoolReceiverHandler.dispatch (formats : Formats) (serialized : List UInt8) : MempoolRoute :=
  match formats.decodeMessage serialized with
  | some (.batch _) => .processor serialized
  | some (.batchRequest missing requestor) => .helper missing requestor
  | none => .warning

/-- The batches that the mempool of a node stores: own ones of received transactions and those
of the peers. -/
inductive Passed (formats : Formats) : List UInt8 → Prop
  | own (serialized : List UInt8) (batch : List (List UInt8))
      (isBatch : formats.decodeMessage serialized = some (.batch batch))
      (received : ∀ transaction ∈ batch,
        (TxReceiverHandler.dispatch formats transaction).1 = some transaction) :
      Passed formats serialized
  | peer (serialized : List UInt8)
      (received : MempoolReceiverHandler.dispatch formats serialized = .processor serialized) :
      Passed formats serialized

/-- The state of the application loop with the messages that it handed to the network. -/
structure Application where
  databanks : Databanks
  contacts : Contacts
  network : List (IpAddr × UInt16 × ClientMessage)
  drawn : Nat

abbrev ApplicationTask := Handler Application RespondError

namespace Application

variable (formats : Formats)

/-- The message is with the sender, which may have made the loop wait before it took it. -/
def send (ip : IpAddr) (port : UInt16) (message : ClientMessage) (node : Application) :
    Application :=
  { node with network := node.network ++ [(ip, port, message)] }

/-- The host string of the client is parsed only here. -/
def respondToClient (clientName : String) (response : Response) : ApplicationTask Unit := do
  let node ← Handler.read
  match node.contacts.get clientName with
  | none => Handler.raise (.registrationError clientName)
  | some info =>
      match formats.parseIp info.host with
      | none => Handler.crash "called Result::unwrap() on an Err value"
      | some ip => Handler.update (send ip info.port (.response response))

def respondToContacts (weights : WeightsResponse) :
    List (String × SimpleRegisterInfo) → ApplicationTask Unit
  | [] => return ()
  | (_, info) :: rest =>
      match formats.parseIp info.pasvHost with
      | none => Handler.crash "called Result::unwrap() on an Err value"
      | some ip => do
          Handler.update (send ip info.pasvPort (.weights weights))
          respondToContacts weights rest

def respondToAllClient (weights : WeightsResponse) : ApplicationTask Unit := do
  let node ← Handler.read
  respondToContacts formats weights node.contacts.entries

/-- An error of the response to the client is only logged. -/
def analyzeTransaction (clientTx : List UInt8) : ApplicationTask Unit :=
  match formats.decodeRequest clientTx with
  | none => Handler.crash "Failed to decode client request."
  | some request => do
      let node ← Handler.read
      let (response, passiveResponse, databanks) := node.databanks.getResponses request
        (formats.newV4 node.drawn) (formats.newV4 (node.drawn + 1))
      Handler.update fun node => { node with databanks := databanks, drawn := node.drawn + 2 }
      Handler.logged (respondToClient formats request.clientName response)
      match passiveResponse with
      | none => return ()
      | some weights => respondToAllClient formats weights

def analyzeBatch : List (List UInt8) → ApplicationTask Unit
  | [] => return ()
  | clientTx :: rest => do
      analyzeTransaction formats clientTx
      analyzeBatch rest

/-- A stored value that is no batch is passed over. -/
def analyzeMessage : Option MempoolMessage → ApplicationTask Unit
  | some (.batch batch) => analyzeBatch formats batch
  | _ => return ()

/-- The payload of one committed block. -/
def analyzeBlock (store : Store) : List Digest → ApplicationTask Unit
  | [] => return ()
  | digest :: rest =>
      match store.read digest with
      | none => Handler.crash "Digest not in block_store."
      | some value => do
          analyzeMessage formats (formats.decodeMessage (formats.bytes value))
          analyzeBlock store rest

/-- The blocks that the commit channel brings, one after the other. -/
def analyzeBlocks (store : Store) : List Block → ApplicationTask Unit
  | [] => return ()
  | block :: rest =>
      if block.payload.isEmpty then analyzeBlocks store rest
      else do
        analyzeBlock formats store block.payload
        analyzeBlocks store rest

end Application

end DeflHotstuff
