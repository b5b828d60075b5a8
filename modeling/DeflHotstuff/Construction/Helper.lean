import DeflHotstuff.Construction.Store
import DeflHotstuff.Library.Handler

namespace DeflHotstuff

open Verification

variable [Crypto]

/-- A reply of the helper with the digest that it answers, which it does not send. -/
structure Reply where
  requested : Digest
  address : SocketAddr
  message : ConsensusMessage

/-- The helper of the consensus keeps nothing but what it sent. -/
structure Helper where
  network : List Reply

/-- A sync request with the content of the store when the helper reads it. -/
structure SyncRequest where
  store : Store
  digest : Digest
  origin : PublicKey

namespace Helper

variable (setup : Setup)

def new : Helper := ⟨[]⟩

/-- The helper takes whatever is stored under the digest for a block. -/
def answer (request : SyncRequest) : Handler Helper ConsensusError Unit :=
  match setup.committee.address request.origin with
  | none => return ()
  | some address =>
      match request.store.read request.digest with
      | none => return ()
      | some value =>
          match setup.decode value with
          | none => Handler.crash "Failed to deserialize our own block"
          | some block => Handler.update fun helper =>
              ⟨helper.network ++ [⟨request.digest, address, .propose block⟩]⟩

def run : List SyncRequest → Handler Helper ConsensusError Unit
  | [] => return ()
  | request :: rest => do
      answer setup request
      run rest

end Helper

end DeflHotstuff
