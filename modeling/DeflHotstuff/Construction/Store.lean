import DeflHotstuff.Construction.Messages

namespace DeflHotstuff

variable [Crypto]

/-- Blocks and batches share the keys of one store. -/
inductive Value where
  | block (block : Block)
  | batch (bytes : List UInt8)

/-- A write puts its entry in front, so a lookup finds the latest one. -/
structure Store where
  entries : List (Digest × Value)

namespace Store

def new : Store := ⟨[]⟩

def write (store : Store) (key : Digest) (value : Value) : Store := ⟨(key, value) :: store.entries⟩

def read (store : Store) (key : Digest) : Option Value := store.entries.lookup key

@[simp] theorem read_new (key : Digest) : new.read key = none := rfl

/-- A write is read under its key alone. -/
theorem read_write (store : Store) (key query : Digest) (value : Value) :
    (store.write key value).read query = if query = key then some value else store.read query := by
  by_cases same : query = key
  · subst same
    simp [read, write]
  · simp [read, write, List.lookup_cons, beq_false_of_ne same, same]

/-- A write removes no key. -/
theorem read_write_isSome (store : Store) (key query : Digest) (value : Value)
    (present : (store.read query).isSome) : ((store.write key value).read query).isSome := by
  rw [read_write]
  split
  · rfl
  · exact present

end Store

/-- What all nodes of one deployment share: the committee, the signature service of each key,
and what `bincode` makes of the bytes of a batch when it reads them as a block. -/
structure Setup where
  committee : Committee
  sign : PublicKey → Digest → Signature
  sign_verifies : ∀ name digest, Crypto.verify name digest (sign name digest) = true
  decodeBatch : List UInt8 → Option Block

/-- The block that `bincode` reads from a stored value. -/
def Setup.decode (setup : Setup) : Value → Option Block
  | .block block => some block
  | .batch bytes => setup.decodeBatch bytes

end DeflHotstuff
