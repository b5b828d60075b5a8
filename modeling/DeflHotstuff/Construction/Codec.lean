import DeflHotstuff.Library.Framing
import DeflHotstuff.Library.Machine

namespace DeflHotstuff

open Verification

namespace LengthDelimitedCodec

/-- The bytes of a message on the wire. A length that does not fit raises an `OverflowError`. -/
def asyncLengthDelimitedSend (lengthFieldLength : Nat) (data : List UInt8) : Option (List UInt8) :=
  if data.length < 256 ^ lengthFieldLength then
    some (bigEndian lengthFieldLength data.length ++ data)
  else none

end LengthDelimitedCodec

/-- Which of its two reads `async_length_delimited_recv` is in. -/
inductive Reading where
  | length
  | payload (length : Nat)

/-- A stream reader with the coroutine that receives one message after the other. An error of a
read that meets the end of the stream keeps what was left. -/
structure CodecReader where
  buffer : List UInt8
  eof : Bool
  reading : Reading
  received : List (List UInt8)
  incomplete : Option (List UInt8)

inductive CodecEvent where
  | feedData (chunk : List UInt8)
  | feedEof
  | resume

namespace CodecReader

variable (lengthFieldLength : Nat)

def new : CodecReader := ⟨[], false, .length, [], none⟩

/-- The number of bytes that the read waits for. -/
def expected (reader : CodecReader) : Nat :=
  match reader.reading with
  | .length => lengthFieldLength
  | .payload length => length

/-- A read that has its bytes completes. -/
def complete (reader : CodecReader) (bytes : List UInt8) : CodecReader :=
  match reader.reading with
  | .length => { reader with reading := .payload (ofBigEndian bytes) }
  | .payload _ => { reader with reading := .length, received := reader.received ++ [bytes] }

/-- `readexactly` returns once the buffer holds enough bytes, or raises at the end of the stream. -/
def resume (reader : CodecReader) : Option CodecReader :=
  let count := reader.expected lengthFieldLength
  if reader.incomplete.isSome then none
  else if count ≤ reader.buffer.length then
    some ({ reader with buffer := reader.buffer.drop count }.complete (reader.buffer.take count))
  else if reader.eof then some { reader with buffer := [], incomplete := some reader.buffer }
  else none

/-- The transport feeds the bytes in chunks, before, between and after the reads. -/
def step (reader : CodecReader) : CodecEvent → Option CodecReader
  | .feedData chunk =>
      if reader.eof then none else some { reader with buffer := reader.buffer ++ chunk }
  | .feedEof => some { reader with eof := true }
  | .resume => reader.resume lengthFieldLength

def machine : Machine CodecReader CodecEvent := ⟨new, step lengthFieldLength⟩

end CodecReader

/-- The bytes that the events feed. -/
def CodecEvent.fed : CodecEvent → List UInt8
  | .feedData chunk => chunk
  | .feedEof => []
  | .resume => []

end DeflHotstuff
