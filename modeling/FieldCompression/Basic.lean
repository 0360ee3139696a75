/-!
# Bytes and resumable reading

Input arrives in chunks of any size, so every reader of the library is *resumable*: it is a value
that records how far it has come, and one call takes a chunk and gives back the reader as it then
stands. `Outcome` is the common shape of such a call, and `Error` lists what it can fail for.

## The numbers

Indices, lengths and sizes are 64-bit quantities on the wire. They are natural numbers here, and
`wordBound` is written out at the few places where exceeding 64 bits is an error of its own. At
all other places a quantity beyond `wordBound` is already refused by the comparison it goes into.
The bits of a byte are taken by shifts of its value, which are multiplications and divisions, so
what a byte holds is arithmetic throughout.
-/

namespace FieldCompression

/-! ## Causes of failure

Everything that can go wrong while fields are decompressed, as one closed list of causes. A cause
carries no data: what is known about the failing input is reported through notes and events, and
a caller only has to tell the causes apart. The text of a cause is its name in the protocol's
vocabulary. -/

/-- Why decompression failed. -/
inductive Error where
  /-- The input ended inside an item that had to be complete. -/
  | bufferTooShort
  /-- A prefixed integer does not fit in 64 bits. -/
  | integerOverflow
  /-- Huffman-coded data holds the end-of-string symbol or is padded wrongly. -/
  | invalidHuffmanEncoding
  /-- A reference to the static table lies outside it. -/
  | invalidStaticTableIndex
  /-- A reference to the dynamic table names no entry that it may use. -/
  | invalidDynamicTableIndex
  /-- A field section, or a string in it, exceeds its size limit. -/
  | headerListTooLarge
  /-- An entry or a capacity exceeds what the dynamic table may hold. -/
  | dynamicTableTooBig
  /-- A field section needs dynamic table entries that have not arrived yet. -/
  | dynamicTableWouldBlock
  /-- A reader was used before it was told what to read. -/
  | invalidState
deriving DecidableEq, Repr

namespace Error

/-- Every cause, in a fixed order. -/
def all : List Error :=
  [bufferTooShort, integerOverflow, invalidHuffmanEncoding, invalidStaticTableIndex,
    invalidDynamicTableIndex, headerListTooLarge, dynamicTableTooBig, dynamicTableWouldBlock,
    invalidState]

/-- The name under which a cause is reported. -/
def name : Error → String
  | bufferTooShort => "BufferTooShort"
  | integerOverflow => "IntegerOverflow"
  | invalidHuffmanEncoding => "InvalidHuffmanEncoding"
  | invalidStaticTableIndex => "InvalidStaticTableIndex"
  | invalidDynamicTableIndex => "InvalidDynamicTableIndex"
  | headerListTooLarge => "HeaderListTooLarge"
  | dynamicTableTooBig => "DynamicTableTooBig"
  | dynamicTableWouldBlock => "DynamicTableWouldBlock"
  | invalidState => "InvalidState"

instance : ToString Error := ⟨name⟩

end Error

/-! ## Octets and calls -/

/-- A sequence of octets. -/
abbrev Bytes := List UInt8

/-- The least number that does not fit in 64 bits. -/
def wordBound : Nat := UInt64.size

/-- The greatest number that fits in 64 bits; as a limit, it limits nothing that can be sent. -/
def maxWord : Nat := wordBound - 1

/-- Whether the bit that counts `2 ^ position` is set in a byte. -/
def flagAt (byte : UInt8) (position : Nat) : Bool := decide (byte.toNat >>> position % 2 = 1)

/-- What one call of a resumable reader did with a chunk. -/
structure Outcome (σ α : Type) where
  /-- The item if it is now complete, nothing if more bytes are needed, or why it failed. -/
  result : Except Error (Option α)
  /-- The reader after the call. A failed call has a state too: what it changed stays changed. -/
  state : σ
  /-- The bytes of the chunk that were not consumed. -/
  rest : Bytes

end FieldCompression
