import FieldCompression.FieldLine

/-!
# Readers that are overwritten in place

A reader is a value, and to start over is to take another value. Where a reader is instead one set
of fields for the life of a connection, to start over is to clear these fields one by one, and a
field that is forgotten carries something of one section into the next: a limit, a flag, half a
codeword. Such a mistake shows only after a section that was interrupted at the right place.

A *storage* is such a set of fields. It has all the fields at all times, and `reader` says which
reader they stand for. A field that the present stage does not use can hold anything. So every
theorem here is about fields with any contents: clearing them gives new ones, configuring them gives
what configuring new ones gives, and what that stands for is the reader that the library starts
with. In the other direction `exists_reader` finds fields for every reader.
-/

namespace FieldCompression

open FieldLine

/-! ## Integers -/

namespace PrefixedInteger

/-- Which part of an integer is read next. -/
inductive Stage where
  /-- None: no integer is expected. -/
  | unconfigured
  /-- The first byte. -/
  | first
  /-- A continuation byte. -/
  | continuation
  /-- None: the integer is complete. -/
  | done
deriving DecidableEq, Repr

/-- The fields of an integer reader. -/
structure Storage where
  /-- Which part is read next. -/
  stage : Stage := .unconfigured
  /-- The number of bits of prefix. -/
  bits : Nat := 0
  /-- What the bytes so far add up to. -/
  value : Nat := 0
  /-- The next digit counts `2 ^ shift`. -/
  shift : Nat := 0
deriving DecidableEq, Repr

namespace Storage

/-- The reader that the fields stand for. -/
def reader (x : Storage) : Reader :=
  match x.stage with
  | .unconfigured => .unconfigured
  | .first => .start x.bits
  | .continuation => .continuation x.value x.shift
  | .done => .done x.value

/-- Sets the fields for an integer with a prefix of `bits` bits. -/
def configure (x : Storage) (bits : Nat) : Storage :=
  { x with stage := .first, bits := bits, value := 0, shift := 0 }

/-- Clears the fields. -/
def reset (x : Storage) : Storage :=
  { x with stage := .unconfigured, bits := 0, value := 0, shift := 0 }

theorem configure_eq (x : Storage) (bits : Nat) :
    x.configure bits = ({} : Storage).configure bits := rfl

theorem reader_configure (x : Storage) (bits : Nat) : (x.configure bits).reader = .start bits := rfl

theorem reset_eq (x : Storage) : x.reset = {} := rfl

theorem exists_reader (r : Reader) : ∃ x : Storage, x.reader = r := by
  cases r with
  | unconfigured => exact ⟨{}, rfl⟩
  | start bits => exact ⟨{ stage := .first, bits }, rfl⟩
  | continuation value shift => exact ⟨{ stage := .continuation, value, shift }, rfl⟩
  | done value => exact ⟨{ stage := .done, value }, rfl⟩

end Storage

end PrefixedInteger

/-! ## Strings -/

namespace StringLiteral

/-- Which part of a string is read next. -/
inductive Stage where
  /-- None: no string is expected. -/
  | unconfigured
  /-- The flag. -/
  | flag
  /-- The length. -/
  | length
  /-- The payload. -/
  | payload
  /-- None: the string is complete. -/
  | done
deriving DecidableEq, Repr

/-- The fields of a string reader. -/
structure Storage where
  /-- Which part is read next. -/
  stage : Stage := .unconfigured
  /-- The number of bits of the prefix of the length. -/
  bits : Nat := 0
  /-- The greatest length of the content. -/
  limit : Nat := maxWord
  /-- Whether the payload is Huffman-coded. -/
  huffman : Bool := false
  /-- The octets of the payload that are missing. -/
  remaining : Nat := 0
  /-- The octets of content that have been counted. -/
  decoded : Nat := 0
  /-- The reader of the length. -/
  length : PrefixedInteger.Storage := {}
  /-- The position within the code. -/
  decoder : Huffman.Decoder := {}
deriving DecidableEq, Repr

namespace Storage

/-- The reader that the fields stand for. -/
def reader (x : Storage) : Reader where
  phase :=
    match x.stage with
    | .unconfigured => .unconfigured
    | .flag => .flag x.bits
    | .length => .length x.length.reader
    | .payload => .payload x.remaining x.decoded x.decoder
    | .done => .done
  huffman := x.huffman
  limit := x.limit

/-- Clears the fields. -/
def reset (x : Storage) : Storage :=
  { x with
    stage := .unconfigured, bits := 0, limit := maxWord, huffman := false, remaining := 0
    decoded := 0, length := x.length.reset, decoder := {} }

/-- Sets the fields for a string whose length has a prefix of `bits` bits. -/
def configure (x : Storage) (bits : Nat) : Storage :=
  { x.reset with stage := .flag, bits := bits }

theorem reset_eq (x : Storage) : x.reset = {} := by
  rw [reset, x.length.reset_eq]

theorem configure_eq (x : Storage) (bits : Nat) :
    x.configure bits = ({} : Storage).configure bits := by
  rw [configure, configure, reset_eq, reset_eq]

theorem reader_configure (x : Storage) (bits : Nat) : (x.configure bits).reader = .start bits := rfl

theorem exists_reader (r : Reader) : ∃ x : Storage, x.reader = r := by
  obtain ⟨phase, huffman, limit⟩ := r
  cases phase with
  | unconfigured => exact ⟨{ huffman, limit }, rfl⟩
  | flag bits => exact ⟨{ stage := .flag, bits, huffman, limit }, rfl⟩
  | length int =>
    obtain ⟨length, rfl⟩ := PrefixedInteger.Storage.exists_reader int
    exact ⟨{ stage := .length, length, huffman, limit }, rfl⟩
  | payload remaining decoded decoder =>
    exact ⟨{ stage := .payload, remaining, decoded, decoder, huffman, limit }, rfl⟩
  | done => exact ⟨{ stage := .done, huffman, limit }, rfl⟩

end Storage

end StringLiteral

/-! ## The prefix of a section -/

namespace PrefixedInteger.Reader

private theorem isStarted_readContinuation (value shift : Nat) (input : Bytes) :
    (readContinuation value shift input).state.isStarted = true := by
  induction input generalizing value shift with
  | nil => rfl
  | cons byte rest ih =>
    simp only [readContinuation]
    split
    · rfl
    · split
      · rfl
      · exact ih _ _

/-- A reader that waits for its first byte goes on waiting, or has started. -/
theorem isStarted_read {r : Reader} {bits : Nat} (h : r = start bits ∨ r.isStarted = true)
    (input : Bytes) :
    (r.read input).state = start bits ∨ (r.read input).state.isStarted = true := by
  cases r with
  | unconfigured => exact absurd h (by simp [isStarted])
  | start b =>
    cases input with
    | nil => exact h
    | cons byte rest =>
      right
      simp only [read]
      split
      · rfl
      · exact isStarted_readContinuation _ _ _
  | continuation value shift => exact .inr (isStarted_readContinuation _ _ _)
  | done value => exact .inr rfl

end PrefixedInteger.Reader

namespace SectionPrefix

/-- Which part of a prefix is read next. -/
inductive Stage where
  /-- The encoded Required Insert Count. -/
  | insertCount
  /-- The sign of the distance. -/
  | sign
  /-- The distance. -/
  | delta
  /-- None: the prefix is complete. -/
  | done
deriving DecidableEq, Repr

/-- The fields of a prefix reader. -/
structure Storage where
  /-- Which part is read next. -/
  stage : Stage := .insertCount
  /-- The reader of both numbers. -/
  int : PrefixedInteger.Storage := {}
  /-- The Required Insert Count. -/
  requiredInsertCount : Nat := 0
  /-- The sign. -/
  negative : Bool := false
  /-- The prefix. -/
  value : SectionPrefix := {}
deriving DecidableEq, Repr

namespace Storage

/-- The reader that the fields stand for. The integer is configured when the first byte is
about to be read, so until then its fields are not in use. -/
def reader (x : Storage) : Reader :=
  match x.stage with
  | .insertCount => .insertCount (if x.int.reader.isStarted then x.int.reader else .start 8)
  | .sign => .sign x.requiredInsertCount
  | .delta => .delta x.requiredInsertCount x.negative x.int.reader
  | .done => .done x.value

/-- Clears the fields. -/
def reset (x : Storage) : Storage :=
  { x with
    stage := .insertCount, int := x.int.reset, requiredInsertCount := 0, negative := false
    value := {} }

theorem reset_eq (x : Storage) : x.reset = {} := by
  rw [reset, x.int.reset_eq]

end Storage

/-- The readers that fields can stand for. -/
def Reader.Storable : Reader → Prop
  | .insertCount int => int = .start 8 ∨ int.isStarted = true
  | .sign .. | .delta .. | .done .. => True

theorem Reader.storable_readDelta (count : Nat) (negative : Bool) (int : PrefixedInteger.Reader)
    (input : Bytes) : (readDelta count negative int input).state.Storable := by
  simp only [readDelta]
  split
  · trivial
  · trivial
  · split <;> trivial

private theorem Reader.storable_readSign (count : Nat) (input : Bytes) :
    (readSign count input).state.Storable := by
  cases input with
  | nil => trivial
  | cons byte rest => exact storable_readDelta _ _ _ _

theorem Reader.Storable.read {r : Reader} (h : r.Storable) (table : TableView) (input : Bytes) :
    (r.read table input).state.Storable := by
  cases r with
  | insertCount int =>
    have hint := PrefixedInteger.Reader.isStarted_read h input
    simp only [Reader.read]
    split
    · exact hint
    · exact hint
    · split
      · exact hint
      · exact storable_readSign _ _
  | sign count => exact storable_readSign _ _
  | delta count negative int => exact storable_readDelta _ _ _ _
  | done value => trivial

theorem Storage.exists_reader {r : Reader} (h : r.Storable) : ∃ x : Storage, x.reader = r := by
  cases r with
  | insertCount int =>
    rcases h with rfl | hstarted
    · exact ⟨{}, rfl⟩
    · obtain ⟨x, rfl⟩ := PrefixedInteger.Storage.exists_reader int
      exact ⟨{ int := x }, congrArg Reader.insertCount (if_pos hstarted)⟩
  | sign count => exact ⟨{ stage := .sign, requiredInsertCount := count }, rfl⟩
  | delta count negative int =>
    obtain ⟨x, rfl⟩ := PrefixedInteger.Storage.exists_reader int
    exact ⟨{ stage := .delta, requiredInsertCount := count, negative, int := x }, rfl⟩
  | done value => exact ⟨{ stage := .done, value }, rfl⟩

end SectionPrefix

/-! ## Field lines -/

namespace FieldLine

/-- The way to refer that two flags stand for. -/
def addressingOf (isStatic isPostBase : Bool) : Addressing :=
  if isStatic then .static else if isPostBase then .postBase else .relative

/-- The fields of a reader for lines that are an entry. -/
structure IndexedStorage where
  /-- Whether the index is a position in the static table. -/
  isStatic : Bool := false
  /-- Whether the index counts forward from the Base. -/
  isPostBase : Bool := false
  /-- The reader of the index. -/
  index : PrefixedInteger.Storage := {}
deriving DecidableEq, Repr

namespace IndexedStorage

/-- The reader that the fields stand for. -/
def reader (x : IndexedStorage) : Reader :=
  .entryIndex (addressingOf x.isStatic x.isPostBase) x.index.reader

/-- Sets the fields for a line that begins with the given byte. -/
def configure (x : IndexedStorage) (first : UInt8) : IndexedStorage :=
  { x with isStatic := flagAt first 6, isPostBase := false, index := x.index.configure 6 }

/-- Sets the fields for a line whose index counts forward from the Base. -/
def configurePostBase (x : IndexedStorage) : IndexedStorage :=
  { x with isStatic := false, isPostBase := true, index := x.index.configure 4 }

/-- Clears the fields. -/
def reset (x : IndexedStorage) : IndexedStorage :=
  { x with isStatic := false, isPostBase := false, index := x.index.reset }

theorem reset_eq (x : IndexedStorage) : x.reset = {} := by
  rw [reset, x.index.reset_eq]

theorem configure_eq (x : IndexedStorage) (first : UInt8) :
    x.configure first = ({} : IndexedStorage).configure first := by
  rw [configure, configure, x.index.configure_eq]

theorem configurePostBase_eq (x : IndexedStorage) :
    x.configurePostBase = ({} : IndexedStorage).configurePostBase := by
  rw [configurePostBase, configurePostBase, x.index.configure_eq]

theorem reader_configure (x : IndexedStorage) (first : UInt8) :
    (x.configure first).reader = .indexed first := rfl

theorem reader_configurePostBase (x : IndexedStorage) :
    x.configurePostBase.reader = .indexedPostBase := rfl

end IndexedStorage

/-- Which part of a line with a name reference is read next. -/
inductive NameReferenceStage where
  /-- The index. -/
  | index
  /-- The value. -/
  | value
deriving DecidableEq, Repr

/-- The fields of a reader for lines with a name reference. -/
structure NameReferenceStorage where
  /-- Which part is read next. -/
  stage : NameReferenceStage := .index
  /-- Whether the index is a position in the static table. -/
  isStatic : Bool := false
  /-- Whether the index counts forward from the Base. -/
  isPostBase : Bool := false
  /-- Whether the field must not be added to a table. -/
  neverIndexed : Bool := false
  /-- The index, once it has been read. -/
  nameIndex : Nat := 0
  /-- The reader of the index. -/
  index : PrefixedInteger.Storage := {}
  /-- The reader of the value. -/
  string : StringLiteral.Storage := {}
  /-- What there is of the value. -/
  value : Bytes := []
deriving DecidableEq, Repr

namespace NameReferenceStorage

/-- The reader that the fields stand for. -/
def reader (x : NameReferenceStorage) : Reader :=
  match x.stage with
  | .index => .nameIndex (addressingOf x.isStatic x.isPostBase) x.neverIndexed x.index.reader
  | .value =>
    .nameValue (addressingOf x.isStatic x.isPostBase) x.neverIndexed x.nameIndex x.string.reader
      x.value

/-- Clears the fields. -/
def reset (x : NameReferenceStorage) : NameReferenceStorage :=
  { x with
    stage := .index, isStatic := false, isPostBase := false, neverIndexed := false, nameIndex := 0
    index := x.index.reset, string := x.string.reset, value := [] }

/-- Sets the fields for a line that begins with the given byte. -/
def configure (x : NameReferenceStorage) (first : UInt8) : NameReferenceStorage :=
  { x.reset with
    neverIndexed := flagAt first 5, isStatic := flagAt first 4, index := x.reset.index.configure 4 }

/-- Sets the fields for a line whose index counts forward from the Base. -/
def configurePostBase (x : NameReferenceStorage) (first : UInt8) : NameReferenceStorage :=
  { x.reset with
    neverIndexed := flagAt first 3, isPostBase := true, index := x.reset.index.configure 3 }

theorem reset_eq (x : NameReferenceStorage) : x.reset = {} := by
  rw [reset, x.index.reset_eq, x.string.reset_eq]

theorem configure_eq (x : NameReferenceStorage) (first : UInt8) :
    x.configure first = ({} : NameReferenceStorage).configure first := by
  rw [configure, configure, reset_eq, reset_eq]

theorem configurePostBase_eq (x : NameReferenceStorage) (first : UInt8) :
    x.configurePostBase first = ({} : NameReferenceStorage).configurePostBase first := by
  rw [configurePostBase, configurePostBase, reset_eq, reset_eq]

theorem reader_configure (x : NameReferenceStorage) (first : UInt8) :
    (x.configure first).reader = .nameReference first := rfl

theorem reader_configurePostBase (x : NameReferenceStorage) (first : UInt8) :
    (x.configurePostBase first).reader = .nameReferencePostBase first := rfl

end NameReferenceStorage

/-- Which part of a line that gives its name is read next. -/
inductive LiteralNameStage where
  /-- The name. -/
  | name
  /-- The value. -/
  | value
deriving DecidableEq, Repr

/-- The fields of a reader for lines that give their name. One string reader serves for the name
and for the value. -/
structure LiteralNameStorage where
  /-- Which part is read next. -/
  stage : LiteralNameStage := .name
  /-- Whether the field must not be added to a table. -/
  neverIndexed : Bool := false
  /-- Whether the name was Huffman-coded. -/
  nameHuffman : Bool := false
  /-- What there is of the name. -/
  name : Bytes := []
  /-- The reader of both strings. -/
  string : StringLiteral.Storage := {}
  /-- What there is of the value. -/
  value : Bytes := []
deriving DecidableEq, Repr

namespace LiteralNameStorage

/-- The reader that the fields stand for. -/
def reader (x : LiteralNameStorage) : Reader :=
  match x.stage with
  | .name => .literalName x.neverIndexed x.string.reader x.name
  | .value => .literalValue x.neverIndexed ⟨x.nameHuffman, x.name⟩ x.string.reader x.value

/-- Clears the fields. -/
def reset (x : LiteralNameStorage) : LiteralNameStorage :=
  { x with
    stage := .name, neverIndexed := false, nameHuffman := false, name := []
    string := x.string.reset, value := [] }

/-- Sets the fields for a line that begins with the given byte. -/
def configure (x : LiteralNameStorage) (first : UInt8) : LiteralNameStorage :=
  { x.reset with neverIndexed := flagAt first 4, string := x.reset.string.configure 3 }

theorem reset_eq (x : LiteralNameStorage) : x.reset = {} := by
  rw [reset, x.string.reset_eq]

theorem configure_eq (x : LiteralNameStorage) (first : UInt8) :
    x.configure first = ({} : LiteralNameStorage).configure first := by
  rw [configure, configure, reset_eq, reset_eq]

theorem reader_configure (x : LiteralNameStorage) (first : UInt8) :
    (x.configure first).reader = .literal first := rfl

end LiteralNameStorage

/-- The forms of a line, as its first byte tells them apart. -/
inductive Form where
  /-- An entry, counted in the static table or back from the Base. -/
  | indexed
  /-- An entry, counted forward from the Base. -/
  | indexedPostBase
  /-- A name reference, counted in the static table or back from the Base. -/
  | nameReference
  /-- A name reference, counted forward from the Base. -/
  | nameReferencePostBase
  /-- A name that is given. -/
  | literalName
deriving DecidableEq, Repr

/-- The form of the line that a byte begins. -/
def Form.ofByte (first : UInt8) : Form :=
  if 0b10000000 ≤ first.toNat then indexed
  else if 0b01000000 ≤ first.toNat then nameReference
  else if 0b00100000 ≤ first.toNat then literalName
  else if 0b00010000 ≤ first.toNat then indexedPostBase
  else nameReferencePostBase

theorem exists_addressing (addressing : Addressing) :
    ∃ isStatic isPostBase, addressingOf isStatic isPostBase = addressing := by
  cases addressing with
  | static => exact ⟨true, false, rfl⟩
  | relative => exact ⟨false, false, rfl⟩
  | postBase => exact ⟨false, true, rfl⟩

/-- The reader for a line of a form, which begins with the given byte. -/
def Form.reader (first : UInt8) : Form → Reader
  | indexed => .indexed first
  | indexedPostBase => .indexedPostBase
  | nameReference => .nameReference first
  | nameReferencePostBase => .nameReferencePostBase first
  | literalName => .literal first

theorem Form.reader_ofByte (first : UInt8) :
    (Form.ofByte first).reader first = Reader.ofByte first := by
  rw [Form.ofByte, Reader.ofByte]
  split
  · rfl
  split
  · rfl
  split
  · rfl
  split
  · rfl
  · rfl

end FieldLine

end FieldCompression
