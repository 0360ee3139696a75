import FieldCompression.SectionPrefix

/-!
# Notes

While it works, the library notes what it does, for someone who follows a connection. Notes are
data beside the results: nothing depends on them, and each has one line of text.
-/

namespace FieldCompression

/-- Something that happened during decompression. -/
inductive Note where
  /-- A string announces more octets than its limit allows. -/
  | stringTooLong (length limit : Nat)
  /-- A string exceeds what is left of its section's limit. -/
  | stringTooLarge (used remaining : Nat)
  /-- A field exceeds what is left of its section's limit. -/
  | fieldTooLarge (used size : Nat)
  /-- An indexed field line was read. -/
  | indexed (index : TableIndex) (wireIndex : Nat) (postBase : Bool)
  /-- A field line with a name reference was read. -/
  | nameReference (index : TableIndex) (huffman neverIndexed : Bool) (value : Bytes)
  /-- A field line with a literal name was read. -/
  | literalName (name value : Bytes) (neverIndexed : Bool)
  /-- The prefix of a section was read. -/
  | sectionStarted (sectionPrefix : SectionPrefix)
  /-- Decoding of a section failed. -/
  | sectionAborted (cause : Error)
  /-- A section was declared complete. -/
  | sectionFinished (size : Nat) (result : Except Error SectionPrefix)
  /-- An entry was inserted into the dynamic table. -/
  | inserted (insertCount size : Nat)
  /-- An instruction to insert a field with a referenced name was read. -/
  | insertNameReference (wireIndex : Nat) (fromStatic : Bool) (value : Bytes)
  /-- An instruction to insert a field with a literal name was read. -/
  | insertLiteralName (name value : Bytes)
  /-- An instruction to change the capacity was read. -/
  | setCapacity (capacity : Nat)
  /-- An instruction to insert an entry again was read. -/
  | duplicate (wireIndex : Nat)

namespace Note

/-- The text of a note. -/
def text : Note → String
  | stringTooLong length limit => s!"String too long len={length} max={limit}"
  | stringTooLarge used remaining =>
    s!"String too large for field section used={used} remaining={remaining}"
  | fieldTooLarge used size => s!"Field section too large used={used} size={size}"
  | indexed index wireIndex postBase =>
    s!"Indexed index={index.describe} relative={wireIndex} post_base={postBase}"
  | nameReference index huffman neverIndexed value =>
    s!"LiteralWithNameRef index={index.describe} huffman={huffman} hide={neverIndexed} " ++
      s!"value={Text.checked value}"
  | literalName name value neverIndexed =>
    s!"LiteralWithLiteralName name={Text.checked name} value={Text.checked value} " ++
      s!"hide={neverIndexed}"
  | sectionStarted p => s!"Header count={p.requiredInsertCount} base={p.base}"
  | sectionAborted cause => s!"Field section aborted err={cause.name}"
  | sectionFinished size result =>
    let outcome :=
      match result with
      | .ok p => s!"Ok({p.describe})"
      | .error cause => s!"Err({cause.name})"
    s!"Field section finished size={size} res={outcome}"
  | inserted insertCount size => s!"Insert insert_cnt={insertCount} size={size}"
  | insertNameReference wireIndex fromStatic value =>
    s!"InsertWithNameRef index={wireIndex} static={fromStatic} value={Text.numbers value}"
  | insertLiteralName name value =>
    s!"InsertWithLiteralName name={Text.numbers name} value={Text.numbers value}"
  | setCapacity capacity => s!"SetDynamicTableCapacity size={capacity}"
  | duplicate wireIndex => s!"Duplicate index={wireIndex}"

end Note

end FieldCompression
