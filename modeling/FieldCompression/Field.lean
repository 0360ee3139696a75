import FieldCompression.Text

/-!
# Fields

A field is a name and a value, both octets. Its size counts towards the limits of the dynamic
table and of a field section, and it includes an overhead for what an implementation stores
beside the octets (RFC 9204, section 3.2.1).
-/

namespace FieldCompression

/-! ## Names with values -/

/-- The size of a field beyond its octets. -/
def fieldOverhead : Nat := 32

/-- A name with a value. -/
structure Field where
  /-- The name. -/
  name : Bytes
  /-- The value. -/
  value : Bytes
deriving DecidableEq, Repr, Inhabited

namespace Field

/-- The octets of the name and of the value, and the overhead. -/
def size (f : Field) : Nat := f.name.length + f.value.length + fieldOverhead

theorem fieldOverhead_le_size (f : Field) : fieldOverhead ≤ f.size := Nat.le_add_left _ _

/-- The field in one line of ASCII, in quotation marks. -/
def describe (f : Field) : String := s!"\"{Text.plain f.name}: {Text.plain f.value}\""

end Field

/-- The sum of the sizes of some fields. -/
def totalSize : List Field → Nat
  | [] => 0
  | field :: rest => field.size + totalSize rest

/-- A list of fields in one line of ASCII. -/
def describeFields (fields : List Field) : String :=
  "HeaderList \x7b headers: [" ++ ", ".intercalate (fields.map Field.describe) ++ "] \x7d"

/-! ## The size of a field section

The sizes of the fields of a section add up to the size of the section, which has a limit. A field
that would exceed the limit is refused and leaves the sum as it was. -/

/-- The sum of the sizes of the fields so far, and its limit. -/
structure SectionSize where
  /-- The greatest sum allowed. -/
  limit : Nat
  /-- The sum so far. -/
  used : Nat := 0
deriving DecidableEq, Repr

namespace SectionSize

/-- What is left of the limit. -/
def remaining (s : SectionSize) : Nat := s.limit - s.used

/-- Counts a field of the given size, unless the sum would exceed its limit. -/
def add (s : SectionSize) (size : Nat) : Except Error SectionSize :=
  if s.used + size ≤ s.limit then .ok { s with used := s.used + size }
  else .error .headerListTooLarge

/-- No field so far, under the same limit. -/
def reset (s : SectionSize) : SectionSize := { limit := s.limit }

end SectionSize

/-! ## References to table entries

An entry is named by the table it is in and its *absolute* index there. In the static table that
is its position; in the dynamic table it is the number of entries inserted before it, so it never
changes and is never used again.

Field sections read the dynamic table and do not change it. `TableView` is all they can see of
it, so that what a section decodes to can be stated for any table, whatever its history. -/

/-- The table and the absolute index of an entry. -/
inductive TableIndex where
  /-- An entry of the static table. -/
  | static (index : Nat)
  /-- An entry of the dynamic table. -/
  | dynamic (index : Nat)
deriving DecidableEq, Repr

namespace TableIndex

/-- The index without the table. -/
def absolute : TableIndex → Nat
  | static index | dynamic index => index

/-- Whether the entry is in the static table. -/
def isStatic : TableIndex → Bool
  | static _ => true
  | dynamic _ => false

/-- The reference in one line. -/
def describe : TableIndex → String
  | static index => s!"Static({index})"
  | dynamic index => s!"Dynamic({index})"

end TableIndex

/-- What a field section sees of a dynamic table.

A look-up can fail in one way only: no live entry has the index. It is then `none`, and the line
that asked for the entry fails with `Error.invalidDynamicTableIndex`. A table that reports any other
cause for an entry that it does not give has no view.

The two numbers have no bound of their own; `SectionPrefix.reconstruct`, which computes with them,
says how far they can stand for words of 64 bits. -/
structure TableView where
  /-- The live entry with an absolute index, if there is one. -/
  get? : Nat → Option Field
  /-- The number of insertions so far. -/
  insertCount : Nat
  /-- The greatest number of entries that fit in the table, at its greatest capacity. -/
  maxEntries : Nat

/-- The view of a table with the given entries and their absolute indices. -/
def TableView.ofEntries (insertCount maxEntries : Nat) (entries : List (Nat × Field)) :
    TableView where
  get? index := entries.lookup index
  insertCount := insertCount
  maxEntries := maxEntries

end FieldCompression
