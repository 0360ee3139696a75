import FieldCompression.Note

/-!
# The dynamic table

A queue of fields. New entries come in at one end, and when room is needed the oldest entries go
at the other (RFC 9204, section 3.2). Three numbers bound it: the sum of the entries' sizes stays
within the *capacity*, which the peer sets, and the capacity stays within a *greatest capacity*,
which is fixed.

## Indices

The table counts the entries ever inserted and the entries ever evicted. The absolute index of an
entry is the number of insertions before it, so the live entries have the indices from `evicted`
up to, and without, `insertCount`. Instructions count back from the latest insertion instead.

## Kept numbers

`size`, `evicted` and `insertCount` are kept and not computed from the entries. Eviction subtracts
from the size and it fails on an empty table; that a table built by the operations of this module
never comes to that is a fact about them, and no operation assumes it. A failed operation gives
the table as it leaves it.
-/

namespace FieldCompression

/-- A dynamic table, with the octets of an instruction that has not arrived completely. -/
structure DynamicTable where
  /-- The live entries, oldest first. -/
  entries : List Field := []
  /-- The number of entries ever inserted. -/
  insertCount : Nat := 0
  /-- The number of entries ever evicted. -/
  evicted : Nat := 0
  /-- The sum of the sizes of the live entries. -/
  size : Nat := 0
  /-- The greatest size at present. -/
  capacity : Nat := 0
  /-- The greatest capacity. -/
  maxCapacity : Nat
  /-- The beginning of an instruction whose end is still to come. -/
  pending : Bytes := []
deriving DecidableEq, Repr

namespace DynamicTable

/-- What an operation did to a table. -/
structure Update where
  /-- Whether the operation succeeded. -/
  result : Except Error Unit
  /-- The table afterwards, also after a failure. -/
  table : DynamicTable
  /-- What the operation noted. -/
  notes : List Note := []

/-- An empty table of capacity zero. Greatest capacities have at most 32 bits. -/
def empty (maxCapacity : Nat) : DynamicTable := { maxCapacity := min maxCapacity (UInt32.size - 1) }

/-! ## Look-up -/

/-- The live entry with an absolute index. -/
def get? (t : DynamicTable) (index : Nat) : Option Field :=
  if t.evicted ≤ index then t.entries[index - t.evicted]? else none

/-- The live entry that was inserted `index` insertions before the latest one. -/
def getRelative? (t : DynamicTable) (index : Nat) : Option Field :=
  if index < t.insertCount then t.get? (t.insertCount - (index + 1)) else none

/-- The greatest number of entries that fit in the table at its greatest capacity. -/
def maxEntries (t : DynamicTable) : Nat := t.maxCapacity / fieldOverhead

/-- What field sections see of the table. -/
def view (t : DynamicTable) : TableView where
  get? := t.get?
  insertCount := t.insertCount
  maxEntries := t.maxEntries

/-- The live entries with their absolute indices, oldest first. -/
def indexedEntries (t : DynamicTable) : List (Nat × Field) :=
  t.entries.zipIdx.map fun (field, position) ↦ (t.evicted + position, field)

/-! ## Eviction -/

/-- Evicts the oldest entries, as few as bring the size down to `target`. -/
def evictTo (t : DynamicTable) (target : Nat) : Update :=
  go t t.entries
where
  /-- Evicts from the given entries, which are those of the table. -/
  go (t : DynamicTable) : List Field → Update
    | [] =>
      if t.size ≤ target then { result := .ok (), table := t }
      else { result := .error .dynamicTableTooBig, table := t }
    | oldest :: newer =>
      if t.size ≤ target then { result := .ok (), table := t }
      else
        go { t with entries := newer, size := t.size - oldest.size, evicted := t.evicted + 1 } newer

/-! ## Changes -/

/-- Changes the capacity, and evicts what no longer fits. -/
def setCapacity (t : DynamicTable) (capacity : Nat) : Update :=
  if t.maxCapacity < capacity then { result := .error .dynamicTableTooBig, table := t }
  else evictTo { t with capacity := capacity } capacity

/-- Adds an entry, after evicting as many as it needs room. -/
def insert (t : DynamicTable) (field : Field) : Update :=
  if t.capacity < field.size then { result := .error .dynamicTableTooBig, table := t }
  else
    let cleared := t.evictTo (t.capacity - field.size)
    match cleared.result with
    | .error _ => cleared
    | .ok () =>
      let size := cleared.table.size + field.size
      let insertCount := cleared.table.insertCount + 1
      { result := .ok ()
        table :=
          { cleared.table with
            entries := cleared.table.entries ++ [field]
            insertCount := insertCount
            size := size }
        notes := [.inserted insertCount size] }

end DynamicTable

end FieldCompression
