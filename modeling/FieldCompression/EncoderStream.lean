import FieldCompression.DynamicTable
import FieldCompression.StaticTable
import FieldCompression.StringLiteral

/-!
# The encoder stream

The peer changes the dynamic table by instructions on a stream of their own (RFC 9204,
section 4.3). They are executed as soon as they have arrived completely. A failing instruction ends
the stream: nothing of it is executed and nothing after it is kept, while the instructions before it
stay executed.
-/

namespace FieldCompression

/-! ## Items at the front of a buffer

The stream is read instruction by instruction from a buffer that holds everything not yet
used. `Scan` is what the front of such a buffer holds: a whole item and what follows it, the
beginning of one, or something that no further octets can mend.

Scanning uses the resumable readers, starting afresh every time. Where a reader asks for more
octets the item is incomplete, and what the reader had found out by then is dropped. -/

/-- What the front of a buffer holds. -/
inductive Scan (α : Type) where
  /-- An item, and what follows it. -/
  | item (value : α) (rest : Bytes)
  /-- The beginning of an item. -/
  | incomplete
  /-- No item, for the given cause. -/
  | invalid (cause : Error) (notes : List Note)

namespace Scan

variable {α β : Type}

/-- Scans further items after a first one. -/
def andThen (s : Scan α) (next : α → Bytes → Scan β) : Scan β :=
  match s with
  | item value rest => next value rest
  | incomplete => incomplete
  | invalid cause notes => invalid cause notes

/-- The item made from an item. -/
def map (f : α → β) (s : Scan α) : Scan β := s.andThen fun value rest ↦ item (f value) rest

theorem andThen_eq_item {s : Scan α} {next : α → Bytes → Scan β} {b : β} {rest : Bytes}
    (h : s.andThen next = item b rest) :
    ∃ a middle, s = item a middle ∧ next a middle = item b rest := by
  cases s with
  | item a middle => exact ⟨a, middle, rfl, h⟩
  | incomplete => exact absurd h (by simp [andThen])
  | invalid cause notes => exact absurd h (by simp [andThen])

/-! ### Integers and strings -/

/-- Scans an integer with a prefix of `bits` bits. -/
def integer (bits : Nat) (input : Bytes) : Scan Nat :=
  let o := (PrefixedInteger.Reader.start bits).read input
  match o.result with
  | .error cause => invalid cause []
  | .ok none => incomplete
  | .ok (some value) => item value o.rest

/-- Scans a string whose length has a prefix of `bits` bits. A string longer than the table's
capacity is refused as an entry that is too big, since no entry could hold it. -/
def string (limit bits : Nat) (input : Bytes) : Scan StringLiteral :=
  let o := ((StringLiteral.Reader.start bits).withLimit limit).read input
  match o.result with
  | .error .headerListTooLarge => invalid .dynamicTableTooBig o.notes
  | .error cause => invalid cause o.notes
  | .ok none => incomplete
  | .ok (some ()) => item ⟨o.state.huffman, o.output⟩ o.rest

theorem length_rest_of_integer {bits value : Nat} {input rest : Bytes}
    (h : integer bits input = item value rest) : rest.length < input.length := by
  cases input with
  | nil => exact absurd h (by simp [integer, PrefixedInteger.Reader.read])
  | cons byte tail =>
    have key := PrefixedInteger.Reader.length_rest_read_start bits byte tail
    simp only [integer] at h
    split at h
    · exact absurd h (by simp)
    · exact absurd h (by simp)
    · injection h with _ h
      rw [← h, List.length_cons]
      exact Nat.lt_succ_of_le key

theorem length_rest_of_string {limit bits : Nat} {s : StringLiteral} {input rest : Bytes}
    (h : string limit bits input = item s rest) : rest.length < input.length := by
  cases input with
  | nil =>
    exact absurd h (by
      simp [string, StringLiteral.Reader.read, StringLiteral.Reader.start,
        StringLiteral.Reader.withLimit])
  | cons byte tail =>
    have key := StringLiteral.Reader.length_rest_read_flag
      (r := (StringLiteral.Reader.start bits).withLimit limit) bits rfl byte tail
    simp only [string] at h
    split at h
    · exact absurd h (by simp)
    · exact absurd h (by simp)
    · exact absurd h (by simp)
    · injection h with _ h
      rw [← h, List.length_cons]
      exact Nat.lt_succ_of_le key

end Scan

/-! ## Instructions

There are four, told apart by the leading bits of their first byte:

* `1T`: insert a field whose name is that of an entry, of the static table if `T` is set;
* `01`: insert a field whose name is given;
* `001`: change the capacity;
* `000`: insert an entry again.

### Reading and executing

Reading an instruction needs no table, only a limit for its strings. Executing one looks up the
entry that it refers to before anything is evicted, so an instruction may refer to an entry that
its own insertion drives out. -/

/-- An instruction for the dynamic table. Entries of the dynamic table are counted back from the
latest one. -/
inductive Instruction where
  /-- Changes the capacity. -/
  | setCapacity (capacity : Nat)
  /-- Inserts a field with the name of an entry. -/
  | insertNameReference (fromStatic : Bool) (index : Nat) (value : StringLiteral)
  /-- Inserts a field with a given name. -/
  | insertLiteralName (name value : StringLiteral)
  /-- Inserts an entry again. -/
  | duplicate (index : Nat)
deriving DecidableEq, Repr

namespace Instruction

/-! ### Writing and reading -/

/-- The encoding of an instruction. -/
def encode : Instruction → Bytes
  | setCapacity capacity => PrefixedInteger.encode 5 0b001 capacity
  | insertNameReference fromStatic index value =>
    PrefixedInteger.encode 6 (0b10 + fromStatic.toNat) index ++ value.encode 7 0
  | insertLiteralName name value => name.encode 5 0b01 ++ value.encode 7 0
  | duplicate index => PrefixedInteger.encode 5 0b000 index

/-- Scans an instruction whose strings have at most `limit` octets each. -/
def scan (limit : Nat) : Bytes → Scan Instruction
  | [] => .incomplete
  | first :: tail =>
    let input := first :: tail
    if 0b10000000 ≤ first.toNat then
      (Scan.integer 6 input).andThen fun index rest ↦
        (Scan.string limit 7 rest).map (insertNameReference (flagAt first 6) index)
    else if 0b01000000 ≤ first.toNat then
      (Scan.string limit 5 input).andThen fun name rest ↦
        (Scan.string limit 7 rest).map (insertLiteralName name)
    else if 0b00100000 ≤ first.toNat then (Scan.integer 5 input).map setCapacity
    else (Scan.integer 5 input).map duplicate

theorem length_rest_of_scan {limit : Nat} {i : Instruction} {input rest : Bytes}
    (h : scan limit input = .item i rest) : rest.length < input.length := by
  cases input with
  | nil => exact absurd h (by simp [scan])
  | cons first tail =>
    simp only [scan, Scan.map] at h
    split at h
    · obtain ⟨_, _, h₁, h⟩ := Scan.andThen_eq_item h
      obtain ⟨_, _, h₂, h⟩ := Scan.andThen_eq_item h
      injection h with _ h
      subst h
      exact Nat.lt_trans (Scan.length_rest_of_string h₂) (Scan.length_rest_of_integer h₁)
    · split at h
      · obtain ⟨_, _, h₁, h⟩ := Scan.andThen_eq_item h
        obtain ⟨_, _, h₂, h⟩ := Scan.andThen_eq_item h
        injection h with _ h
        subst h
        exact Nat.lt_trans (Scan.length_rest_of_string h₂) (Scan.length_rest_of_string h₁)
      · split at h
        all_goals
          obtain ⟨_, _, h₁, h⟩ := Scan.andThen_eq_item h
          injection h with _ h
          subst h
          exact Scan.length_rest_of_integer h₁

/-! ### Meaning -/

/-- What is noted when an instruction has been read. -/
def note : Instruction → Note
  | setCapacity capacity => .setCapacity capacity
  | insertNameReference fromStatic index value =>
    .insertNameReference index fromStatic value.content
  | insertLiteralName name value => .insertLiteralName name.content value.content
  | duplicate index => .duplicate index

end Instruction

namespace DynamicTable

/-- The entry that an instruction refers to. -/
def referenced (t : DynamicTable) (fromStatic : Bool) (index : Nat) : Except Error Field :=
  if fromStatic then
    match StaticTable.get? index with
    | some field => .ok field
    | none => .error .invalidStaticTableIndex
  else
    match t.getRelative? index with
    | some field => .ok field
    | none => .error .invalidDynamicTableIndex

/-- Inserts a field unless finding it failed. -/
def insertFound (t : DynamicTable) (found : Except Error Field) : Update :=
  match found with
  | .ok field => t.insert field
  | .error cause => { result := .error cause, table := t }

/-- Does what an instruction says, without a note of its own. -/
def apply (t : DynamicTable) : Instruction → Update
  | .setCapacity capacity => t.setCapacity capacity
  | .insertNameReference fromStatic index value =>
    t.insertFound ((t.referenced fromStatic index).map fun entry ↦ ⟨entry.name, value.content⟩)
  | .insertLiteralName name value => t.insert ⟨name.content, value.content⟩
  | .duplicate index => t.insertFound (t.referenced false index)

/-- Executes an instruction. -/
def execute (t : DynamicTable) (i : Instruction) : Update :=
  let u := t.apply i
  { u with notes := i.note :: u.notes }

/-! ## Chunks

The beginning of an instruction at the end of the input is kept in the table, and it is read again,
together with what follows it, when more input comes. It is read under the capacity that the table
then has. -/

/-- Executes the instructions in a buffer, in order, and keeps an incomplete one at its end. -/
def process (t : DynamicTable) (input : Bytes) : Update :=
  match _h : Instruction.scan t.capacity input with
  | .incomplete => { result := .ok (), table := { t with pending := input } }
  | .invalid cause notes => { result := .error cause, table := t, notes := notes }
  | .item i rest =>
    let u := t.execute i
    match u.result with
    | .error _ => u
    | .ok () =>
      let more := u.table.process rest
      { more with notes := u.notes ++ more.notes }
termination_by input.length
decreasing_by exact Instruction.length_rest_of_scan _h

/-- Receives a chunk of the encoder stream. -/
def receive (t : DynamicTable) (chunk : Bytes) : Update :=
  { t with pending := [] }.process (t.pending ++ chunk)

end DynamicTable

end FieldCompression
