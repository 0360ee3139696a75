import FieldCompression.StaticTable
import FieldCompression.StringLiteral

/-!
# Field lines

A field line stands for one field of a section (RFC 9204, section 4.5). It refers to an entry for
the whole field, or to an entry for the name and gives the value, or gives both. `FieldLine` is
what is written; `FieldLine.Event` is what it turned out to mean once its reference was looked up.
-/

namespace FieldCompression

/-! ## Lines and events

An index on the wire counts entries of the static table, entries back from the Base of the
section, or entries forward from it. Each of the two forms of line that refer to an entry has a
separate leading pattern for the forward count, so five patterns tell lines apart. -/

/-- How an index on the wire names an entry. -/
inductive Addressing where
  /-- The position in the static table. -/
  | static
  /-- The distance back from the last entry before the Base. -/
  | relative
  /-- The distance forward from the Base. -/
  | postBase
deriving DecidableEq, Repr

/-- A field line as it is written. A field that is marked as never indexed must not be added to a
table by anyone who passes it on. -/
inductive FieldLine where
  /-- The field is an entry. -/
  | indexed (addressing : Addressing) (index : Nat)
  /-- The name is that of an entry, and the value is given. -/
  | nameReference (addressing : Addressing) (neverIndexed : Bool) (index : Nat)
      (value : StringLiteral)
  /-- The name and the value are given. -/
  | literalName (neverIndexed : Bool) (name value : StringLiteral)
deriving DecidableEq, Repr

namespace FieldLine

/-- The encoding of a field line. -/
def encode : FieldLine → Bytes
  | indexed .static index => PrefixedInteger.encode 6 0b11 index
  | indexed .relative index => PrefixedInteger.encode 6 0b10 index
  | indexed .postBase index => PrefixedInteger.encode 4 0b0001 index
  | nameReference .static neverIndexed index value =>
    PrefixedInteger.encode 4 (0b0101 + 2 * neverIndexed.toNat) index ++ value.encode 7 0
  | nameReference .relative neverIndexed index value =>
    PrefixedInteger.encode 4 (0b0100 + 2 * neverIndexed.toNat) index ++ value.encode 7 0
  | nameReference .postBase neverIndexed index value =>
    PrefixedInteger.encode 3 neverIndexed.toNat index ++ value.encode 7 0
  | literalName neverIndexed name value =>
    name.encode 3 (0b0010 + neverIndexed.toNat) ++ value.encode 7 0

/-! ### Events -/

/-- What a reader of field lines reports. -/
inductive Event where
  /-- A field that is an entry. -/
  | indexed (index : TableIndex) (field : Field)
  /-- A field whose name is that of an entry, and how its value was sent. -/
  | nameReference (index : TableIndex) (field : Field) (huffman neverIndexed : Bool)
  /-- A field that was given in full, and how its name and value were sent. -/
  | literalName (field : Field) (nameHuffman valueHuffman neverIndexed : Bool)
  /-- A field line was rejected for the size of its field or of a string in it. -/
  | rejected (cause : Error)
deriving DecidableEq, Repr

namespace Event

/-- The field that an event reports. -/
def field? : Event → Option Field
  | indexed _ field | nameReference _ field _ _ | literalName field _ _ _ => some field
  | rejected _ => none

end Event

/-- The fields that events report, in order. -/
def fieldsOf (events : List Event) : List Field := events.filterMap Event.field?

/-! ## What a field line means

Once a line has been read, its reference is resolved to an entry, the entry is looked up, the
field is counted towards the size of the section, and it is reported. Each step can fail, and then
the steps after it are not done.

### Bounds of a reference

A reference to the dynamic table must stay below the section's Required Insert Count, even if the
entry is there: only those insertions are what the section declared to rely on. Whether a line
decodes therefore does not depend on how far ahead the table is. -/

/-- What the meaning of a field line depends on. -/
structure Context where
  /-- The prefix of the section. -/
  sectionPrefix : SectionPrefix
  /-- The dynamic table as it is now. -/
  table : TableView
  /-- The size of the section so far. -/
  size : SectionSize

/-- What became of a field line. -/
structure Delivery where
  /-- Whether the line stands for a field that fits. -/
  result : Except Error Unit
  /-- The size of the section afterwards. -/
  size : SectionSize
  /-- What was reported. -/
  events : List Event := []
  /-- What was noted. -/
  notes : List Note := []

namespace Context

/-! ### References -/

/-- A reference to the dynamic table, unless it exceeds what the section relies on. -/
def withinSection (ctx : Context) (absolute : Nat) : Except Error TableIndex :=
  if absolute < ctx.sectionPrefix.requiredInsertCount then .ok (.dynamic absolute)
  else .error .invalidDynamicTableIndex

/-- The entry that an index on the wire names. -/
def resolve (ctx : Context) (addressing : Addressing) (index : Nat) : Except Error TableIndex :=
  match addressing with
  | .static => .ok (.static index)
  | .relative =>
    if index < ctx.sectionPrefix.base then
      ctx.withinSection (ctx.sectionPrefix.base - (index + 1))
    else .error .invalidDynamicTableIndex
  | .postBase => ctx.withinSection (ctx.sectionPrefix.base + index)

/-- The field that an entry holds. That there is no such entry is the one way in which this fails,
and each of the two tables has a cause for it. -/
def lookup (ctx : Context) (index : TableIndex) : Except Error Field :=
  match index with
  | .static index =>
    match StaticTable.get? index with
    | some field => .ok field
    | none => .error .invalidStaticTableIndex
  | .dynamic index =>
    match ctx.table.get? index with
    | some field => .ok field
    | none => .error .invalidDynamicTableIndex

/-! ### Counting and reporting -/

/-- Counts a field of the given size, or reports that it is too large. -/
def checkSize (ctx : Context) (size : Nat) : Delivery :=
  match ctx.size.add size with
  | .ok size => { result := .ok (), size }
  | .error cause =>
    { result := .error cause
      size := ctx.size
      events := [.rejected cause]
      notes := [.fieldTooLarge ctx.size.used size] }

/-- Counts a field and reports it by the given event, or reports that it is too large. -/
def accept (ctx : Context) (field : Field) (event : Event) : Delivery :=
  let counted := ctx.checkSize field.size
  match counted.result with
  | .ok () => { counted with events := [event] }
  | .error _ => counted

/-- Resolves a reference and goes on with the entry and what it holds. The note is made between
the two, so that a reference to a missing entry is noted. -/
def withReference (ctx : Context) (addressing : Addressing) (index : Nat)
    (note : TableIndex → Note) (next : TableIndex → Field → Delivery) : Delivery :=
  match ctx.resolve addressing index with
  | .error cause => { result := .error cause, size := ctx.size }
  | .ok entry =>
    match ctx.lookup entry with
    | .error cause => { result := .error cause, size := ctx.size, notes := [note entry] }
    | .ok field =>
      let delivery := next entry field
      { delivery with notes := note entry :: delivery.notes }

/-- Does what a field line asks for. -/
def deliver (ctx : Context) : FieldLine → Delivery
  | .indexed addressing index =>
    ctx.withReference addressing index
      (fun entry ↦ .indexed entry index (addressing == .postBase))
      fun entry field ↦ ctx.accept field (.indexed entry field)
  | .nameReference addressing neverIndexed index value =>
    ctx.withReference addressing index
      (fun entry ↦ .nameReference entry value.huffman neverIndexed value.content)
      fun entry named ↦
        let field := ⟨named.name, value.content⟩
        ctx.accept field (.nameReference entry field value.huffman neverIndexed)
  | .literalName neverIndexed name value =>
    let field := ⟨name.content, value.content⟩
    let delivery := ctx.accept field (.literalName field name.huffman value.huffman neverIndexed)
    { delivery with
      notes := .literalName name.content value.content neverIndexed :: delivery.notes }

end Context

/-! ## Reading field lines

A line is read in stages: an index, or a string for the name, and then perhaps a string for the
value. `Reader.step` carries one stage as far as the chunk goes. A stage that ends before the line
does gives the reader back at its next stage, together with the rest of the chunk, and
`Reader.read` goes on from there. When the line is complete it is delivered, and the reader is
idle again.

### Strings within a section

The limit of a string is what is left of the section's limit, less a name that has been read
already. A string that exceeds it is reported like a field that does, at once and not when the
line is complete. So what is stored for an unfinished line is bounded by what the section may
still hold.

### Failures

A line that failed stays where it failed. Reading on fails again in the same way; it is for the
caller to give the line up. -/

/-- How far the reading of a line has come. -/
inductive Reader where
  /-- No line is being read. -/
  | idle
  /-- The index of a line that is an entry. -/
  | entryIndex (addressing : Addressing) (int : PrefixedInteger.Reader)
  /-- The index of the entry that gives a line its name. -/
  | nameIndex (addressing : Addressing) (neverIndexed : Bool) (int : PrefixedInteger.Reader)
  /-- The value after such an index. -/
  | nameValue (addressing : Addressing) (neverIndexed : Bool) (index : Nat)
      (string : StringLiteral.Reader) (value : Bytes)
  /-- The name of a line that gives it. -/
  | literalName (neverIndexed : Bool) (string : StringLiteral.Reader) (name : Bytes)
  /-- The value after such a name. -/
  | literalValue (neverIndexed : Bool) (name : StringLiteral) (string : StringLiteral.Reader)
      (value : Bytes)
deriving DecidableEq, Repr, Inhabited

/-- What one call of a reader did with a chunk. -/
structure Reading extends Outcome Reader Unit where
  /-- The size of the section afterwards. -/
  size : SectionSize
  /-- What was reported. -/
  events : List Event := []
  /-- What was noted. -/
  notes : List Note := []

namespace Reader

/-! ### Which line a byte begins -/

/-- A reader for an entry, counted in the static table or back from the Base. -/
def indexed (first : UInt8) : Reader :=
  entryIndex (if flagAt first 6 then .static else .relative) (.start 6)

/-- A reader for an entry, counted forward from the Base. -/
def indexedPostBase : Reader := entryIndex .postBase (.start 4)

/-- A reader for a name reference, counted in the static table or back from the Base. -/
def nameReference (first : UInt8) : Reader :=
  nameIndex (if flagAt first 4 then .static else .relative) (flagAt first 5)
    (.start 4)

/-- A reader for a name reference, counted forward from the Base. -/
def nameReferencePostBase (first : UInt8) : Reader :=
  nameIndex .postBase (flagAt first 3) (.start 3)

/-- A reader for a line that gives its name. -/
def literal (first : UInt8) : Reader := literalName (flagAt first 4) (.start 3) []

/-- The reader for the line that a byte begins. The first bit set of its first four tells the forms
apart. -/
def ofByte (first : UInt8) : Reader :=
  if 0b10000000 ≤ first.toNat then indexed first
  else if 0b01000000 ≤ first.toNat then nameReference first
  else if 0b00100000 ≤ first.toNat then literal first
  else if 0b00010000 ≤ first.toNat then indexedPostBase
  else nameReferencePostBase first

end Reader

/-! ### Strings -/

namespace Context

/-- What one call of a string reader did on behalf of a line. -/
structure StringReading extends StringLiteral.Reading where
  /-- What was reported. -/
  events : List Event := []

/-- Reads on in a string, and reports it if it is too long. -/
def readString (ctx : Context) (string : StringLiteral.Reader) (input : Bytes) : StringReading :=
  let s := string.read input
  match s.result with
  | .error .headerListTooLarge =>
    { s with
      events := [.rejected .headerListTooLarge]
      notes := s.notes ++ [.stringTooLarge ctx.size.used ctx.size.remaining] }
  | _ => { s with }

theorem rest_readString (ctx : Context) (string : StringLiteral.Reader) (input : Bytes) :
    (ctx.readString string input).rest = (string.read input).rest := by
  simp only [readString]
  split <;> rfl

end Context

namespace Reader

/-! ### One stage -/

/-- Delivers a complete line. The reader is idle afterwards, or as it was if the line fails. -/
def finish (ctx : Context) (line : FieldLine) (r : Reader) (rest : Bytes) : Reading :=
  let delivery := ctx.deliver line
  match delivery.result with
  | .error cause => { delivery with result := .error cause, state := r, rest }
  | .ok () => { delivery with result := .ok (some ()), state := idle, rest }

/-- Reads on in an index. -/
def readIndex (ctx : Context) (int : PrefixedInteger.Reader) (input : Bytes)
    (unfinished : PrefixedInteger.Reader → Reader) (next : Nat → Reader → Bytes → Reading) :
    Reading :=
  let o := int.read input
  match o.result with
  | .error cause =>
    { result := .error cause, state := unfinished o.state, rest := o.rest, size := ctx.size }
  | .ok none =>
    { result := .ok none, state := unfinished o.state, rest := o.rest, size := ctx.size }
  | .ok (some index) => next index (unfinished o.state) o.rest

/-- Reads on in a string of which `content` has been read already. -/
def readText (ctx : Context) (string : StringLiteral.Reader) (content input : Bytes)
    (unfinished : StringLiteral.Reader → Bytes → Reader)
    (next : StringLiteral → Reader → Bytes → Reading) : Reading :=
  let s := ctx.readString string input
  let content := content ++ s.output
  match s.result with
  | .error cause =>
    { result := .error cause, state := unfinished s.state content, rest := s.rest
      size := ctx.size, events := s.events, notes := s.notes }
  | .ok none =>
    { result := .ok none, state := unfinished s.state content, rest := s.rest, size := ctx.size }
  | .ok (some ()) => next ⟨s.state.huffman, content⟩ (unfinished s.state content) s.rest

/-- A reader for a value of at most `limit` octets. -/
def valueReader (limit : Nat) : StringLiteral.Reader :=
  (StringLiteral.Reader.start 7).withLimit limit

/-- Reads on from a chunk, to the end of the present stage. -/
def step (ctx : Context) : Reader → Bytes → Reading
  | idle, input =>
    { result := .error .invalidState, state := idle, rest := input, size := ctx.size }
  | entryIndex addressing int, input =>
    readIndex ctx int input (entryIndex addressing) fun i ↦ finish ctx (.indexed addressing i)
  | nameIndex addressing neverIndexed int, input =>
    readIndex ctx int input (nameIndex addressing neverIndexed) fun i _ rest ↦
      { result := .ok none
        state := nameValue addressing neverIndexed i (valueReader ctx.size.remaining) []
        rest, size := ctx.size }
  | nameValue addressing neverIndexed i string value, input =>
    readText ctx string value input (nameValue addressing neverIndexed i) fun value ↦
      finish ctx (.nameReference addressing neverIndexed i value)
  | literalName neverIndexed string name, input =>
    readText ctx (string.withLimit ctx.size.remaining) name input (literalName neverIndexed)
      fun name _ rest ↦
        { result := .ok none
          state :=
            literalValue neverIndexed name
              (valueReader (ctx.size.remaining - name.content.length)) []
          rest, size := ctx.size }
  | literalValue neverIndexed name string value, input =>
    readText ctx string value input (literalValue neverIndexed name) fun value ↦
      finish ctx (.literalName neverIndexed name value)

/-! ### As far as the chunk goes -/

/-- Reads on from a chunk, to the end of the line. A line has at most two stages. -/
def read (ctx : Context) (r : Reader) (input : Bytes) : Reading :=
  let first := r.step ctx input
  match first.result, first.rest with
  | .ok none, _ :: _ =>
    let second := first.state.step { ctx with size := first.size } first.rest
    { second with
      events := first.events ++ second.events
      notes := first.notes ++ second.notes }
  | _, _ => first

/-! ### What reading leaves -/

theorem rest_finish (ctx : Context) (line : FieldLine) (r : Reader) (rest : Bytes) :
    (finish ctx line r rest).rest = rest := by
  simp only [finish]
  split <;> rfl

theorem rest_readIndex {ctx : Context} {int : PrefixedInteger.Reader} {input : Bytes}
    {unfinished : PrefixedInteger.Reader → Reader} {next : Nat → Reader → Bytes → Reading}
    (h : ∀ i r rest, (next i r rest).rest = rest) :
    (readIndex ctx int input unfinished next).rest = (int.read input).rest := by
  simp only [readIndex]
  split
  · rfl
  · rfl
  · exact h _ _ _

theorem rest_readText {ctx : Context} {string : StringLiteral.Reader} {content input : Bytes}
    {unfinished : StringLiteral.Reader → Bytes → Reader}
    {next : StringLiteral → Reader → Bytes → Reading}
    (h : ∀ s r rest, (next s r rest).rest = rest) :
    (readText ctx string content input unfinished next).rest = (string.read input).rest := by
  simp only [readText]
  split
  · exact ctx.rest_readString _ _
  · exact ctx.rest_readString _ _
  · rw [h]; exact ctx.rest_readString _ _

theorem length_rest_step (ctx : Context) (r : Reader) (input : Bytes) :
    (r.step ctx input).rest.length ≤ input.length := by
  cases r with
  | idle => simp [step]
  | entryIndex addressing int =>
    rw [step, rest_readIndex fun _ _ _ ↦ rest_finish _ _ _ _]
    exact int.length_rest_read input
  | nameIndex addressing neverIndexed int =>
    rw [step, rest_readIndex fun _ _ _ ↦ rfl]
    exact int.length_rest_read input
  | nameValue addressing neverIndexed i string value =>
    rw [step, rest_readText fun _ _ _ ↦ rest_finish _ _ _ _]
    exact string.length_rest_read input
  | literalName neverIndexed string name =>
    rw [step, rest_readText fun _ _ _ ↦ rfl]
    exact (string.withLimit _).length_rest_read input
  | literalValue neverIndexed name string value =>
    rw [step, rest_readText fun _ _ _ ↦ rest_finish _ _ _ _]
    exact string.length_rest_read input

theorem length_rest_step_ofByte (ctx : Context) (first byte : UInt8) (rest : Bytes) :
    ((ofByte first).step ctx (byte :: rest)).rest.length ≤ rest.length := by
  have int (bits : Nat) := PrefixedInteger.Reader.length_rest_read_start bits byte rest
  simp only [ofByte]
  split
  · rw [indexed, step, rest_readIndex fun _ _ _ ↦ rest_finish _ _ _ _]
    exact int 6
  split
  · rw [nameReference, step, rest_readIndex fun _ _ _ ↦ rfl]
    exact int 4
  split
  · rw [literal, step, rest_readText fun _ _ _ ↦ rfl]
    exact StringLiteral.Reader.length_rest_read_flag 3 rfl byte rest
  split
  · rw [indexedPostBase, step, rest_readIndex fun _ _ _ ↦ rest_finish _ _ _ _]
    exact int 4
  · rw [nameReferencePostBase, step, rest_readIndex fun _ _ _ ↦ rfl]
    exact int 3

theorem length_rest_read_le_step (ctx : Context) (r : Reader) (input : Bytes) :
    (r.read ctx input).rest.length ≤ (r.step ctx input).rest.length := by
  simp only [read]
  split
  · exact length_rest_step _ _ _
  · exact Nat.le_refl _

theorem length_rest_read_ofByte (ctx : Context) (first byte : UInt8) (rest : Bytes) :
    ((ofByte first).read ctx (byte :: rest)).rest.length < (byte :: rest).length :=
  Nat.lt_succ_of_le
    (Nat.le_trans (length_rest_read_le_step _ _ _) (length_rest_step_ofByte _ _ _ _))

end Reader

end FieldLine

end FieldCompression
