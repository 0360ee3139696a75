import FieldCompression.EncoderStream
import FieldCompression.FieldLine

/-!
# Field sections

A field section is a prefix and any number of field lines (RFC 9204, section 4.5). It arrives in
chunks that may be cut anywhere, and the dynamic table may change between two chunks. The fields
are reported as their lines complete.
-/

namespace FieldCompression

/-! ## Encoding

A section as it is sent: its prefix and then its lines. `FieldLine.Event.line?` gives the line
that a reported field was decoded from, provided that the section's Base is known: an entry of the
dynamic table below the Base is counted back from it, and any other is counted forward. -/

namespace FieldLine

/-- How an entry is named on the wire in a section with the given Base. -/
def wireIndex (base : Nat) : TableIndex → Addressing × Nat
  | .static index => (.static, index)
  | .dynamic index =>
    if index < base then (.relative, base - (index + 1)) else (.postBase, index - base)

/-- The line that stands for a reported field in a section with the given Base. -/
def Event.line? (base : Nat) : Event → Option FieldLine
  | .indexed entry _ =>
    let (addressing, index) := wireIndex base entry
    some (.indexed addressing index)
  | .nameReference entry field huffman neverIndexed =>
    let (addressing, index) := wireIndex base entry
    some (.nameReference addressing neverIndexed index ⟨huffman, field.value⟩)
  | .literalName field nameHuffman valueHuffman neverIndexed =>
    some (.literalName neverIndexed ⟨nameHuffman, field.name⟩ ⟨valueHuffman, field.value⟩)
  | .rejected _ => none

end FieldLine

/-- The encoding of a section for a table with the given greatest number of entries. -/
def encodeSection (maxEntries : Nat) (p : SectionPrefix) (lines : List FieldLine) : Bytes :=
  p.encode maxEntries ++ lines.flatMap FieldLine.encode

/-! ## Decoding

When the prefix is complete and the section relies on more insertions than there have been,
decoding fails, before any line is read, with a cause of its own. The decoder is then as it was
before the section, and the same octets can be decoded again when the table has caught up.

`readLines` reads line after line while there are octets left. Each line consumes at least the
byte that begins it, so the loop ends. Only the first line of a chunk can have begun in an earlier
chunk; `resumeLines` reads on in that one and enters the loop at its end, in `readLinesAfter`.

Every failure takes the decoder back to its initial state, so what is decoded next does not depend
on what failed. -/

/-- The part of a section that is read next. -/
inductive Decoder.Phase where
  /-- The prefix. -/
  | opening (reader : SectionPrefix.Reader)
  /-- The lines after a prefix. -/
  | lines (sectionPrefix : SectionPrefix) (line : FieldLine.Reader)
deriving DecidableEq, Repr

/-- How far the decoding of a section has come. -/
structure Decoder where
  /-- The size of the section so far. -/
  size : SectionSize
  /-- The part that is read next. -/
  phase : Decoder.Phase := .opening .fresh
deriving DecidableEq, Repr

namespace Decoder

/-- What one call of a decoder did with a chunk. -/
structure Step where
  /-- Whether the call succeeded. -/
  result : Except Error Unit
  /-- The decoder after the call. -/
  decoder : Decoder
  /-- The octets of the chunk that were not consumed. -/
  rest : Bytes
  /-- What was reported. -/
  events : List FieldLine.Event := []
  /-- What was noted. -/
  notes : List Note := []

/-- A decoder for sections of at most `limit` in size. -/
def start (limit : Nat) : Decoder := { size := { limit } }

/-- The decoder before any section. -/
def reset (d : Decoder) : Decoder := { size := d.size.reset }

/-- The prefix of the section, once it has been read and accepted. -/
def sectionPrefix? (d : Decoder) : Option SectionPrefix :=
  match d.phase with
  | .opening _ => none
  | .lines p _ => some p

/-! ### Field lines -/

/-- What reading lines did with the octets of a chunk. -/
structure LinesReading where
  /-- Whether all lines so far stand for fields. -/
  result : Except Error Unit
  /-- The line that has not ended, or an idle reader. -/
  line : FieldLine.Reader
  /-- The octets that were not consumed. -/
  rest : Bytes
  /-- The size of the section afterwards. -/
  size : SectionSize
  /-- What was reported. -/
  events : List FieldLine.Event := []
  /-- What was noted. -/
  notes : List Note := []

/-- Reading lines after an earlier line. -/
def LinesReading.after (more : LinesReading) (r : FieldLine.Reading) : LinesReading :=
  { more with events := r.events ++ more.events, notes := r.notes ++ more.notes }

mutual

/-- Reads lines from octets that begin with a line. -/
def readLines (ctx : FieldLine.Context) (input : Bytes) : LinesReading :=
  match input with
  | [] => { result := .ok (), line := .idle, rest := [], size := ctx.size }
  | first :: rest => readLinesAfter ctx ((FieldLine.Reader.ofByte first).read ctx (first :: rest))
termination_by (input.length, 0)
decreasing_by exact .left _ _ (FieldLine.Reader.length_rest_read_ofByte ctx first first rest)

/-- Goes on to further lines if the reading of a line has come to its end. -/
def readLinesAfter (ctx : FieldLine.Context) (r : FieldLine.Reading) : LinesReading :=
  match r.result with
  | .error cause => { r with result := .error cause, line := r.state }
  | .ok none => { r with result := .ok (), line := r.state }
  | .ok (some ()) => (readLines { ctx with size := r.size } r.rest).after r
termination_by (r.rest.length, 1)
decreasing_by exact .right _ Nat.zero_lt_one

end

/-- Reads on in a line, if one has begun, and then reads lines. -/
def resumeLines (ctx : FieldLine.Context) (line : FieldLine.Reader) (input : Bytes) :
    LinesReading :=
  match line, input with
  | .idle, input => readLines ctx input
  | line, [] => { result := .ok (), line, rest := [], size := ctx.size }
  | line, input => readLinesAfter ctx (line.read ctx input)

/-- Reads lines of a section with the given prefix. -/
def decodeLines (d : Decoder) (table : TableView) (p : SectionPrefix) (line : FieldLine.Reader)
    (input : Bytes) : Step :=
  let r := resumeLines { sectionPrefix := p, table, size := d.size } line input
  { r with decoder := { size := r.size, phase := .lines p r.line } }

/-! ### Sections -/

/-- Reads on from a chunk, without giving up the section if that fails. -/
def advance (d : Decoder) (table : TableView) (chunk : Bytes) : Step :=
  match d.phase with
  | .lines p line => d.decodeLines table p line chunk
  | .opening reader =>
    let o := reader.read table chunk
    let opened := { d with phase := .opening o.state }
    match o.result with
    | .error cause => { result := .error cause, decoder := opened, rest := o.rest }
    | .ok none => { result := .ok (), decoder := opened, rest := o.rest }
    | .ok (some p) =>
      if table.insertCount < p.requiredInsertCount then
        { result := .error .dynamicTableWouldBlock, decoder := opened, rest := o.rest
          notes := [.sectionStarted p] }
      else
        let s := d.decodeLines table p .idle o.rest
        { s with notes := .sectionStarted p :: s.notes }

/-- Decodes a chunk of a section. -/
def decode (d : Decoder) (table : TableView) (chunk : Bytes) : Step :=
  let s := d.advance table chunk
  match s.result with
  | .ok () => s
  | .error cause =>
    { s with decoder := s.decoder.reset, notes := s.notes ++ [.sectionAborted cause] }

/-- What declaring a section complete gave. -/
structure Finish where
  /-- The prefix of the section, if the section was complete. -/
  result : Except Error SectionPrefix
  /-- The decoder before the next section. -/
  decoder : Decoder
  /-- What was noted. -/
  notes : List Note

/-- Declares the section complete. It must not end within its prefix or within a line. -/
def finish (d : Decoder) : Finish :=
  let result :=
    match d.phase with
    | .lines p .idle => .ok p
    | _ => .error .bufferTooShort
  { result, decoder := d.reset, notes := [.sectionFinished d.size.used result] }

/-- What decoding a section to its end gave. -/
structure Section where
  /-- The prefix of the section, if it was decoded to its end. -/
  result : Except Error SectionPrefix
  /-- The decoder before the next section. -/
  decoder : Decoder
  /-- What was reported. -/
  events : List FieldLine.Event
  /-- What was noted. -/
  notes : List Note

/-- Decodes the last or only chunk of a section and declares the section complete. -/
def decodeSection (d : Decoder) (table : TableView) (chunk : Bytes) : Section :=
  let s := d.decode table chunk
  match s.result with
  | .error cause => { s with result := .error cause }
  | .ok () =>
    let f := s.decoder.finish
    { f with events := s.events, notes := s.notes ++ f.notes }

end Decoder

/-! ## Settings

Each side tells the other how large a field section and how large a dynamic table it accepts. What
is not set keeps its default: sections of any size, and no dynamic table. -/

/-- The limits that a receiver of field sections has announced. -/
structure Settings where
  /-- The greatest size of a field section. -/
  maxFieldSectionSize : Nat := maxWord
  /-- The greatest capacity of the dynamic table. -/
  maxTableCapacity : Nat := 0
deriving DecidableEq, Repr

namespace Settings

/-- A decoder under these settings. -/
def decoder (s : Settings) : Decoder := .start s.maxFieldSectionSize

/-- An empty dynamic table under these settings. -/
def table (s : Settings) : DynamicTable := .empty s.maxTableCapacity

end Settings

end FieldCompression
