import FieldCompression.Proofs.Reuse.Calls
import FieldCompression.Proofs.Reuse.Readers

/-!
# Decoders that are overwritten in place

The fields of a decoder are those of all its readers, the size of the section, its prefix, and which
reader is in use. What a call does to the readers that are not in use is left open:
`Storage.Performs` allows the fields to become any that stand for the decoder that the call leads
to, and is strict only about what ends a section, which clears the fields one by one. That is
enough for the fields to be those of a new decoder afterwards.
-/

namespace FieldCompression

open FieldLine

namespace Decoder

/-! ## The fields -/

/-- The decoders that fields can stand for. -/
def Storable (d : Decoder) : Prop :=
  match d.phase with
  | .opening reader => reader.Storable
  | .lines .. => True

theorem Storable.advance {d : Decoder} (h : d.Storable) (table : TableView) (chunk : Bytes) :
    (d.advance table chunk).decoder.Storable := by
  rcases hphase : d.phase with reader | ⟨p, line⟩
  · rw [Storable, hphase] at h
    have hread := h.read table chunk
    simp only [Decoder.advance, hphase]
    split
    · exact hread
    · exact hread
    · split
      · exact hread
      · trivial
  · simp only [Decoder.advance, hphase]
    trivial

/-- The fields of a decoder. There is one reader for each kind of line, and `current` says which of
them is in use. -/
structure Storage where
  /-- The size of the section so far. -/
  size : SectionSize
  /-- The reader of the prefix. -/
  prefixReader : SectionPrefix.Storage := {}
  /-- The prefix, once it has been read and accepted. -/
  accepted? : Option SectionPrefix := none
  /-- The reader of lines that are an entry. -/
  indexed : IndexedStorage := {}
  /-- The reader of lines with a name reference. -/
  nameReference : NameReferenceStorage := {}
  /-- The reader of lines that give their name. -/
  literalName : LiteralNameStorage := {}
  /-- The form of the line that has begun. -/
  current : Option Form := none
deriving DecidableEq, Repr

namespace Storage

/-- The fields of a decoder for sections of at most `limit` in size. -/
def start (limit : Nat) : Storage := { size := { limit } }

/-- The line that the fields stand for. -/
def line (x : Storage) : FieldLine.Reader :=
  match x.current with
  | none => .idle
  | some .indexed | some .indexedPostBase => x.indexed.reader
  | some .nameReference | some .nameReferencePostBase => x.nameReference.reader
  | some .literalName => x.literalName.reader

/-- The decoder that the fields stand for. -/
def decoder (x : Storage) : Decoder where
  size := x.size
  phase :=
    match x.accepted? with
    | none => .opening x.prefixReader.reader
    | some p => .lines p x.line

/-- Sets the fields for the line that a byte begins. -/
def beginLine (x : Storage) (first : UInt8) : Storage :=
  match Form.ofByte first with
  | .indexed => { x with indexed := x.indexed.configure first, current := some .indexed }
  | .indexedPostBase =>
    { x with indexed := x.indexed.configurePostBase, current := some .indexedPostBase }
  | .nameReference =>
    { x with nameReference := x.nameReference.configure first, current := some .nameReference }
  | .nameReferencePostBase =>
    { x with
      nameReference := x.nameReference.configurePostBase first
      current := some .nameReferencePostBase }
  | .literalName =>
    { x with literalName := x.literalName.configure first, current := some .literalName }

/-- Clears the fields, except for the limit. -/
def reset (x : Storage) : Storage :=
  { x with
    size := x.size.reset, prefixReader := x.prefixReader.reset, accepted? := none
    indexed := x.indexed.reset, nameReference := x.nameReference.reset
    literalName := x.literalName.reset, current := none }

@[simp] theorem decoder_start (limit : Nat) : (start limit).decoder = .start limit := rfl

theorem reset_eq (x : Storage) : x.reset = start x.decoder.size.limit := by
  rw [reset, x.prefixReader.reset_eq, x.indexed.reset_eq, x.nameReference.reset_eq,
    x.literalName.reset_eq]
  rfl

/-- Whatever an earlier line has left, the next line begins as the library begins it. -/
theorem line_beginLine (x : Storage) (first : UInt8) :
    (x.beginLine first).line = .ofByte first := by
  rw [← Form.reader_ofByte, beginLine]
  cases Form.ofByte first with
  | indexed => exact x.indexed.reader_configure first
  | indexedPostBase => exact x.indexed.reader_configurePostBase
  | nameReference => exact x.nameReference.reader_configure first
  | nameReferencePostBase => exact x.nameReference.reader_configurePostBase first
  | literalName => exact x.literalName.reader_configure first

private theorem exists_line (size : SectionSize) (p : SectionPrefix) (line : FieldLine.Reader) :
    ∃ x : Storage, x.decoder = { size, phase := .lines p line } := by
  have hline (x : Storage) (hx : x.line = line) :
      ({ x with size := size, accepted? := some p } : Storage).decoder =
        { size, phase := .lines p line } := by
    rw [← hx]
    rfl
  cases line with
  | idle => exact ⟨_, hline (start 0) rfl⟩
  | entryIndex addressing int =>
    obtain ⟨isStatic, isPostBase, rfl⟩ := exists_addressing addressing
    obtain ⟨index, rfl⟩ := PrefixedInteger.Storage.exists_reader int
    exact ⟨_, hline
      { start 0 with indexed := { isStatic, isPostBase, index }, current := some .indexed } rfl⟩
  | nameIndex addressing neverIndexed int =>
    obtain ⟨isStatic, isPostBase, rfl⟩ := exists_addressing addressing
    obtain ⟨index, rfl⟩ := PrefixedInteger.Storage.exists_reader int
    exact ⟨_, hline
      { start 0 with
        nameReference := { isStatic, isPostBase, neverIndexed, index }
        current := some .nameReference } rfl⟩
  | nameValue addressing neverIndexed nameIndex string value =>
    obtain ⟨isStatic, isPostBase, rfl⟩ := exists_addressing addressing
    obtain ⟨string, rfl⟩ := StringLiteral.Storage.exists_reader string
    exact ⟨_, hline
      { start 0 with
        nameReference :=
          { stage := .value, isStatic, isPostBase, neverIndexed, nameIndex, string, value }
        current := some .nameReference } rfl⟩
  | literalName neverIndexed string name =>
    obtain ⟨string, rfl⟩ := StringLiteral.Storage.exists_reader string
    exact ⟨_, hline
      { start 0 with
        literalName := { neverIndexed, string, name }, current := some .literalName } rfl⟩
  | literalValue neverIndexed name string value =>
    obtain ⟨nameHuffman, name⟩ := name
    obtain ⟨string, rfl⟩ := StringLiteral.Storage.exists_reader string
    exact ⟨_, hline
      { start 0 with
        literalName := { stage := .value, neverIndexed, nameHuffman, name, string, value }
        current := some .literalName } rfl⟩

private theorem exists_decoder {d : Decoder} (h : d.Storable) : ∃ x : Storage, x.decoder = d := by
  obtain ⟨size, phase⟩ := d
  cases phase with
  | opening reader =>
    obtain ⟨x, rfl⟩ := SectionPrefix.Storage.exists_reader h
    exact ⟨{ size, prefixReader := x }, rfl⟩
  | lines p line => exact exists_line size p line

/-! ## Calls -/

/-- What a call can make of the fields. Decoding leaves fields that stand for the decoder that it
leads to, and of the others nothing is known; what ends a section clears the fields. -/
inductive Performs : Storage → Call → Storage → Prop
  /-- A chunk is decoded. -/
  | decode {x y : Storage} {table : TableView} {chunk : Bytes}
    (hok : (x.decoder.advance table chunk).result = .ok ())
    (hy : y.decoder = (x.decoder.advance table chunk).decoder) :
    Performs x (.decode table chunk) y
  /-- Decoding a chunk fails, and the section is given up. -/
  | abort {x y : Storage} {table : TableView} {chunk : Bytes}
    (hfailed : Failed (x.decoder.advance table chunk).result)
    (hy : y.decoder = (x.decoder.advance table chunk).decoder) :
    Performs x (.decode table chunk) y.reset
  /-- The section is declared complete. -/
  | finish (x : Storage) : Performs x .finish x.reset
  /-- The last chunk is decoded, or fails, and the section is over. -/
  | decodeSection {x y : Storage} {table : TableView} {chunk : Bytes}
    (hy : y.decoder = (x.decoder.advance table chunk).decoder) :
    Performs x (.decodeSection table chunk) y.reset
  /-- The section is given up. -/
  | reset (x : Storage) : Performs x .reset x.reset

/-- What some calls can make of the fields. -/
inductive PerformsAll : Storage → List Call → Storage → Prop
  /-- No call is made. -/
  | nil (x : Storage) : PerformsAll x [] x
  /-- A call is made, and then the others. -/
  | cons {x y z : Storage} {call : Call} {calls : List Call} (h : Performs x call y)
    (hrest : PerformsAll y calls z) : PerformsAll x (call :: calls) z

variable {x y : Storage} {call : Call} {calls : List Call}

theorem Performs.decoder_eq (h : Performs x call y) : y.decoder = x.decoder.perform call := by
  have hreset {y : Storage} {table : TableView} {chunk : Bytes}
      (hy : y.decoder = (x.decoder.advance table chunk).decoder) :
      y.reset.decoder = .start x.decoder.size.limit := by
    rw [reset_eq, hy, limit_advance, decoder_start]
  cases h with
  | decode hok hy => rw [hy, perform, decoder_decode_of_ok hok]
  | abort hfailed hy =>
    rw [hreset hy, perform_of_ends]
    rwa [← result_decode] at hfailed
  | finish => rfl
  | decodeSection hy =>
    rw [hreset hy, perform_of_ends]
    exact trivial
  | reset => rfl

theorem PerformsAll.decoder_eq (h : PerformsAll x calls y) :
    y.decoder = x.decoder.performAll calls := by
  induction h with
  | nil x => rfl
  | cons h _ ih =>
    rw [ih, h.decoder_eq]
    rfl

theorem Performs.eq_start_of_ends (h : Performs x call y) (hends : x.decoder.Ends call) :
    y = start x.decoder.size.limit := by
  cases h with
  | decode hok hy =>
    obtain ⟨cause, hcause⟩ := hends
    rw [result_decode, hok] at hcause
    exact absurd hcause (by simp)
  | abort hfailed hy => rw [reset_eq, hy, limit_advance]
  | finish => exact reset_eq x
  | decodeSection hy => rw [reset_eq, hy, limit_advance]
  | reset => exact reset_eq x

/-- Fields can follow a decoder through every call. -/
theorem exists_performs (hx : x.decoder.Storable) (call : Call) :
    ∃ y, Performs x call y ∧ y.decoder.Storable := by
  have hdecode (table : TableView) (chunk : Bytes) :
      ∃ y : Storage, y.decoder = (x.decoder.advance table chunk).decoder ∧ y.decoder.Storable := by
    have hadvance := hx.advance table chunk
    obtain ⟨y, hy⟩ := exists_decoder hadvance
    exact ⟨y, hy, hy ▸ hadvance⟩
  have hreset (y : Storage) : y.reset.decoder.Storable := .inl rfl
  cases call with
  | decode table chunk =>
    obtain ⟨y, hy, hstorable⟩ := hdecode table chunk
    rcases h : (x.decoder.advance table chunk).result with cause | _
    · exact ⟨y.reset, .abort ⟨cause, h⟩ hy, hreset y⟩
    · exact ⟨y, .decode h hy, hstorable⟩
  | finish => exact ⟨x.reset, .finish x, hreset x⟩
  | decodeSection table chunk =>
    obtain ⟨y, hy, -⟩ := hdecode table chunk
    exact ⟨y.reset, .decodeSection hy, hreset y⟩
  | reset => exact ⟨x.reset, .reset x, hreset x⟩

theorem exists_performsAll (hx : x.decoder.Storable) (calls : List Call) :
    ∃ y, PerformsAll x calls y := by
  induction calls generalizing x with
  | nil => exact ⟨x, .nil x⟩
  | cons call calls ih =>
    obtain ⟨y, hy, hstorable⟩ := exists_performs hx call
    obtain ⟨z, hz⟩ := ih hstorable
    exact ⟨z, .cons hy hz⟩

theorem PerformsAll.exists_last (h : PerformsAll x (calls ++ [call]) y) :
    ∃ z, PerformsAll x calls z ∧ Performs z call y := by
  induction calls generalizing x with
  | nil =>
    cases h with
    | cons h hrest =>
      cases hrest
      exact ⟨x, .nil x, h⟩
  | cons first calls ih =>
    cases h with
    | cons h hrest =>
      obtain ⟨z, hz, hlast⟩ := ih hrest
      exact ⟨z, .cons h hz, hlast⟩

/-- **Fields after the end of a section.** Whatever calls were made, and whatever they left in
fields that nothing refers to, the end of a section leaves the fields of a new decoder. -/
theorem PerformsAll.eq_start_of_ends {limit : Nat}
    (h : PerformsAll (start limit) (calls ++ [call]) y)
    (hends : ((Decoder.start limit).performAll calls).Ends call) : y = start limit := by
  obtain ⟨z, hz, hlast⟩ := h.exists_last
  rw [← decoder_start, ← hz.decoder_eq] at hends
  rw [hlast.eq_start_of_ends hends, hz.decoder_eq, limit_performAll, decoder_start]
  rfl

end Storage

end Decoder

/-- The fields of a decoder under these settings. -/
def Settings.storage (s : Settings) : Decoder.Storage := .start s.maxFieldSectionSize

/-- **Decoders and readers used again.** Whatever calls a decoder has had, a call that ends a
section leaves the decoder that the connection started with, and every later call is answered as
by that one. So it is field by field: the fields can follow the decoder through all these calls,
and in whatever way they do, they are those of a new decoder in the end. And a reader that is
configured has the fields of a new reader that is configured in the same way, whatever was in them
before, and they stand for the reader that the library starts with. Within a section the same is
true of its lines: whichever line the fields were last used for, the next one begins alike. -/
theorem Settings.history_independence (s : Settings) (calls : List Decoder.Call)
    (call : Decoder.Call) (hends : (s.decoder.performAll calls).Ends call) :
    s.decoder.performAll (calls ++ [call]) = s.decoder ∧
      (∀ later, (s.decoder.performAll (calls ++ [call])).answers later = s.decoder.answers later) ∧
      (∃ x, s.storage.PerformsAll (calls ++ [call]) x) ∧
      (∀ x, s.storage.PerformsAll (calls ++ [call]) x → x = s.storage) ∧
      (∀ (x : PrefixedInteger.Storage) (bits : Nat),
        x.configure bits = .configure {} bits ∧ (x.configure bits).reader = .start bits) ∧
      (∀ (x : StringLiteral.Storage) (bits : Nat),
        x.configure bits = .configure {} bits ∧ (x.configure bits).reader = .start bits) ∧
      (∀ x : IndexedStorage,
        x.configurePostBase = .configurePostBase {} ∧
          x.configurePostBase.reader = .indexedPostBase) ∧
      (∀ (x : IndexedStorage) (first : UInt8),
        x.configure first = .configure {} first ∧ (x.configure first).reader = .indexed first) ∧
      (∀ (x : NameReferenceStorage) (first : UInt8),
        x.configurePostBase first = .configurePostBase {} first ∧
          (x.configurePostBase first).reader = .nameReferencePostBase first) ∧
      (∀ (x : NameReferenceStorage) (first : UInt8),
        x.configure first = .configure {} first ∧
          (x.configure first).reader = .nameReference first) ∧
      (∀ (x : LiteralNameStorage) (first : UInt8),
        x.configure first = .configure {} first ∧ (x.configure first).reader = .literal first) ∧
      (∀ (x : Decoder.Storage) (first : UInt8), (x.beginLine first).line = .ofByte first) := by
  have hstart : s.decoder.performAll (calls ++ [call]) = s.decoder :=
    Decoder.performAll_of_ends hends
  refine ⟨hstart, fun later ↦ by rw [hstart], ?_, fun x hx ↦ hx.eq_start_of_ends hends, ?_, ?_, ?_,
    ?_, ?_, ?_, ?_, fun x first ↦ x.line_beginLine first⟩
  · exact Decoder.Storage.exists_performsAll (x := s.storage) (.inl rfl) _
  · exact fun x bits ↦ ⟨x.configure_eq bits, x.reader_configure bits⟩
  · exact fun x bits ↦ ⟨x.configure_eq bits, x.reader_configure bits⟩
  · exact fun x ↦ ⟨x.configurePostBase_eq, x.reader_configurePostBase⟩
  · exact fun x first ↦ ⟨x.configure_eq first, x.reader_configure first⟩
  · exact fun x first ↦ ⟨x.configurePostBase_eq first, x.reader_configurePostBase first⟩
  · exact fun x first ↦ ⟨x.configure_eq first, x.reader_configure first⟩
  · exact fun x first ↦ ⟨x.configure_eq first, x.reader_configure first⟩

/-- A section that stops within a name, goes on to the end of that line, and then refers to an entry
that does not exist. -/
theorem Settings.history_independence_missing_entry :
    let s : Settings := {}
    let table := s.table.view
    let calls : List Decoder.Call := [.decode table [0x00, 0x00, 0x23, 0x61]]
    let call : Decoder.Call := .decode table [0x62, 0x63, 0x01, 0x64, 0x80]
    (s.decoder.performAll calls).Ends call ∧
      (∀ later, (s.decoder.performAll (calls ++ [call])).answers later = s.decoder.answers later) ∧
      ∀ x, s.storage.PerformsAll (calls ++ [call]) x → x = s.storage := by
  intro s table calls call
  have hends : (s.decoder.performAll calls).Ends call := ⟨.invalidDynamicTableIndex, by cbv⟩
  obtain ⟨-, hanswers, -, hstorage, -⟩ := s.history_independence calls call hends
  exact ⟨hends, hanswers, hstorage⟩

end FieldCompression
