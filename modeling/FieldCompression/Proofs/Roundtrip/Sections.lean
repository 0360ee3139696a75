import Mathlib.Data.List.Forall2
import FieldCompression.Proofs.Fragmentation.Sections
import FieldCompression.Proofs.Roundtrip.Lines

/-!
# Sections read back

A section that is written and sent in any chunks is read back: its lines are reported as what they
stand for, in order, each as soon as its last octet is there.

## When a line is reported

The statement about time follows from the one about content. The chunks received so far are the
beginning of the encoding, and by fragmentation they may be taken as one chunk. In it some lines are
complete, and those are reported. Of the line after them only a part is there, and a part of a line
completes no line, since otherwise the octets that are missing would be left over when the whole
line is read.
-/

namespace FieldCompression

open FieldLine

/-- The beginning of `c ++ d` contains `c` or is only a part of it. -/
theorem append_eq_append_cases {a b c d : Bytes} (h : a ++ b = c ++ d) :
    (∃ more, a = c ++ more ∧ more ++ b = d) ∨
      ∃ missing, missing ≠ [] ∧ c = a ++ missing ∧ b ≠ [] := by
  rcases List.append_eq_append_iff.mp h with ⟨missing, hc, hb⟩ | ⟨more, ha, hd⟩
  · by_cases hmissing : missing = []
    · subst hmissing
      exact .inl ⟨[], by simpa using hc.symm, by simpa using hb⟩
    · exact .inr ⟨missing, hmissing, hc, by simp [hb, hmissing]⟩
  · exact .inl ⟨more, ha, hd.symm⟩

namespace FieldLine

/-! ## One line -/

private theorem index_lt_of_names {table : TableView} {base required index : Nat}
    {addressing : Addressing} {entry : TableIndex} {field : Field}
    (hnames : Names base addressing index entry) (hholds : Holds table required entry field)
    (hrequired : required < wordBound) (hbase : base < wordBound) : index < wordBound := by
  cases hnames with
  | static =>
    cases hholds with
    | static h =>
      obtain ⟨hindex, -⟩ := List.getElem?_eq_some_iff.mp h
      rw [StaticTable.length_entries] at hindex
      exact Nat.lt_trans hindex (by decide)
  | relative habsolute => omega
  | postBase =>
    cases hholds with
    | dynamic hcount h => omega

/-- A line that stands for a field within the remaining size can be read. -/
theorem readable_of_denotes {p : SectionPrefix} {table : TableView} {line : FieldLine} {e : Event}
    {field : Field} {remaining : Nat} (h : Denotes p table line e) (hfield : e.field? = some field)
    (hsize : field.size ≤ remaining) (hrequired : p.requiredInsertCount < wordBound)
    (hbase : p.base < wordBound)
    (hlength : ∀ string ∈ line.strings, string.payload.length < wordBound) :
    Readable remaining line := by
  cases h with
  | indexed hnames hholds => exact index_lt_of_names hnames hholds hrequired hbase
  | nameReference neverIndexed value hnames hholds =>
    obtain rfl : _ = field := by simpa [Event.field?] using hfield
    simp only [Field.size] at hsize
    exact ⟨index_lt_of_names hnames hholds hrequired hbase, hlength value (by simp [strings]),
      by omega⟩
  | literalName neverIndexed name value =>
    obtain rfl : _ = field := by simpa [Event.field?] using hfield
    simp only [Field.size] at hsize
    exact ⟨hlength name (by simp [strings]), hlength value (by simp [strings]), by omega⟩

namespace Reader

variable (ctx : Context) {r : Reader} {a b : Bytes} {line : FieldLine}

private theorem pending_of_part
    (hcomplete : r.complete? ctx.size.remaining (a ++ b) = some (line, [])) (hb : b ≠ [])
    (hok : ¬Failed (r.read ctx (a ++ b)).result) :
    (r.read ctx a).result = .ok none ∧ (r.read ctx a).events = [] := by
  have hnone : r.complete? ctx.size.remaining a = none := by
    rcases h : r.complete? ctx.size.remaining a with _ | ⟨line', rest⟩
    · rfl
    · have happend := complete?_append h b
      rw [hcomplete] at happend
      simp only [Option.some.injEq, Prod.mk.injEq, List.nil_eq, List.append_eq_nil_iff] at happend
      exact absurd happend.2.2 hb
  have hunfinished := unfinished_read hnone
  rcases h : (r.read ctx a).result with cause | _ | _
  · have hresume : Failed ((r.read ctx a).resume ctx b).result :=
      Reading.failed_resume (by simp [h]) b
    rcases r.read_append ctx a b with heq | ⟨hfailed, -⟩
    · exact absurd (heq ▸ hresume) hok
    · exact absurd hfailed hok
  · exact ⟨rfl, (hunfinished.pending h).2.1⟩
  · exact absurd h hunfinished.result_ne

end Reader

/-! ## The lines of a section -/

/-- How many of the lines are within the first octets of their encoding. -/
def linesWithin : List FieldLine → (octets : Nat) → Nat
  | [], _ => 0
  | line :: lines, octets =>
    if line.encode.length ≤ octets then linesWithin lines (octets - line.encode.length) + 1 else 0

theorem encode_ne_nil (line : FieldLine) : line.encode ≠ [] := by
  have hinteger (bits high v : Nat) : PrefixedInteger.encode bits high v ≠ [] := by
    obtain ⟨x, rest, -, h⟩ := PrefixedInteger.exists_encode_eq_cons bits high v
    simp [h]
  rcases line with ⟨_ | _ | _, index⟩ | ⟨_ | _ | _, neverIndexed, index, value⟩ |
    ⟨neverIndexed, name, value⟩ <;> simp [encode, StringLiteral.encode, hinteger]

private theorem linesWithin_zero (lines : List FieldLine) : linesWithin lines 0 = 0 := by
  cases lines with
  | nil => rfl
  | cons line lines =>
    have := List.length_pos_iff.mpr line.encode_ne_nil
    rw [linesWithin, if_neg (by omega)]

private theorem linesWithin_length (lines : List FieldLine) :
    linesWithin lines (lines.flatMap encode).length = lines.length := by
  induction lines with
  | nil => rfl
  | cons line lines ih =>
    rw [List.flatMap_cons, List.length_append, linesWithin, if_pos (Nat.le_add_right _ _),
      Nat.add_sub_cancel_left, ih, List.length_cons]

end FieldLine

namespace Decoder

open FieldLine.Reader

section Loop

variable {p : SectionPrefix} {table : TableView} (hrequired : p.requiredInsertCount < wordBound)
  (hbase : p.base < wordBound)

include hrequired hbase

private theorem readLines_append_of_denotes {size : SectionSize} {line : FieldLine} {e : Event}
    {field : Field} (hdenotes : Denotes p table line e) (hfield : e.field? = some field)
    (hfits : size.used + field.size ≤ size.limit)
    (hlength : ∀ string ∈ line.strings, string.payload.length < wordBound) (more : Bytes) :
    let x := readLines { sectionPrefix := p, table, size } (line.encode ++ more)
    let y := readLines
      { sectionPrefix := p, table, size := { size with used := size.used + field.size } } more
    x.result = y.result ∧ x.events = e :: y.events ∧ x.line = y.line := by
  have hremaining : field.size ≤ size.remaining := by
    rw [SectionSize.remaining]
    omega
  obtain ⟨first, tail, hencode, hcomplete⟩ := complete?_encode
    (readable_of_denotes hdenotes hfield hremaining hrequired hbase hlength)
  obtain ⟨notes, hread⟩ := read_of_denotes { sectionPrefix := p, table, size }
    (hcomplete more) hdenotes hfield hfits
  have hcons : line.encode ++ more = first :: (tail ++ more) := by rw [hencode, List.cons_append]
  rw [hcons] at hread ⊢
  rw [readLines_cons, hread, readLinesAfter_of_done rfl]
  exact ⟨rfl, rfl, rfl⟩

private theorem readLines_of_part {size : SectionSize} {line : FieldLine} {e : Event}
    {field : Field} (hdenotes : Denotes p table line e) (hfield : e.field? = some field)
    (hfits : size.used + field.size ≤ size.limit)
    (hlength : ∀ string ∈ line.strings, string.payload.length < wordBound) {a b : Bytes}
    (h : line.encode = a ++ b) (hb : b ≠ []) :
    let x := readLines { sectionPrefix := p, table, size } a
    x.result = .ok () ∧ x.events = [] := by
  have hremaining : field.size ≤ size.remaining := by
    rw [SectionSize.remaining]
    omega
  obtain ⟨first, tail, hencode, hcomplete⟩ := complete?_encode
    (readable_of_denotes hdenotes hfield hremaining hrequired hbase hlength)
  have hwhole := hcomplete []
  rw [List.append_nil, h] at hwhole
  obtain ⟨notes, hread⟩ := read_of_denotes { sectionPrefix := p, table, size } hwhole
    hdenotes hfield hfits
  cases a with
  | nil =>
    rw [readLines_nil]
    exact ⟨rfl, rfl⟩
  | cons byte a =>
    obtain rfl : first = byte := by
      rw [hencode, List.cons_append] at h
      exact (List.cons.inj h).1
    obtain ⟨hpending, hevents⟩ := pending_of_part
      { sectionPrefix := p, table, size } hwhole hb (by rw [hread]; exact not_failed_ok _)
    rw [readLines_cons, readLinesAfter_of_pending hpending]
    exact ⟨rfl, hevents⟩

/-- The beginning of some lines is read as those of them that it contains. -/
theorem readLines_of_denotes {lines : List FieldLine} {events : List Event}
    (hdenotes : List.Forall₂ (Denotes p table) lines events)
    (hlength : ∀ line ∈ lines, ∀ string ∈ line.strings, string.payload.length < wordBound)
    (size : SectionSize)
    (hsize : size.used + totalSize (fieldsOf events) ≤ size.limit) {a b : Bytes}
    (h : a ++ b = lines.flatMap FieldLine.encode) :
    let x := readLines { sectionPrefix := p, table, size } a
    x.result = .ok () ∧ x.events = events.take (linesWithin lines a.length) ∧
      (b = [] → x.line = .idle) := by
  induction hdenotes generalizing size a with
  | nil =>
    obtain ⟨rfl, rfl⟩ := List.append_eq_nil_iff.mp h
    rw [readLines_nil]
    exact ⟨rfl, rfl, fun _ ↦ rfl⟩
  | @cons line e lines events hline hlines ih =>
    obtain ⟨field, hfield⟩ := hline.exists_field
    rw [totalSize_fieldsOf_cons hfield] at hsize
    have hfits : size.used + field.size ≤ size.limit := by omega
    have hrest : ({ size with used := size.used + field.size } : SectionSize).used +
        totalSize (fieldsOf events) ≤ size.limit := by
      rwa [Nat.add_assoc]
    have hword := hlength line List.mem_cons_self
    -- the octets contain the first line, or they end within it
    have hsplit : (∃ more, a = line.encode ++ more ∧ more ++ b = lines.flatMap FieldLine.encode) ∨
        ∃ missing, missing ≠ [] ∧ line.encode = a ++ missing ∧ b ≠ [] := by
      rw [List.flatMap_cons] at h
      exact append_eq_append_cases h
    rcases hsplit with ⟨more, rfl, hmore⟩ | ⟨missing, hmissing, hencode, hb⟩
    · obtain ⟨hresult, hevents, hidle⟩ :=
        readLines_append_of_denotes hrequired hbase hline hfield hfits hword more
      obtain ⟨ihresult, ihevents, ihidle⟩ :=
        ih (fun line hmem ↦ hlength line (List.mem_cons_of_mem _ hmem)) _ hrest hmore
      refine ⟨hresult.trans ihresult, ?_, fun hb ↦ hidle.trans (ihidle hb)⟩
      rw [hevents, ihevents, linesWithin, List.length_append, if_pos (Nat.le_add_right _ _),
        Nat.add_sub_cancel_left, List.take_succ_cons]
    · obtain ⟨hresult, hevents⟩ :=
        readLines_of_part hrequired hbase hline hfield hfits hword hencode hmissing
      refine ⟨hresult, ?_, fun h ↦ absurd h hb⟩
      have hshort : ¬line.encode.length ≤ a.length := by
        have := List.length_pos_iff.mpr hmissing
        rw [hencode, List.length_append]
        omega
      rw [hevents, linesWithin, if_neg hshort, List.take_zero]

end Loop

/-! ## The whole section -/

section Whole

variable {p : SectionPrefix} {table : TableView}
  (hrequired : p.requiredInsertCount = 0 ∨
    table.insertCount < p.requiredInsertCount + table.maxEntries ∧
      p.requiredInsertCount ≤ table.insertCount)
  (hcount : table.insertCount < 1 <<< 63) (hbase : p.base < wordBound)

include hrequired hcount hbase

theorem read_opening (more : Bytes) :
    SectionPrefix.Reader.fresh.read table (p.encode table.maxEntries ++ more) =
      ⟨.ok (some p), .done p, more⟩ := by
  have hword : (1 <<< 63) + 1 < wordBound := by decide
  refine SectionPrefix.Reader.read_encode ?_ (by omega) hbase more
  exact hrequired.imp id fun h ↦ ⟨h.1, by omega⟩

private theorem read_opening_part {a b : Bytes} (h : p.encode table.maxEntries = a ++ b)
    (hb : b ≠ []) : (SectionPrefix.Reader.fresh.read table a).result = .ok none := by
  have hwhole := read_opening hrequired hcount hbase []
  rw [List.append_nil, h, SectionPrefix.Reader.read_append] at hwhole
  rcases hread : (SectionPrefix.Reader.fresh.read table a).result with cause | _ | p'
  · simp [Outcome.resume, hread] at hwhole
  · rfl
  · simp [Outcome.resume, hread, hb] at hwhole

theorem advance_of_denotes {lines : List FieldLine} {events : List Event} {limit : Nat}
    (hdenotes : List.Forall₂ (Denotes p table) lines events)
    (hsize : totalSize (fieldsOf events) ≤ limit)
    (hlength : ∀ line ∈ lines, ∀ string ∈ line.strings, string.payload.length < wordBound)
    {a b : Bytes}
    (h : a ++ b = encodeSection table.maxEntries p lines) :
    let x := (start limit).advance table a
    x.result = .ok () ∧
      x.events = events.take
        (linesWithin lines (a.length - (p.encode table.maxEntries).length)) ∧
      (b = [] → x.decoder.phase = .lines p .idle) := by
  rw [encodeSection] at h
  have hsplit : (∃ more, a = p.encode table.maxEntries ++ more ∧
        more ++ b = lines.flatMap FieldLine.encode) ∨
      ∃ missing, missing ≠ [] ∧ p.encode table.maxEntries = a ++ missing ∧ b ≠ [] :=
    append_eq_append_cases h
  rcases hsplit with ⟨more, rfl, hmore⟩ | ⟨missing, hmissing, hencode, hb⟩
  · have hunblocked : ¬table.insertCount < p.requiredInsertCount := by omega
    have hword : (1 <<< 63) < wordBound := by decide
    have hread := readLines_of_denotes (by omega) hbase hdenotes hlength { limit }
      (by simpa using hsize) hmore
    obtain ⟨hresult, hevents, hidle⟩ := hread
    simp only [advance, start, read_opening hrequired hcount hbase, hunblocked, if_false,
      decodeLines, resumeLines_idle, List.length_append, Nat.add_sub_cancel_left]
    exact ⟨hresult, hevents, fun hb ↦ by rw [hidle hb]⟩
  · have hpending := read_opening_part hrequired hcount hbase hencode hmissing
    have hshort : a.length - (p.encode table.maxEntries).length = 0 := by
      rw [hencode, List.length_append]
      omega
    rw [hshort, linesWithin_zero, List.take_zero]
    simp only [advance, start, hpending, true_and]
    exact fun h ↦ absurd h hb

end Whole

end Decoder

/-- **Decoding undoes encoding.** Let `lines` stand for `events` in a section with the prefix `p`,
and let the section be within the limit. Whatever chunks its encoding is cut into, every call
succeeds, after each call exactly those lines have been reported whose octets have all arrived, and
at the end the prefix is given back. -/
theorem Settings.decode_encodeSection (s : Settings) {table : TableView} {p : SectionPrefix}
    {lines : List FieldLine} {events : List Event} {chunks : List Bytes}
    (hcount : table.insertCount < 1 <<< 63)
    (hrequired : p.requiredInsertCount = 0 ∨
      table.insertCount < p.requiredInsertCount + table.maxEntries ∧
        p.requiredInsertCount ≤ table.insertCount)
    (hbase : p.base < wordBound) (hdenotes : List.Forall₂ (Denotes p table) lines events)
    (hsize : totalSize (fieldsOf events) ≤ s.maxFieldSectionSize)
    (hlength : ∀ line ∈ lines, ∀ string ∈ line.strings, string.payload.length < wordBound)
    (hchunks : chunks.flatten = encodeSection table.maxEntries p lines) :
    (∀ n, (s.decoder.run table (chunks.take n)).result = .ok () ∧
        (s.decoder.run table (chunks.take n)).events =
          events.take (linesWithin lines
            ((chunks.take n).flatten.length - (p.encode table.maxEntries).length))) ∧
      (s.decoder.run table chunks).events = events ∧
      (s.decoder.run table chunks).decoder.finish.result = .ok p := by
  have hbegins (n : Nat) :
      (chunks.take n).flatten ++ (chunks.drop n).flatten =
        encodeSection table.maxEntries p lines := by
    rw [← List.flatten_append, List.take_append_drop, hchunks]
  have hstep (n : Nat) := Decoder.advance_of_denotes hrequired hcount hbase hdenotes hsize hlength
    (hbegins n)
  obtain ⟨hresult, hevents, hphase⟩ := Decoder.advance_of_denotes hrequired hcount hbase hdenotes
    hsize hlength ((List.append_nil _).trans hchunks)
  have hrun : s.decoder.run table chunks = _ := Decoder.run_start_of_ok hresult
  refine ⟨fun n ↦ ?_, ?_, ?_⟩
  · obtain ⟨hresult, hevents, -⟩ := hstep n
    have hrun : s.decoder.run table (chunks.take n) = _ := Decoder.run_start_of_ok hresult
    rw [hrun]
    exact ⟨rfl, hevents⟩
  · have hall : linesWithin lines
        (chunks.flatten.length - (p.encode table.maxEntries).length) = events.length := by
      rw [hchunks, encodeSection, List.length_append, Nat.add_sub_cancel_left,
        linesWithin_length, hdenotes.length_eq]
    rw [hrun]
    exact hevents.trans (by rw [hall, List.take_length])
  · rw [hrun]
    simp only [Decoder.finish, hphase rfl]

/-- A forward reference and a line with a Huffman-coded value, sent octet by octet. -/
theorem Settings.decode_encodeSection_octets :
    let table := TableView.ofEntries 1 4 [(0, ⟨[97], [98]⟩)]
    let chunks : List Bytes := [[0x02], [0x80], [0x10], [0x21], [0x63], [0x81], [0x93]]
    (({} : Settings).decoder.run table chunks).events =
        [.indexed (.dynamic 0) ⟨[97], [98]⟩, .literalName ⟨[99], [100]⟩ false true false] ∧
      (({} : Settings).decoder.run table chunks).decoder.finish.result = .ok ⟨1, 0⟩ :=
  have hdenotes : List.Forall₂ (Denotes ⟨1, 0⟩ (TableView.ofEntries 1 4 [(0, ⟨[97], [98]⟩)]))
      [.indexed .postBase 0, .literalName false ⟨false, [99]⟩ ⟨true, [100]⟩]
      [.indexed (.dynamic 0) ⟨[97], [98]⟩, .literalName ⟨[99], [100]⟩ false true false] :=
    .cons (.indexed (.postBase 0) (.dynamic (by decide) rfl)) (.cons (.literalName ..) .nil)
  (Settings.decode_encodeSection {} (by decide) (.inr (by decide)) (by decide) hdenotes (by decide)
    (by decide) (by decide)).2

end FieldCompression
