import FieldCompression.Proofs.FieldSection.Refusals

/-!
# What a section depends on

A section announces how many insertions it relies on, its Required Insert Count. What the table
holds beyond that count must not matter to it, and neither must the numbers of the table, once they
have served to reconstruct the count and to decide whether the section must wait.
-/

namespace FieldCompression

open FieldLine

/-! ## Lines under two tables

A line looks at the table in one place, when its reference is looked up, and by then the reference
has been found to be below the Required Insert Count of the section. So tables that hold the same
entries below that count cannot be told apart by any line: each call does the same under both, down
to what it leaves unread and what it notes.

The statements are equations about `Context.withTable`, one for each function between a reference
and the loop over lines. None of them says what a line does, so they do not depend on the forms that
lines have. -/

/-- Two tables hold the same entries below a count. They may differ in everything else. -/
def TableView.AgreeBelow (count : Nat) (table table' : TableView) : Prop :=
  ∀ index < count, table.get? index = table'.get? index

namespace FieldLine

/-- The same context with another table. -/
def Context.withTable (ctx : Context) (table : TableView) : Context := { ctx with table := table }

/-- The section cannot tell another table from its own. -/
def Context.Admits (ctx : Context) (table : TableView) : Prop :=
  ctx.table.AgreeBelow ctx.sectionPrefix.requiredInsertCount table

variable {ctx : Context} {table : TableView}

/-! ### References -/

namespace Context

/-- Where a reference goes is counted from the prefix of the section alone. -/
theorem resolve_withTable (ctx : Context) (table : TableView) (addressing : Addressing)
    (index : Nat) :
    (ctx.withTable table).resolve addressing index = ctx.resolve addressing index := rfl

/-- What is looked up has been resolved, so it is below the count. -/
theorem lookup_withTable (h : ctx.Admits table) {addressing : Addressing} {index : Nat}
    {entry : TableIndex} (hresolve : ctx.resolve addressing index = .ok entry) :
    (ctx.withTable table).lookup entry = ctx.lookup entry := by
  obtain ⟨-, hbelow⟩ := resolve_eq_ok_iff.mp hresolve
  cases entry with
  | static position => rfl
  | dynamic absolute =>
    have hsame : ctx.table.get? absolute = table.get? absolute := h absolute (hbelow absolute rfl)
    simp only [lookup, withTable, hsame]

private theorem withReference_withTable (h : ctx.Admits table) (addressing : Addressing)
    (index : Nat) (note : TableIndex → Note) (next : TableIndex → Field → Delivery) :
    (ctx.withTable table).withReference addressing index note next =
      ctx.withReference addressing index note next := by
  rw [withReference, withReference, resolve_withTable]
  rcases hresolve : ctx.resolve addressing index with cause | entry
  · rfl
  · simp only [lookup_withTable h hresolve]
    rfl

/-- **Delivery.** A line is delivered in the same way under both tables. -/
theorem deliver_withTable (h : ctx.Admits table) (line : FieldLine) :
    (ctx.withTable table).deliver line = ctx.deliver line := by
  cases line with
  | indexed addressing index => exact withReference_withTable h addressing index _ _
  | nameReference addressing neverIndexed index value =>
    exact withReference_withTable h addressing index _ _
  | literalName neverIndexed name value => rfl

end Context

/-! ### Reading a line -/

namespace Reader

theorem finish_withTable (h : ctx.Admits table) :
    finish (ctx.withTable table) = finish ctx := by
  funext line r rest
  simp only [finish, Context.deliver_withTable h]

private theorem read_nameValue_withTable (h : ctx.Admits table) (addressing : Addressing)
    (neverIndexed : Bool) (index : Nat) (string : StringLiteral.Reader) (value input : Bytes) :
    (nameValue addressing neverIndexed index string value).read (ctx.withTable table) input =
      (nameValue addressing neverIndexed index string value).read ctx input := by
  rw [read_nameValue, read_nameValue, finish_withTable h]
  rfl

private theorem read_literalValue_withTable (h : ctx.Admits table) (neverIndexed : Bool)
    (name : StringLiteral) (string : StringLiteral.Reader) (value input : Bytes) :
    (literalValue neverIndexed name string value).read (ctx.withTable table) input =
      (literalValue neverIndexed name string value).read ctx input := by
  rw [read_literalValue, read_literalValue, finish_withTable h]
  rfl

/-- **Lines.** A call on a line does the same under both tables. -/
theorem read_withTable (h : ctx.Admits table) (r : Reader) (input : Bytes) :
    r.read (ctx.withTable table) input = r.read ctx input := by
  cases r with
  | idle =>
    rw [read_idle, read_idle]
    rfl
  | entryIndex addressing int =>
    rw [read_entryIndex, read_entryIndex, finish_withTable h]
    rfl
  | nameIndex addressing neverIndexed int =>
    rw [read_nameIndex, read_nameIndex]
    simp only [read_nameValue_withTable h]
    rfl
  | nameValue addressing neverIndexed index string value =>
    exact read_nameValue_withTable h addressing neverIndexed index string value input
  | literalName neverIndexed string name =>
    rw [read_literalName, read_literalName]
    simp only [read_literalValue_withTable h]
    rfl
  | literalValue neverIndexed name string value =>
    exact read_literalValue_withTable h neverIndexed name string value input

end Reader

end FieldLine

/-! ### Reading line after line -/

namespace Decoder

variable {ctx : Context} {table table' : TableView}

/-- The same visit under another table. -/
def Visit.withTable (v : Visit) (table : TableView) : Visit :=
  { v with ctx := v.ctx.withTable table }

private theorem Visit.loop_withTable {v : Visit} (h : v.ctx.Admits table) :
    (v.withTable table).loop = v.loop := by
  have hreading {v : Visit} (h : v.ctx.Admits table) : (v.withTable table).reading = v.reading :=
    Reader.read_withTable h v.line v.input
  induction v using loop_induction with
  | error v cause hresult =>
    rw [loop, loop, hreading h, readLinesAfter_of_error hresult, readLinesAfter_of_error hresult]
  | pending v hresult =>
    rw [loop, loop, hreading h, readLinesAfter_of_pending hresult,
      readLinesAfter_of_pending hresult]
  | last v hdone hrest =>
    have hsame := hreading h
    rw [loop_of_end hdone hrest, loop_of_end (by rw [hsame, hdone]) (by rw [hsame, hrest]), hsame]
  | next v first rest hdone hrest ih =>
    have hsame := hreading h
    have hfollowing :
        (v.withTable table).following first rest = (v.following first rest).withTable table := by
      rw [following, following, hsame]
      rfl
    rw [loop_of_next hdone hrest, loop_of_next (by rw [hsame, hdone]) (by rw [hsame, hrest]), hsame,
      hfollowing, ih h]

private theorem resumeLines_withTable (h : ctx.Admits table) (line : FieldLine.Reader)
    (input : Bytes) :
    resumeLines (ctx.withTable table) line input = resumeLines ctx line input := by
  cases input with
  | nil =>
    rw [resumeLines_nil, resumeLines_nil]
    rfl
  | cons first rest =>
    rw [Visit.resumeLines_of_first? rfl, Visit.resumeLines_of_first? rfl]
    let v : Visit :=
      { ctx, line := if line = .idle then .ofByte first else line, input := first :: rest }
    exact Visit.loop_withTable (v := v) h

/-- **The lines of a call.** A call that comes to the lines of a section does the same under both
tables. -/
theorem decodeLines_of_agreeBelow {d : Decoder} {p : SectionPrefix}
    (h : table.AgreeBelow p.requiredInsertCount table') (line : FieldLine.Reader) (input : Bytes) :
    d.decodeLines table' p line input = d.decodeLines table p line input := by
  let ctx : Context := { sectionPrefix := p, table, size := d.size }
  have hadmits : ctx.Admits table' := h
  rw [decodeLines, decodeLines]
  exact congrArg (fun r : LinesReading ↦
    ({ r with decoder := { size := r.size, phase := .lines p r.line } } : Step))
    (resumeLines_withTable hadmits line input)

end Decoder

/-! ## Sections under two tables

A section is decoded twice, chunk by chunk, each time under tables of its own, which may change from
chunk to chunk. A `Trial` is one chunk with the two tables that it meets, and `Trial.Admitted` says
what the tables have to agree on: the entries below the count at every chunk, the count itself at
the chunk that ends its encoding, and that the section need not wait at the chunk that ends its
prefix.

The conditions on a trial speak of the octets before it, and the decoder of what it holds. `HasRead`
ties the two: it says how far the prefix has come in the octets so far. One call keeps it
(`together_of_admitted`), and the rest is induction on the trials. -/

/-! ### Octets that begin a section -/

namespace SectionPrefix

/-- The encoded Required Insert Count that a section begins with, once it is complete. -/
def encodedCount? (octets : Bytes) : Option Nat :=
  (FieldLine.Reader.index? (.start 8) octets).map Prod.fst

/-- The prefix that a section begins with, once it is complete, if its Required Insert Count is the
given one. -/
def opening? (count : Nat) (octets : Bytes) : Option SectionPrefix :=
  (FieldLine.Reader.index? (.start 8) octets).bind fun (_, middle) ↦
    match (Reader.readSign count middle).result with
    | .ok p? => p?
    | .error _ => none

variable {octets more middle : Bytes} {encoded count : Nat} {p : SectionPrefix}

private theorem encodedCount?_append (h : encodedCount? octets = some encoded) (more : Bytes) :
    encodedCount? (octets ++ more) = some encoded := by
  obtain ⟨⟨encoded, middle⟩, hindex, rfl⟩ := Option.map_eq_some_iff.mp h
  rw [encodedCount?, FieldLine.Reader.index?_append hindex, Option.map_some]

theorem opening?_of_index? (h : FieldLine.Reader.index? (.start 8) octets = some (encoded, middle))
    (count : Nat) :
    opening? count octets = some p ↔ (Reader.readSign count middle).result = .ok (some p) := by
  simp only [opening?, h, Option.bind_some]
  rcases (Reader.readSign count middle).result with cause | _ | p' <;> simp

theorem requiredInsertCount_of_opening? (h : opening? count octets = some p) :
    p.requiredInsertCount = count := by
  obtain ⟨⟨encoded, middle⟩, hindex, -⟩ := Option.bind_eq_some_iff.mp h
  obtain ⟨-, -, -, hcount, -⟩ := Reader.readSign_eq_some ((opening?_of_index? hindex count).mp h)
  exact hcount

private theorem opening?_append (h : opening? count octets = some p) (more : Bytes) :
    opening? count (octets ++ more) = some p := by
  obtain ⟨⟨encoded, middle⟩, hindex, -⟩ := Option.bind_eq_some_iff.mp h
  have hsign := (opening?_of_index? hindex count).mp h
  -- which table reads on does not matter, since nothing is left to read
  let table : TableView := { get? := fun _ ↦ none, insertCount := 0, maxEntries := 0 }
  rw [opening?_of_index? (FieldLine.Reader.index?_append hindex more),
    Reader.readSign_append table, Outcome.resume, hsign]

end SectionPrefix

/-! ### Trials -/

/-- A chunk of a section, and the tables under which it is decoded the one time and the other. -/
structure Trial where
  /-- The chunk. -/
  chunk : Bytes
  /-- The table of the first decoding. -/
  first : TableView
  /-- The table of the second. -/
  second : TableView

namespace Trial

/-- What the first decoding is given. -/
def underFirst (t : Trial) : TableView × Bytes := (t.first, t.chunk)

/-- What the second decoding is given. -/
def underSecond (t : Trial) : TableView × Bytes := (t.second, t.chunk)

/-- The octets of some chunks. -/
def octets (feed : List Trial) : Bytes := feed.flatMap chunk

/-- The two tables agree, as far as a section matters that relies on `count` insertions. The section
has begun with the octets before. -/
structure Admitted (count : Nat) (before : Bytes) (t : Trial) : Prop where
  /-- They hold the same entries below the count. -/
  entries : t.first.AgreeBelow count t.second
  /-- Where the encoding of the count ends, both reconstruct the count from it. -/
  reconstructed : ∀ encoded, SectionPrefix.encodedCount? before = none →
    SectionPrefix.encodedCount? (before ++ t.chunk) = some encoded →
    SectionPrefix.reconstruct encoded t.first.maxEntries t.first.insertCount = .ok count ∧
      SectionPrefix.reconstruct encoded t.second.maxEntries t.second.insertCount = .ok count
  /-- Where the prefix ends, as much as it requires has been inserted into both. -/
  inserted : ∀ p, SectionPrefix.opening? count before = none →
    SectionPrefix.opening? count (before ++ t.chunk) = some p →
    count ≤ t.first.insertCount ∧ count ≤ t.second.insertCount

/-- At every chunk the two tables agree, as far as the section matters. -/
def Alike (count : Nat) : Bytes → List Trial → Prop
  | _, [] => True
  | before, t :: feed => t.Admitted count before ∧ Alike count (before ++ t.chunk) feed

private theorem alike_zero {before : Bytes} {feed : List Trial}
    (h : SectionPrefix.encodedCount? (before ++ octets feed) = some 0) : Alike 0 before feed := by
  induction feed generalizing before with
  | nil => trivial
  | cons t feed ih =>
    rw [octets, List.flatMap_cons, ← List.append_assoc] at h
    refine ⟨⟨fun index hindex ↦ absurd hindex (Nat.not_lt_zero index), ?_,
      fun _ _ _ ↦ ⟨Nat.zero_le _, Nat.zero_le _⟩⟩, ih h⟩
    intro encoded _ hencoded
    rw [SectionPrefix.encodedCount?_append hencoded] at h
    obtain rfl : encoded = 0 := Option.some.inj h
    exact ⟨rfl, rfl⟩

end Trial

namespace Decoder

/-! ### How far the prefix has come -/

/-- The decoder has read these octets of a section that relies on `count` insertions. -/
inductive HasRead (count : Nat) (octets : Bytes) (d : Decoder) : Prop
  /-- They end within the encoding of the count. -/
  | insertCount (hpending : ((PrefixedInteger.Reader.start 8).read octets).result = .ok none)
    (hphase :
      d.phase = .opening (.insertCount ((PrefixedInteger.Reader.start 8).read octets).state))
  /-- They end within the rest of the prefix. -/
  | base (encoded : Nat) (middle : Bytes)
    (hindex : FieldLine.Reader.index? (.start 8) octets = some (encoded, middle))
    (hpending : (SectionPrefix.Reader.readSign count middle).result = .ok none)
    (hphase : d.phase = .opening (SectionPrefix.Reader.readSign count middle).state)
  /-- They hold the prefix. -/
  | lines (p : SectionPrefix) (line : FieldLine.Reader)
    (hopening : SectionPrefix.opening? count octets = some p) (hphase : d.phase = .lines p line)

theorem hasRead_start (count limit : Nat) : HasRead count [] (start limit) := .insertCount rfl rfl

/-- A call that does the same under both tables, does not find the section blocked, and has read
its chunk. -/
structure Together (count : Nat) (before : Bytes) (d : Decoder) (t : Trial) : Prop where
  /-- It does the same. -/
  same : d.advance t.second t.chunk = d.advance t.first t.chunk
  /-- The section is not blocked. -/
  unblocked : (d.advance t.first t.chunk).result ≠ .error .dynamicTableWouldBlock
  /-- The chunk has been read. -/
  hasRead : (d.advance t.first t.chunk).result = .ok () →
    HasRead count (before ++ t.chunk) (d.advance t.first t.chunk).decoder

variable {d : Decoder} {count : Nat} {before : Bytes} {t : Trial}

/-- What a call does that completes a prefix, if as much as that requires has been inserted. -/
theorem advance_of_accepted {reader : SectionPrefix.Reader} {table : TableView} {chunk : Bytes}
    {p : SectionPrefix} (hphase : d.phase = .opening reader)
    (hread : (reader.read table chunk).result = .ok (some p))
    (hle : p.requiredInsertCount ≤ table.insertCount) :
    d.advance table chunk =
      let s := d.decodeLines table p .idle (reader.read table chunk).rest
      { s with notes := .sectionStarted p :: s.notes } := by
  simp only [advance, hphase, hread, Nat.not_lt.mpr hle, if_false]

private theorem together_lines {p : SectionPrefix} {line : FieldLine.Reader}
    (h : t.Admitted count before) (hopening : SectionPrefix.opening? count before = some p)
    (hphase : d.phase = .lines p line) : Together count before d t := by
  have hfirst : d.advance t.first t.chunk = d.decodeLines t.first p line t.chunk := by
    rw [advance, hphase]
  have hsecond : d.advance t.second t.chunk = d.decodeLines t.second p line t.chunk := by
    rw [advance, hphase]
  have hentries : t.first.AgreeBelow p.requiredInsertCount t.second :=
    SectionPrefix.requiredInsertCount_of_opening? hopening ▸ h.entries
  refine ⟨by rw [hfirst, hsecond, decodeLines_of_agreeBelow hentries], ?_, fun _ ↦ ?_⟩
  · rw [hfirst]
    exact result_resumeLines_ne_wouldBlock _ line t.chunk
  · rw [hfirst]
    exact .lines p _ (SectionPrefix.opening?_append hopening t.chunk) rfl

theorem together_of_unaccepted {reader : SectionPrefix.Reader} (hphase : d.phase = .opening reader)
    (hsame : reader.read t.second t.chunk = reader.read t.first t.chunk)
    (hunaccepted : ∀ p, (reader.read t.first t.chunk).result ≠ .ok (some p))
    (hread : (reader.read t.first t.chunk).result = .ok none →
      HasRead count (before ++ t.chunk)
        { d with phase := .opening (reader.read t.first t.chunk).state }) :
    Together count before d t := by
  rcases ho : (reader.read t.first t.chunk).result with cause | _ | p
  · have hcause := SectionPrefix.Reader.cause_read ho
    refine ⟨?_, ?_, ?_⟩
    · simp only [advance, hphase, hsame, ho]
    · simp only [advance, hphase, ho]
      rintro ⟨⟩
      exact absurd hcause (by decide)
    · simp [advance, hphase, ho]
  · refine ⟨?_, ?_, fun _ ↦ ?_⟩
    · simp only [advance, hphase, hsame, ho]
    · simp [advance, hphase, ho]
    · simp only [advance, hphase, ho]
      exact hread ho
  · exact absurd ho (hunaccepted p)

theorem together_base {reader : SectionPrefix.Reader} {encoded : Nat} {middle : Bytes}
    (h : t.Admitted count before) (hphase : d.phase = .opening reader)
    (hbefore : SectionPrefix.opening? count before = none)
    (hindex : FieldLine.Reader.index? (.start 8) (before ++ t.chunk) = some (encoded, middle))
    (hfirst : reader.read t.first t.chunk = SectionPrefix.Reader.readSign count middle)
    (hsecond : reader.read t.second t.chunk = SectionPrefix.Reader.readSign count middle) :
    Together count before d t := by
  have hsame : reader.read t.second t.chunk = reader.read t.first t.chunk :=
    hsecond.trans hfirst.symm
  by_cases haccepted : ∃ p, (reader.read t.first t.chunk).result = .ok (some p)
  · obtain ⟨p, hread⟩ := haccepted
    have hopening := (SectionPrefix.opening?_of_index? hindex count).mpr (hfirst ▸ hread)
    have hcount := SectionPrefix.requiredInsertCount_of_opening? hopening
    obtain ⟨hle, hle'⟩ := h.inserted p hbefore hopening
    have hentries : t.first.AgreeBelow p.requiredInsertCount t.second := hcount ▸ h.entries
    have hadvance := advance_of_accepted hphase hread (hcount ▸ hle)
    refine ⟨?_, ?_, fun _ ↦ ?_⟩
    · rw [hadvance, advance_of_accepted hphase (hsame ▸ hread) (hcount ▸ hle'), hsame,
        decodeLines_of_agreeBelow hentries]
    · rw [hadvance]
      exact result_resumeLines_ne_wouldBlock _ .idle _
    · rw [hadvance]
      exact .lines p _ hopening rfl
  · refine together_of_unaccepted hphase hsame (fun p hp ↦ haccepted ⟨p, hp⟩) ?_
    rw [hfirst]
    exact fun hpending ↦ .base encoded middle hindex hpending rfl

/-- The encoding of the count is read in the same way, since it means the same when it ends. -/
theorem together_count (h : t.Admitted count before)
    (hpending : ((PrefixedInteger.Reader.start 8).read before).result = .ok none)
    (hphase :
      d.phase = .opening (.insertCount ((PrefixedInteger.Reader.start 8).read before).state)) :
    Together count before d t := by
  have hresume : ((PrefixedInteger.Reader.start 8).read before).state.read t.chunk =
      (PrefixedInteger.Reader.start 8).read (before ++ t.chunk) := by
    rw [PrefixedInteger.Reader.read_append, Outcome.resume, hpending]
  have hnone : FieldLine.Reader.index? (.start 8) before = none := by
    simp only [FieldLine.Reader.index?, hpending]
  rcases hint : ((PrefixedInteger.Reader.start 8).read (before ++ t.chunk)).result with
    cause | _ | encoded
  · refine together_of_unaccepted hphase ?_ ?_ ?_
    · simp only [SectionPrefix.Reader.read, hresume, hint]
    · simp [SectionPrefix.Reader.read, hresume, hint]
    · simp [SectionPrefix.Reader.read, hresume, hint]
  · refine together_of_unaccepted hphase ?_ ?_ fun _ ↦ .insertCount hint ?_
    · simp only [SectionPrefix.Reader.read, hresume, hint]
    · simp [SectionPrefix.Reader.read, hresume, hint]
    · simp only [SectionPrefix.Reader.read, hresume, hint]
  · have hindex : FieldLine.Reader.index? (.start 8) (before ++ t.chunk) =
        some (encoded, ((PrefixedInteger.Reader.start 8).read (before ++ t.chunk)).rest) := by
      simp only [FieldLine.Reader.index?, hint]
    obtain ⟨hfirst, hsecond⟩ := h.reconstructed encoded
      (by rw [SectionPrefix.encodedCount?, hnone, Option.map_none])
      (by rw [SectionPrefix.encodedCount?, hindex, Option.map_some])
    refine together_base h hphase ?_ hindex ?_ ?_
    · rw [SectionPrefix.opening?, hnone, Option.bind_none]
    · simp only [SectionPrefix.Reader.read, hresume, hint, hfirst]
    · simp only [SectionPrefix.Reader.read, hresume, hint, hsecond]

/-- **One chunk.** Tables that agree, as far as the section matters, are not told apart by a call on
the next chunk. -/
theorem together_of_admitted (hread : HasRead count before d) (h : t.Admitted count before) :
    Together count before d t := by
  cases hread with
  | lines p line hopening hphase => exact together_lines h hopening hphase
  | base encoded middle hindex hpending hphase =>
    -- the reader goes on in the rest of the prefix, whatever the table
    have hresume (table : TableView) :
        (SectionPrefix.Reader.readSign count middle).state.read table t.chunk =
          SectionPrefix.Reader.readSign count (middle ++ t.chunk) := by
      rw [SectionPrefix.Reader.readSign_append table, Outcome.resume, hpending]
    have hbefore : SectionPrefix.opening? count before = none := by
      simp only [SectionPrefix.opening?, hindex, Option.bind_some, hpending]
    exact together_base h hphase hbefore (FieldLine.Reader.index?_append hindex t.chunk)
      (hresume t.first) (hresume t.second)
  | insertCount hpending hphase => exact together_count h hpending hphase

/-! ### A whole section -/

/-- What the caller learns from decoding a section: from the calls on its chunks, up to the first
that fails, and from declaring the section complete after them. -/
def sectionAnswers (d : Decoder) : List (TableView × Bytes) → List Answer
  | [] => [d.answer .finish]
  | (table, chunk) :: more =>
    let s := d.decode table chunk
    match s.result with
    | .ok () => d.answer (.decode table chunk) :: s.decoder.sectionAnswers more
    | .error _ => [d.answer (.decode table chunk), s.decoder.answer .finish]

private theorem sectionAnswers_of_ok {table : TableView} {chunk : Bytes}
    (h : (d.advance table chunk).result = .ok ()) (more : List (TableView × Bytes)) :
    d.sectionAnswers ((table, chunk) :: more) =
      d.answer (.decode table chunk) :: (d.advance table chunk).decoder.sectionAnswers more := by
  rw [sectionAnswers]
  simp only [result_decode, h, decoder_decode_of_ok h]

private theorem sectionAnswers_of_error {table : TableView} {chunk : Bytes} {cause : Error}
    (h : (d.advance table chunk).result = .error cause) (more : List (TableView × Bytes)) :
    d.sectionAnswers ((table, chunk) :: more) =
      [d.answer (.decode table chunk), (d.decode table chunk).decoder.answer .finish] := by
  rw [sectionAnswers]
  simp only [result_decode, h]

private theorem answer_decode_congr {table table' : TableView} {chunk : Bytes}
    (h : d.advance table' chunk = d.advance table chunk) :
    d.answer (.decode table' chunk) = d.answer (.decode table chunk) ∧
      d.decode table' chunk = d.decode table chunk := by
  have hdecode : d.decode table' chunk = d.decode table chunk := by rw [decode, decode, h]
  exact ⟨by simp only [answer, perform, hdecode], hdecode⟩

private theorem answer_decode_ne_wouldBlock {table : TableView} {chunk : Bytes}
    (h : (d.advance table chunk).result ≠ .error .dynamicTableWouldBlock) :
    (d.answer (.decode table chunk)).result ≠ .error .dynamicTableWouldBlock := by
  rw [← result_decode] at h
  simp only [answer]
  rcases hresult : (d.decode table chunk).result with cause | _
  · simpa [hresult, Except.map] using h
  · simp [Except.map]

private theorem answer_finish_ne_wouldBlock (d : Decoder) :
    (d.answer .finish).result ≠ .error .dynamicTableWouldBlock := by
  simp only [answer, finish]
  split <;> simp [Except.map]

/-- A section is decoded to the same end under both tables of its trials, and is not blocked. -/
theorem sectionAnswers_of_alike {feed : List Trial} (hread : HasRead count before d)
    (h : Trial.Alike count before feed) :
    d.sectionAnswers (feed.map Trial.underSecond) = d.sectionAnswers (feed.map Trial.underFirst) ∧
      ∀ a ∈ d.sectionAnswers (feed.map Trial.underFirst),
        a.result ≠ .error .dynamicTableWouldBlock := by
  induction feed generalizing before d with
  | nil =>
    refine ⟨rfl, ?_⟩
    intro a ha
    obtain rfl := List.mem_singleton.mp ha
    exact d.answer_finish_ne_wouldBlock
  | cons t feed ih =>
    obtain ⟨hadmitted, hfeed⟩ := h
    obtain ⟨hsame, hunblocked, hnext⟩ := together_of_admitted hread hadmitted
    obtain ⟨hanswer, hdecode⟩ := answer_decode_congr hsame
    have hfirst : (d.answer (.decode t.first t.chunk)).result ≠ .error .dynamicTableWouldBlock :=
      answer_decode_ne_wouldBlock hunblocked
    rw [List.map_cons, List.map_cons]
    rcases hresult : (d.advance t.first t.chunk).result with cause | _
    · rw [Trial.underSecond, Trial.underFirst, sectionAnswers_of_error (hsame ▸ hresult),
        sectionAnswers_of_error hresult, hanswer, hdecode]
      refine ⟨rfl, ?_⟩
      intro a ha
      rcases List.mem_cons.mp ha with rfl | ha
      · exact hfirst
      · obtain rfl := List.mem_singleton.mp ha
        exact answer_finish_ne_wouldBlock _
    · obtain ⟨hmore, hmoreUnblocked⟩ := ih (hnext hresult) hfeed
      rw [Trial.underSecond, Trial.underFirst, sectionAnswers_of_ok (hsame ▸ hresult),
        sectionAnswers_of_ok hresult, hanswer, hsame, hmore]
      refine ⟨rfl, ?_⟩
      intro a ha
      rcases List.mem_cons.mp ha with rfl | ha
      · exact hfirst
      · exact hmoreUnblocked a ha

end Decoder

/-! ### The statement -/

/-- **What a section depends on.** Decode a section chunk by chunk, each chunk under whatever table
there is by then, and decode it again under other tables. If the count that it relies on is
reconstructed from its encoding in either case, if that many insertions have been made when its
prefix is complete, and if at every chunk the tables hold the same entries below the count, then all
calls are answered in the same way, up to the first that fails, and so is the call that declares the
section complete; and none of them finds the section blocked. A section whose encoded count is zero
is decoded in the same way whatever the tables are. -/
theorem Settings.section_independence (s : Settings) :
    (∀ (count : Nat) (feed : List Trial), Trial.Alike count [] feed →
        s.decoder.sectionAnswers (feed.map Trial.underSecond) =
            s.decoder.sectionAnswers (feed.map Trial.underFirst) ∧
          ∀ a ∈ s.decoder.sectionAnswers (feed.map Trial.underFirst),
            a.result ≠ .error .dynamicTableWouldBlock) ∧
      ∀ feed : List Trial, SectionPrefix.encodedCount? (Trial.octets feed) = some 0 →
        s.decoder.sectionAnswers (feed.map Trial.underSecond) =
            s.decoder.sectionAnswers (feed.map Trial.underFirst) ∧
          ∀ a ∈ s.decoder.sectionAnswers (feed.map Trial.underFirst),
            a.result ≠ .error .dynamicTableWouldBlock := by
  have halike (count : Nat) (feed : List Trial) (h : Trial.Alike count [] feed) :=
    Decoder.sectionAnswers_of_alike (Decoder.hasRead_start count s.maxFieldSectionSize) h
  exact ⟨halike, fun feed hzero ↦ halike 0 feed (Trial.alike_zero hzero)⟩

/-- A section that relies on one insertion. The one time its prefix begins before that has been made
and ends when more have been; the other time the table holds nothing else. -/
theorem Settings.section_independence_one_entry :
    let s : Settings := {}
    let entry : Field := ⟨[97], [98]⟩
    let small (insertCount : Nat) : TableView :=
      { get? := fun index ↦ if index = 0 then some entry else none, insertCount, maxEntries := 2 }
    let large (insertCount : Nat) : TableView :=
      { get? := fun index ↦ if index = 0 then some entry else some ⟨[99], []⟩
        insertCount, maxEntries := 3 }
    let empty : TableView := { get? := fun _ ↦ none, insertCount := 9, maxEntries := 0 }
    s.decoder.sectionAnswers [(large 0, [0x02]), (large 4, [0x00, 0x80])] =
        s.decoder.sectionAnswers [(small 1, [0x02]), (small 1, [0x00, 0x80])] ∧
      (s.decoder.sectionAnswers [(small 1, [0x02]), (small 1, [0x00, 0x80])]).map
          (fun a ↦ (a.result.toOption, a.events)) =
        [(some none, []), (some none, [.indexed (.dynamic 0) entry]), (some (some ⟨1, 1⟩), [])] ∧
      s.decoder.sectionAnswers [(empty, [0x00, 0x00, 0x80])] =
        s.decoder.sectionAnswers [(small 1, [0x00, 0x00, 0x80])] := by
  intro s entry small large empty
  have hbelow (insertCount insertCount' : Nat) :
      (small insertCount).AgreeBelow 1 (large insertCount') := by
    intro index hindex
    obtain rfl : index = 0 := by omega
    rfl
  have hcount : SectionPrefix.encodedCount? [0x02] = some 2 := by cbv
  have hfirst : Trial.Admitted 1 [] ⟨[0x02], small 1, large 0⟩ := by
    refine ⟨hbelow 1 0, ?_, ?_⟩
    · rintro encoded - hencoded
      obtain rfl : 2 = encoded := Option.some.inj (hcount.symm.trans hencoded)
      exact ⟨by cbv, by cbv⟩
    · rintro p - hp
      have hnone : SectionPrefix.opening? 1 [0x02] = none := by cbv
      exact absurd (hnone.symm.trans hp) (by simp)
  have hsecond : Trial.Admitted 1 [0x02] ⟨[0x00, 0x80], small 1, large 4⟩ :=
    ⟨hbelow 1 4, fun _ hnone ↦ absurd (hcount.symm.trans hnone) (by simp),
      fun _ _ _ ↦ ⟨by decide, by decide⟩⟩
  obtain ⟨halike, hzero⟩ := s.section_independence
  refine ⟨(halike 1 [⟨[0x02], small 1, large 0⟩, ⟨[0x00, 0x80], small 1, large 4⟩]
    ⟨hfirst, hsecond, trivial⟩).1, by cbv, ?_⟩
  exact (hzero [⟨[0x00, 0x00, 0x80], small 1, empty⟩] (by cbv)).1

end FieldCompression
