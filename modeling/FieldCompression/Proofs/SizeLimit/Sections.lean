import FieldCompression.Proofs.Fragmentation.Sections
import FieldCompression.Proofs.SizeLimit.Lines

/-!
# The limit of a section is exact

A section that decodes without a limit decodes under a limit if the sizes of its fields add up to
no more than that, and otherwise fails for its size after the longest sequence of fields that fits.

## Two halves

That it fails for its size and for nothing else is followed call by call: two decoders that differ
in their limits stay `Alike` until the one with the smaller limit refuses. That it does not refuse
too early, nor report too much, is shown for a single call on all the octets, where every line is
read from its first byte on. How the octets are cut does not matter, by fragmentation.
-/

namespace FieldCompression

open FieldLine

/-- The context after a field of the given size. -/
def FieldLine.Context.counting (ctx : Context) (size : Nat) : Context :=
  { ctx with size := { ctx.size with used := ctx.size.used + size } }

namespace Decoder

/-! ## The loop over lines -/

/-- A call either refused a line for its size, or did the same as another call under another
limit. -/
def LinesReading.RefusedOr (limit : Nat) (x y : LinesReading) : Prop :=
  x.result = .error .headerListTooLarge ∨
    x.result = y.result ∧ x.line.Alike y.line ∧ x.events = y.events ∧
      x.size = y.size.withLimit limit

section Loop

variable {ctx : Context} {limit : Nat}

private theorem readLinesAfter_withLimit {x y : Reading} (hxy : x.RefusedOr limit y)
    (h : ¬Failed (readLinesAfter ctx y).result)
    (ih : ∀ ctx' : Context, ¬Failed (readLines ctx' y.rest).result →
      (readLines (ctx'.withLimit limit) y.rest).RefusedOr limit (readLines ctx' y.rest)) :
    (readLinesAfter (ctx.withLimit limit) x).RefusedOr limit (readLinesAfter ctx y) := by
  rcases hxy with hrefused | ⟨hresult, halike, hrest, hevents, hsize⟩
  · left
    rw [readLinesAfter_of_error hrefused]
  rcases hy : y.result with cause | _ | _
  · rw [readLinesAfter_of_error hy] at h
    exact absurd (failed_error _) h
  · rw [readLinesAfter_of_pending hy, readLinesAfter_of_pending (hresult.trans hy)]
    exact .inr ⟨rfl, halike, hevents, hsize⟩
  · rw [readLinesAfter_of_done hy] at h ⊢
    rw [readLinesAfter_of_done (hresult.trans hy), hrest, hsize]
    rcases ih { ctx with size := y.size } h with hmore | ⟨hmore, hline, hevents', hsize'⟩
    · exact .inl hmore
    · refine .inr ⟨hmore, hline, ?_, hsize'⟩
      simp only [LinesReading.after, hevents]
      exact congrArg _ hevents'

theorem readLinesAfter_read_withLimit {r r' : Reader} (halike : r.Alike r') {input : Bytes}
    (h : ¬Failed (readLinesAfter ctx (r'.read ctx input)).result)
    (ih : ∀ ctx' : Context, ¬Failed (readLines ctx' (r'.read ctx input).rest).result →
      (readLines (ctx'.withLimit limit) (r'.read ctx input).rest).RefusedOr limit
        (readLines ctx' (r'.read ctx input).rest)) :
    (readLinesAfter (ctx.withLimit limit) (r.read (ctx.withLimit limit) input)).RefusedOr limit
      (readLinesAfter ctx (r'.read ctx input)) := by
  have hread : ¬Failed (r'.read ctx input).result := by
    rintro ⟨cause, hcause⟩
    rw [readLinesAfter_of_error hcause] at h
    exact h (failed_error _)
  exact readLinesAfter_withLimit (Reader.read_withLimit halike hread) h ih

private theorem readLines_withLimit {input : Bytes} (h : ¬Failed (readLines ctx input).result) :
    (readLines (ctx.withLimit limit) input).RefusedOr limit (readLines ctx input) := by
  induction hlen : input.length using Nat.strongRecOn generalizing ctx input with
  | ind n ih =>
    cases input with
    | nil =>
      rw [readLines_nil, readLines_nil]
      exact .inr ⟨rfl, .idle, rfl, rfl⟩
    | cons first rest =>
      have hshorter := Reader.length_rest_read_ofByte ctx first first rest
      rw [readLines_cons] at h ⊢
      rw [readLines_cons]
      exact readLinesAfter_read_withLimit (.refl _) h
        fun ctx' hrest ↦ ih _ (hlen ▸ hshorter) hrest rfl

private theorem resumeLines_withLimit {line line' : Reader} (halike : line.Alike line')
    {input : Bytes} (h : ¬Failed (resumeLines ctx line' input).result) :
    (resumeLines (ctx.withLimit limit) line input).RefusedOr limit
      (resumeLines ctx line' input) := by
  by_cases hinput : input = []
  · rw [hinput, resumeLines_nil, resumeLines_nil]
    exact .inr ⟨rfl, halike, rfl, rfl⟩
  by_cases hidle : line' = .idle
  · subst hidle
    cases halike
    rw [resumeLines_idle] at h ⊢
    exact readLines_withLimit h
  · have hidle' : line ≠ .idle := by
      rintro rfl
      cases halike
      exact hidle rfl
    rw [resumeLines_of_ne_idle hidle hinput] at h ⊢
    rw [resumeLines_of_ne_idle hidle' hinput]
    exact readLinesAfter_read_withLimit halike h fun ctx' hrest ↦ readLines_withLimit hrest

end Loop

/-! ## Call by call -/

/-- Phases that differ in the limits of a line and in nothing else. -/
inductive Phase.Alike : Phase → Phase → Prop
  /-- A prefix has no limit. -/
  | opening (reader : SectionPrefix.Reader) : Alike (.opening reader) (.opening reader)
  /-- The lines after a prefix. -/
  | lines (p : SectionPrefix) {line line' : Reader} (h : line.Alike line') :
    Alike (.lines p line) (.lines p line')

/-- A decoder and one under another limit that is at the same place. -/
structure Alike (limit : Nat) (d d' : Decoder) : Prop where
  /-- The same sum under the limit. -/
  size : d.size = d'.size.withLimit limit
  /-- The same place. -/
  phase : d.phase.Alike d'.phase

/-- A call either refused a line for its size, or did the same as another call under another
limit. -/
def Step.RefusedOr (limit : Nat) (x y : Step) : Prop :=
  x.result = .error .headerListTooLarge ∨
    x.result = y.result ∧ x.events = y.events ∧ x.decoder.Alike limit y.decoder

/-- A run either failed for its size, or was the same as another run under another limit. -/
def Run.RefusedOr (limit : Nat) (x y : Run) : Prop :=
  x.result = .error .headerListTooLarge ∨
    x.result = y.result ∧ x.events = y.events ∧ x.decoder.Alike limit y.decoder

section Calls

variable {table : TableView} {limit : Nat} {d d' : Decoder}

private theorem decodeLines_withLimit (hsize : d.size = d'.size.withLimit limit) {p : SectionPrefix}
    {line line' : Reader} (halike : line.Alike line') {input : Bytes}
    (h : ¬Failed (d'.decodeLines table p line' input).result) :
    (d.decodeLines table p line input).RefusedOr limit (d'.decodeLines table p line' input) := by
  have hctx : ({ sectionPrefix := p, table, size := d.size } : Context) =
      Context.withLimit { sectionPrefix := p, table, size := d'.size } limit := by
    rw [hsize]
    rfl
  simp only [decodeLines, hctx] at h ⊢
  rcases resumeLines_withLimit halike h with hrefused | ⟨hresult, hline, hevents, hsize⟩
  · exact .inl hrefused
  · exact .inr ⟨hresult, hevents, hsize, .lines p hline⟩

/-- Where a call does not fail, a call under another limit does the same or refuses a line. -/
theorem advance_withLimit (halike : d.Alike limit d') {chunk : Bytes}
    (h : ¬Failed (d'.advance table chunk).result) :
    (d.advance table chunk).RefusedOr limit (d'.advance table chunk) := by
  obtain ⟨size, phase⟩ := d
  obtain ⟨size', phase'⟩ := d'
  obtain ⟨hsize, hphase⟩ := halike
  cases hphase with
  | lines p hline => exact decodeLines_withLimit hsize hline h
  | opening reader =>
    simp only [advance] at h ⊢
    rcases ho : (reader.read table chunk).result with cause | _ | p
    · simp only [ho] at h
      exact absurd (failed_error _) h
    · exact .inr ⟨rfl, rfl, hsize, .opening _⟩
    · simp only [ho] at h ⊢
      by_cases hblocked : table.insertCount < p.requiredInsertCount
      · rw [if_pos hblocked] at h
        exact absurd (failed_error _) h
      · rw [if_neg hblocked] at h ⊢
        rw [if_neg hblocked]
        exact decodeLines_withLimit hsize .idle h

theorem run_withLimit (halike : d.Alike limit d') {chunks : List Bytes}
    (h : ¬Failed (d'.run table chunks).result) :
    (d.run table chunks).RefusedOr limit (d'.run table chunks) := by
  induction chunks generalizing d d' with
  | nil => exact .inr ⟨rfl, rfl, halike⟩
  | cons chunk chunks ih =>
    rcases hfirst : (d'.advance table chunk).result with cause | _
    · rw [run_of_error hfirst] at h
      exact absurd (failed_error _) h
    · have hok : ¬Failed (d'.advance table chunk).result := hfirst ▸ not_failed_ok _
      rcases advance_withLimit halike hok with hrefused | ⟨hresult, hevents, hdecoder⟩
      · rw [run_of_error hrefused]
        exact .inl rfl
      · rw [run_of_ok hfirst] at h ⊢
        rw [run_of_ok (hresult.trans hfirst)]
        rcases ih hdecoder h with hrefused | ⟨hmore, hevents', hdecoder'⟩
        · exact .inl hrefused
        · refine .inr ⟨hmore, ?_, hdecoder'⟩
          simp only [hevents, hevents']

end Calls

/-! ## What fits -/

/-- The first `k` events are the longest sequence of events whose fields have room, and there are
more. -/
def LongestWithin (room : Nat) (events : List Event) (k : Nat) : Prop :=
  totalSize (fieldsOf (events.take k)) ≤ room ∧ room < totalSize (fieldsOf (events.take (k + 1)))

theorem LongestWithin.cons {room : Nat} {events : List Event} {k : Nat} {e : Event} {field : Field}
    (hfield : e.field? = some field) (h : LongestWithin (room - field.size) events k)
    (hroom : field.size ≤ room) : LongestWithin room (e :: events) (k + 1) := by
  rw [LongestWithin, List.take_succ_cons, List.take_succ_cons, totalSize_fieldsOf_cons hfield,
    totalSize_fieldsOf_cons hfield]
  obtain ⟨hlow, hhigh⟩ := h
  omega

section Exact

variable {ctx : Context} {limit : Nat}

theorem exists_first_line {first : UInt8} {rest : Bytes}
    (hok : (readLines ctx (first :: rest)).result = .ok ())
    (hidle : (readLines ctx (first :: rest)).line = .idle) :
    ∃ line e field more,
      (Reader.ofByte first).complete? ctx.size.remaining (first :: rest) = some (line, more) ∧
      Denotes ctx.sectionPrefix ctx.table line e ∧ e.field? = some field ∧
      ctx.size.used + field.size ≤ ctx.size.limit ∧ more.length < (first :: rest).length ∧
      let y := readLines (ctx.counting field.size) more
      y.result = .ok () ∧ y.line = .idle ∧
        (readLines ctx (first :: rest)).events = e :: y.events := by
  have hshorter := Reader.length_rest_read_ofByte ctx first first rest
  rw [readLines_cons] at hok hidle ⊢
  cases Reader.call_read ctx (Reader.ofByte first) (first :: rest) with
  | unfinished hcomplete hx =>
    rcases hread : ((Reader.ofByte first).read ctx (first :: rest)).result with cause | _ | _
    · rw [readLinesAfter_of_error hread] at hok
      exact absurd hok (by simp)
    · rw [readLinesAfter_of_pending hread] at hidle
      exact absurd hidle (hx.pending hread).2.2.2
    · exact absurd hread hx.result_ne
  | reported line more e field hcomplete hdenotes hfield hle hx =>
    obtain ⟨notes, hx⟩ := hx
    rw [hx, readLinesAfter_of_done rfl] at hok hidle ⊢
    rw [hx] at hshorter
    exact ⟨line, e, field, more, hcomplete, hdenotes, hfield, hle, hshorter, hok, hidle, rfl⟩
  | tooLarge line more e field _ _ _ _ hx =>
    obtain ⟨r', notes, hx⟩ := hx
    rw [hx, readLinesAfter_of_error rfl] at hok
    exact absurd hok (by simp)
  | missing line more addressing index _ _ _ hx =>
    obtain ⟨r', notes, hx⟩ := hx
    rw [hx, readLinesAfter_of_error rfl] at hok
    exact absurd hok (by simp)

private theorem read_of_exceeds {first : UInt8} {input more : Bytes} {line : FieldLine} {e : Event}
    {field : Field}
    (hcomplete : (Reader.ofByte first).complete? ctx.size.remaining input = some (line, more))
    (hdenotes : Denotes ctx.sectionPrefix ctx.table line e) (hfield : e.field? = some field)
    (hle : ctx.size.used + field.size ≤ ctx.size.limit)
    (hlimit : limit < ctx.size.used + field.size) :
    Failed ((Reader.ofByte first).read (ctx.withLimit limit) input).result := by
  obtain ⟨notes, hread⟩ := Reader.read_of_denotes ctx hcomplete hdenotes hfield hle
  have hok : ¬Failed ((Reader.ofByte first).read ctx input).result := by
    rw [hread]
    exact not_failed_ok _
  rcases Reader.read_withLimit (.refl _) hok with hrefused | ⟨hresult, -, -, -, hsize⟩
  · exact ⟨_, hrefused⟩
  · rw [hread] at hresult hsize
    have hcounted := Reader.used_le_of_done hresult
    rw [hsize] at hcounted
    exact absurd hcounted (Nat.not_le.mpr hlimit)

private theorem readLines_withLimit_of_fits {first : UInt8} {rest more : Bytes} {line : FieldLine}
    {e : Event} {field : Field}
    (hcomplete :
      (Reader.ofByte first).complete? ctx.size.remaining (first :: rest) = some (line, more))
    (hdenotes : Denotes ctx.sectionPrefix ctx.table line e) (hfield : e.field? = some field)
    (hfits : ctx.size.used + field.size ≤ limit) :
    let x := readLines (ctx.withLimit limit) (first :: rest)
    let y := readLines ((ctx.counting field.size).withLimit limit) more
    x.result = y.result ∧ callbacks x.events = e :: callbacks y.events := by
  have hliteral := literalSize_le hdenotes hfield
  have hremaining : line.literalSize ≤ (ctx.withLimit limit).size.remaining := by
    have : (ctx.withLimit limit).size.remaining = limit - ctx.size.used := rfl
    omega
  have hcomplete' := Reader.complete?_of_fits hcomplete hremaining
  obtain ⟨notes, hread⟩ :=
    Reader.read_of_denotes (ctx.withLimit limit) hcomplete' hdenotes hfield hfits
  rw [readLines_cons, hread, readLinesAfter_of_done rfl]
  refine ⟨rfl, ?_⟩
  simp [LinesReading.after, callbacks, hfield]
  rfl

/-- **The limit is exact** for lines that are all there. -/
theorem readLines_limit {input : Bytes} (hused : ctx.size.used ≤ limit)
    (hok : (readLines ctx input).result = .ok ()) (hidle : (readLines ctx input).line = .idle) :
    (totalSize (fieldsOf (readLines ctx input).events) ≤ limit - ctx.size.used →
        (readLines (ctx.withLimit limit) input).result = .ok ()) ∧
      (limit - ctx.size.used < totalSize (fieldsOf (readLines ctx input).events) →
        Failed (readLines (ctx.withLimit limit) input).result ∧
          ∃ k, LongestWithin (limit - ctx.size.used) (readLines ctx input).events k ∧
            callbacks (readLines (ctx.withLimit limit) input).events =
              (readLines ctx input).events.take k) := by
  induction hlen : input.length using Nat.strongRecOn generalizing ctx input with
  | ind n ih =>
    cases input with
    | nil =>
      rw [readLines_nil, readLines_nil]
      exact ⟨fun _ ↦ rfl, fun h ↦ absurd h (Nat.not_lt_zero _)⟩
    | cons first rest =>
      obtain ⟨line, e, field, more, hcomplete, hdenotes, hfield, hle, hshorter, hmore, hidle',
        hevents⟩ := exists_first_line hok hidle
      rw [hevents, totalSize_fieldsOf_cons hfield]
      by_cases hfits : ctx.size.used + field.size ≤ limit
      · have hroom : limit - (ctx.counting field.size).size.used =
            limit - ctx.size.used - field.size := Nat.sub_add_eq _ _ _
        obtain ⟨hfit, hexceed⟩ := ih _ (hlen ▸ hshorter) hfits hmore hidle' rfl
        rw [hroom] at hfit hexceed
        obtain ⟨hresult, hcallbacks⟩ :=
          readLines_withLimit_of_fits hcomplete hdenotes hfield hfits
        rw [hresult, hcallbacks]
        refine ⟨fun h ↦ hfit (by omega), fun h ↦ ?_⟩
        obtain ⟨hfailed, k, hlongest, htake⟩ := hexceed (by omega)
        refine ⟨hfailed, k + 1, ?_, by rw [htake, List.take_succ_cons]⟩
        exact hlongest.cons hfield (by omega)
      · -- nothing is reported after the first line that does not fit
        have hfailed := read_of_exceeds hcomplete hdenotes hfield hle (Nat.not_le.mp hfits)
        have hcallbacks := callbacks_read_of_failed hfailed
        obtain ⟨cause, hcause⟩ := hfailed
        rw [readLines_cons, readLinesAfter_of_error hcause]
        refine ⟨fun h ↦ absurd h (by omega), fun _ ↦ ⟨failed_error _, 0, ⟨?_, ?_⟩, hcallbacks⟩⟩
        · exact Nat.zero_le _
        · rw [List.take_succ_cons, totalSize_fieldsOf_cons hfield]
          omega

end Exact

/-! ## Sections -/

/-- A section that has come to its lines has read its prefix, and is the lines after that, under any
limit. -/
theorem lines_of_phase {table : TableView} {limit : Nat} {input : Bytes} {p : SectionPrefix}
    {line : Reader} (h : ((start limit).advance table input).decoder.phase = .lines p line) :
    let o := SectionPrefix.Reader.fresh.read table input
    o.result = .ok (some p) ∧ ∀ limit',
      let x := (start limit').advance table input
      let y := readLines { sectionPrefix := p, table, size := { limit := limit' } } o.rest
      x.result = y.result ∧ x.events = y.events ∧ x.decoder.phase = .lines p y.line := by
  simp only [advance, start] at h ⊢
  rcases ho : (SectionPrefix.Reader.fresh.read table input).result with cause | _ | p'
  · simp [ho] at h
  · simp [ho] at h
  · simp only [ho] at h ⊢
    by_cases hblocked : table.insertCount < p'.requiredInsertCount
    · simp [hblocked] at h
    · simp only [hblocked, if_false] at h ⊢
      obtain rfl : p' = p := (Phase.lines.inj h).1
      refine ⟨rfl, fun limit' ↦ ?_⟩
      simp only [decodeLines, resumeLines_idle, and_self]

private theorem exists_lines {table : TableView} {limit : Nat} {input : Bytes} {p : SectionPrefix}
    {line : Reader} (h : ((start limit).advance table input).decoder.phase = .lines p line) :
    ∃ more, ∀ limit',
      let x := (start limit').advance table input
      let y := readLines { sectionPrefix := p, table, size := { limit := limit' } } more
      x.result = y.result ∧ x.events = y.events ∧ x.decoder.phase = .lines p y.line :=
  ⟨_, (lines_of_phase h).2⟩

theorem exists_idle_of_finish {d : Decoder} (h : ¬Failed d.finish.result) :
    ∃ p, d.phase = .lines p .idle := by
  simp only [finish] at h
  split at h
  · rename_i p hphase
    exact ⟨p, hphase⟩
  · exact absurd (failed_error _) h

theorem Alike.result_finish {limit : Nat} {d d' : Decoder} (h : d.Alike limit d') :
    d.finish.result = d'.finish.result := by
  obtain ⟨size, phase⟩ := d
  obtain ⟨size', phase'⟩ := d'
  obtain ⟨-, hphase⟩ := h
  cases hphase with
  | opening reader => rfl
  | lines p hline => cases hline <;> rfl

/-- **The limit is exact.** Let a section decode without a limit and be complete. Under a limit it
decodes just if the sizes of its fields add up to no more, and then in the same way. Otherwise it
fails for its size, after the longest sequence of fields that fits. -/
theorem section_limit {table : TableView} {chunks : List Bytes}
    (hok : ((start maxWord).run table chunks).result = .ok ())
    (hfinish : ¬Failed ((start maxWord).run table chunks).decoder.finish.result) (limit : Nat) :
    let whole := (start maxWord).run table chunks
    let limited := (start limit).run table chunks
    (limited.result = .ok () ↔ totalSize (fieldsOf whole.events) ≤ limit) ∧
      (limited.result = .ok () →
        limited.events = whole.events ∧
          limited.decoder.finish.result = whole.decoder.finish.result) ∧
      (limited.result ≠ .ok () →
        limited.result = .error .headerListTooLarge ∧
          ∃ k, LongestWithin limit whole.events k ∧
            callbacks limited.events = whole.events.take k) := by
  intro whole limited
  have halike : (start limit).Alike limit (start maxWord) := ⟨rfl, .opening _⟩
  -- a call that fails under the limit fails for its size
  have hsame : limited.RefusedOr limit whole := run_withLimit halike (hok ▸ not_failed_ok ())
  have hone := result_run_start_iff.mp hok
  have hwhole : whole = _ := run_start_of_ok hone
  -- one call on all the octets reads the lines from their first bytes on
  obtain ⟨p, hphase⟩ := exists_idle_of_finish hfinish
  rw [run_start_of_ok hone] at hphase
  obtain ⟨more, hlines⟩ := exists_lines hphase
  obtain ⟨hresult, hevents, hphase'⟩ := hlines maxWord
  have hidle := (Phase.lines.inj (hphase'.symm.trans hphase)).2
  obtain ⟨hfit, hexceed⟩ := readLines_limit (Nat.zero_le limit) (hresult ▸ hone) hidle
  obtain ⟨hresult', hevents', -⟩ := hlines limit
  have hcallbacks : callbacks limited.events = _ := callbacks_run_start limit table chunks
  rw [hevents'] at hcallbacks
  have hfields : whole.events = _ := (congrArg Run.events hwhole).trans hevents
  rw [← hfields] at hfit hexceed
  by_cases hle : totalSize (fieldsOf whole.events) ≤ limit
  · have hlimited : limited.result = .ok () :=
      result_run_start_iff.mpr (hresult'.trans (hfit hle))
    refine ⟨⟨fun _ ↦ hle, fun _ ↦ hlimited⟩, fun _ ↦ ?_, fun h ↦ absurd hlimited h⟩
    rcases hsame with hrefused | ⟨-, hevents, hdecoder⟩
    · exact absurd (hrefused.symm.trans hlimited) (by simp)
    · exact ⟨hevents, hdecoder.result_finish⟩
  · obtain ⟨hfailed, k, hlongest, htake⟩ := hexceed (Nat.not_le.mp hle)
    have hlimited : limited.result ≠ .ok () := by
      intro h
      have hone' := result_run_start_iff.mp h
      rw [hresult'] at hone'
      exact not_failed_ok () (hone' ▸ hfailed)
    refine ⟨⟨fun h ↦ absurd h hlimited, fun h ↦ absurd h hle⟩, fun h ↦ absurd h hlimited,
      fun _ ↦ ⟨?_, k, hlongest, hcallbacks.trans htake⟩⟩
    rcases hsame with hrefused | ⟨hresult, -, -⟩
    · exact hrefused
    · exact absurd (hresult.trans hok) hlimited

/-- Two fields of size 34, of which a limit of 50 lets the first through. -/
theorem section_limit_one_of_two :
    let entries : List Field := [⟨[97], [98]⟩, ⟨[99], [100]⟩]
    let table := DynamicTable.view { entries, insertCount := 2, maxCapacity := 128 }
    let chunks : List Bytes := [[0x03, 0x00], [0x81, 0x80]]
    ((start 50).run table chunks).result = .error .headerListTooLarge ∧
      ∃ k, LongestWithin 50 ((start maxWord).run table chunks).events k ∧
        callbacks ((start 50).run table chunks).events =
          ((start maxWord).run table chunks).events.take k := by
  intro entries table chunks
  have hok : ((start maxWord).run table chunks).result = .ok () := by cbv
  have hfinish : ((start maxWord).run table chunks).decoder.finish.result = .ok ⟨2, 2⟩ := by cbv
  have hexceeds : ((start 50).run table chunks).result = .error .headerListTooLarge := by cbv
  exact (section_limit hok (hfinish ▸ not_failed_ok _) 50).2.2 (by rw [hexceeds]; simp)

end Decoder

end FieldCompression
