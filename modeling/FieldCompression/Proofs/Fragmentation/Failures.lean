import FieldCompression.Proofs.FieldSection.Prefix
import FieldCompression.Proofs.FieldSection.Visits

/-!
# Failing sections cut anywhere

A section that fails does so however it is cut, and the fields that it reports first are the same.
The cause is the same as well, with one exception.
-/

namespace FieldCompression

/-! ## The same cause

A call decodes all of the Huffman-coded octets that it is given before it compares what they
decoded to with the limit. So a string that is too long, and wrongly coded further on, is refused
for its code by a call that comes to the wrong place, and for its size by one that does not. Cutting
the octets between the two makes the difference. That is the only way in which it can go, and only
in this direction: `SameCause` compares a call on all the octets with a call on some of them and
what is made of the rest, and it leaves open just that. -/

/-- What a call on all the octets came to, beside the first of two calls, and the two. Either they
come to the same, or the first found the content too long before the place where one call finds it
wrongly coded. -/
def SameCause {α : Type} (whole first both : Except Error α) : Prop :=
  whole = both ∨ whole = .error .invalidHuffmanEncoding ∧ first = .error .headerListTooLarge

namespace SameCause

variable {α : Type} {whole first both : Except Error α}

theorem eq_of_ok {item : α} (h : SameCause whole (.ok item) both) : whole = both := by
  rcases h with heq | ⟨-, hfirst⟩
  · exact heq
  · exact absurd hfirst (by simp)

end SameCause

/-! ### Strings -/

namespace StringLiteral.Reader

/-- Content that is rightly coded is refused if it exceeds the limit. -/
theorem result_readPayload_of_limit_lt {r : Reader} {remaining decoded : Nat}
    {decoder : Huffman.Decoder} {input : Bytes}
    (hacc : (r.expand decoder (input.take (min remaining input.length))).accepted = true)
    (hlimit : r.limit < decoded +
      (r.expand decoder (input.take (min remaining input.length))).output.length) :
    (r.readPayload remaining decoded decoder input).result = .error .headerListTooLarge := by
  simp [readPayload, hacc, hlimit]

private theorem result_readPayload_of_refused {r : Reader} {remaining decoded : Nat}
    {decoder : Huffman.Decoder} {input : Bytes}
    (h : (r.expand decoder (input.take (min remaining input.length))).accepted = false) :
    (r.readPayload remaining decoded decoder input).result = .error .invalidHuffmanEncoding := by
  simp [readPayload, h]

theorem result_resume_of_error {s : Reading} {cause : Error} (h : s.result = .error cause)
    (more : Bytes) : (s.resume more).result = .error cause := by
  simp [Reading.resume, h]

private theorem sameCause_readPayload_append (r : Reader) (remaining decoded : Nat)
    (decoder : Huffman.Decoder) (a b : Bytes) :
    SameCause (r.readPayload remaining decoded decoder (a ++ b)).result
      (r.readPayload remaining decoded decoder a).result
      ((r.readPayload remaining decoded decoder a).resume b).result := by
  by_cases hlen : remaining ≤ a.length
  · exact .inl (by rw [readPayload_append_of_le hlen])
  -- all of `a` is payload, and a call on both takes at least that
  have htake : a.take (min remaining a.length) = a := by
    rw [Nat.min_eq_right (by omega), List.take_length]
  obtain ⟨more, hmore⟩ := exists_take_append (Nat.lt_of_not_le hlen) b
  by_cases hacc : (r.expand decoder a).accepted = true
  · by_cases hfit : r.limit < decoded + (r.expand decoder a).output.length
    · have hfirst : (r.readPayload remaining decoded decoder a).result =
          .error .headerListTooLarge :=
        result_readPayload_of_limit_lt (by rwa [htake]) (by rwa [htake])
      -- the call on both notices that only if it finds nothing wrong with the code
      have hboth := expand_append_of_accepted hacc more
      rcases hsecond : (r.expand (r.expand decoder a).decoder more).accepted with _ | _
      · refine .inr ⟨result_readPayload_of_refused ?_, hfirst⟩
        rw [hmore, hboth, hsecond]
      · left
        rw [result_resume_of_error hfirst]
        refine result_readPayload_of_limit_lt ?_ ?_
        · rw [hmore, hboth, hsecond]
        · rw [hmore, hboth, List.length_append]
          omega
    · rcases readPayload_append_of_lt (Nat.lt_of_not_le hlen) hacc hfit b with heq | ⟨-, hcause⟩
      · exact .inl (by rw [heq])
      · exact .inl hcause
  · rw [Bool.not_eq_true] at hacc
    have hfirst : (r.readPayload remaining decoded decoder a).result =
        .error .invalidHuffmanEncoding :=
      result_readPayload_of_refused (by rwa [htake])
    left
    rw [result_resume_of_error hfirst]
    refine result_readPayload_of_refused ?_
    rw [hmore, expand_append_of_refused hacc, hacc]

/-- **The cause that a string fails for.** -/
theorem sameCause_read_append (r : Reader) (a b : Bytes) :
    SameCause (r.read (a ++ b)).result (r.read a).result ((r.read a).resume b).result := by
  rcases r.read_append_or_payload a b with heq | ⟨r', _, _, _, _, hwhole, hfirst⟩
  · exact .inl (by rw [heq])
  · rw [hwhole, hfirst]
    exact r'.sameCause_readPayload_append _ _ _ _ _

end StringLiteral.Reader

/-! ### Field lines -/

namespace FieldLine

private theorem Reading.result_resume_of_error {ctx : Context} {x : Reading} {cause : Error}
    (h : x.result = .error cause) (more : Bytes) : (x.resume ctx more).result = .error cause := by
  simp [Reading.resume, h]

namespace Reader

variable {ctx : Context}

private theorem result_readText_of_error {unfinished : StringLiteral.Reader → Bytes → Reader}
    {next : StringLiteral → Reader → Bytes → Reading} {string : StringLiteral.Reader}
    {content input : Bytes} {cause : Error} (h : (string.read input).result = .error cause) :
    (readText ctx string content input unfinished next).result = .error cause := by
  simp [readText, h]

private theorem sameCause_readIndex_append {unfinished : PrefixedInteger.Reader → Reader}
    {next : Nat → Reader → Bytes → Reading}
    (hread : ∀ int input,
      (unfinished int).read ctx input = readIndex ctx int input unfinished next)
    (hnext : ∀ i r rest more,
      SameCause (next i r (rest ++ more)).result (next i r rest).result
        ((next i r rest).resume ctx more).result)
    (int : PrefixedInteger.Reader) (a b : Bytes) :
    SameCause (readIndex ctx int (a ++ b) unfinished next).result
      (readIndex ctx int a unfinished next).result
      ((readIndex ctx int a unfinished next).resume ctx b).result := by
  rw [readIndex, readIndex, int.read_append]
  rcases hint : (int.read a).result with cause | _ | i
  · exact .inl (by simp [Outcome.resume, hint, Reading.resume])
  · left
    simp only [Outcome.resume, hint, Reading.resume, hread]
    rfl
  · simp only [Outcome.resume, hint]
    exact hnext _ _ _ _

theorem sameCause_readText_append {unfinished : StringLiteral.Reader → Bytes → Reader}
    {next : StringLiteral → Reader → Bytes → Reading} {string : StringLiteral.Reader}
    (hread : ∀ s content input, s.limit = string.limit →
      (unfinished s content).read ctx input = readText ctx s content input unfinished next)
    (hnext : ∀ s r rest more,
      SameCause (next s r (rest ++ more)).result (next s r rest).result
        ((next s r rest).resume ctx more).result)
    (content a b : Bytes) :
    SameCause (readText ctx string content (a ++ b) unfinished next).result
      (readText ctx string content a unfinished next).result
      ((readText ctx string content a unfinished next).resume ctx b).result := by
  have hstrings := string.sameCause_read_append a b
  rcases hstring : (string.read a).result with cause | _ | _
  · have hfirst : (readText ctx string content a unfinished next).result = .error cause :=
      result_readText_of_error hstring
    rw [StringLiteral.Reader.result_resume_of_error hstring, hstring] at hstrings
    rcases hstrings with hsame | ⟨hwhole, hcause⟩
    · left
      rw [Reading.result_resume_of_error hfirst]
      exact result_readText_of_error hsame
    · exact .inr ⟨result_readText_of_error hwhole, hfirst.trans hcause⟩
  · left
    rw [resume_readText_of_pending hread hstring]
    rw [hstring] at hstrings
    have hsecond : ((string.read a).resume b).result = ((string.read a).state.read b).result := by
      simp [StringLiteral.Reading.resume, hstring]
    have hsame := hstrings.eq_of_ok.trans hsecond
    rcases hresult : ((string.read a).state.read b).result with cause | item
    · rw [result_readText_of_error (hsame.trans hresult), result_readText_of_error hresult]
    · -- a string that does not fail is the same in every respect
      have heq : string.read (a ++ b) = (string.read a).resume b := by
        refine (string.read_append a b).resolve_right fun hfailed ↦ ?_
        rw [hsame, hresult] at hfailed
        exact not_failed_ok _ hfailed.1
      simp only [StringLiteral.Reading.resume, hstring] at heq
      rw [readText, readText]
      rcases item with _ | _ <;> simp [Context.rest_readString, heq, hresult]
  · have heq := StringLiteral.Reader.read_append_of_done hstring b
    rw [readText, readText]
    simp only [Context.result_readString, Context.state_readString, Context.output_readString,
      Context.rest_readString, heq, hstring]
    exact hnext _ _ _ _

theorem sameCause_finish_append (line : FieldLine) (r : Reader) (rest more : Bytes) :
    SameCause (finish ctx line r (rest ++ more)).result (finish ctx line r rest).result
      ((finish ctx line r rest).resume ctx more).result :=
  .inl (by rw [finish_append])

private theorem sameCause_read_nameValue_append (ctx : Context) (addressing : Addressing)
    (neverIndexed : Bool) (index : Nat) (string : StringLiteral.Reader) (value a b : Bytes) :
    SameCause ((nameValue addressing neverIndexed index string value).read ctx (a ++ b)).result
      ((nameValue addressing neverIndexed index string value).read ctx a).result
      (((nameValue addressing neverIndexed index string value).read ctx a).resume ctx
        b).result := by
  rw [read_nameValue, read_nameValue]
  exact sameCause_readText_append (fun _ _ _ _ ↦ read_nameValue _ _ _ _ _ _ _)
    (fun _ _ _ _ ↦ sameCause_finish_append _ _ _ _) _ _ _

private theorem sameCause_read_literalValue_append (ctx : Context) (neverIndexed : Bool)
    (name : StringLiteral) (string : StringLiteral.Reader) (value a b : Bytes) :
    SameCause ((literalValue neverIndexed name string value).read ctx (a ++ b)).result
      ((literalValue neverIndexed name string value).read ctx a).result
      (((literalValue neverIndexed name string value).read ctx a).resume ctx b).result := by
  rw [read_literalValue, read_literalValue]
  exact sameCause_readText_append (fun _ _ _ _ ↦ read_literalValue _ _ _ _ _ _)
    (fun _ _ _ _ ↦ sameCause_finish_append _ _ _ _) _ _ _

/-- **The cause that a line fails for.** -/
theorem sameCause_read_append (ctx : Context) (r : Reader) (a b : Bytes) :
    SameCause (r.read ctx (a ++ b)).result (r.read ctx a).result
      ((r.read ctx a).resume ctx b).result := by
  cases r with
  | idle =>
    rw [read_idle, read_idle]
    exact .inl rfl
  | entryIndex addressing int =>
    rw [read_entryIndex, read_entryIndex]
    exact sameCause_readIndex_append (read_entryIndex ctx addressing)
      (fun _ _ _ _ ↦ sameCause_finish_append _ _ _ _) _ _ _
  | nameIndex addressing neverIndexed int =>
    rw [read_nameIndex, read_nameIndex]
    exact sameCause_readIndex_append (read_nameIndex ctx addressing neverIndexed)
      (fun _ _ _ _ ↦ sameCause_read_nameValue_append _ _ _ _ _ _ _ _) _ _ _
  | nameValue addressing neverIndexed i string value =>
    exact sameCause_read_nameValue_append _ _ _ _ _ _ _ _
  | literalName neverIndexed string name =>
    rw [read_literalName, read_literalName]
    refine sameCause_readText_append (fun s name input h ↦ ?_)
      (fun _ _ _ _ ↦ sameCause_read_literalValue_append _ _ _ _ _ _ _) _ _ _
    have hlimit : s.withLimit ctx.size.remaining = s :=
      StringLiteral.Reader.withLimit_of_limit_eq h
    rw [read_literalName, hlimit]
  | literalValue neverIndexed name string value =>
    exact sameCause_read_literalValue_append _ _ _ _ _ _ _

end Reader

end FieldLine

/-! ## From lines to sections

From the lines of a section to the section, and from two calls to any number. What a section fails
for in several calls is what one call on the octets up to there fails for. That is the same cause
again, or it is the size where one call on everything finds a wrong code further on.

What is reported besides fields depends on the cause alone. A section that fails for its size gives
notice of that, once and last, and no other section does. -/

open FieldLine

namespace Decoder

/-! ### Line after line -/

section Loop

variable {ctx : Context}

private theorem result_readLinesAfter_of_error {x : Reading} {cause : Error}
    (h : x.result = .error cause) : (readLinesAfter ctx x).result = .error cause := by
  rw [readLinesAfter_of_error h]

private theorem sameCause_readLinesAfter_resume {x : Reading} {b : Bytes} (hb : b ≠ [])
    (hidle : x.result = .ok none → x.state ≠ .idle)
    (ih : ∀ ctx' : Context,
      SameCause (readLines ctx' (x.rest ++ b)).result (readLines ctx' x.rest).result
        ((readLines ctx' x.rest).resume ctx' b).result) :
    SameCause (readLinesAfter ctx (x.resume ctx b)).result (readLinesAfter ctx x).result
      ((readLinesAfter ctx x).resume ctx b).result := by
  by_cases hx : x.result = .ok (some ())
  · rw [readLinesAfter_resume_of_done hx, resume_readLinesAfter_of_done hx,
      readLinesAfter_of_done hx]
    exact ih _
  · exact .inl (by rw [readLinesAfter_resume_of_ne_done hb hidle hx])

theorem sameCause_readLinesAfter_read (r : FieldLine.Reader) (a : Bytes) {b : Bytes} (hb : b ≠ [])
    (ih : ∀ ctx' : Context,
      SameCause (readLines ctx' ((r.read ctx a).rest ++ b)).result
        (readLines ctx' (r.read ctx a).rest).result
        ((readLines ctx' (r.read ctx a).rest).resume ctx' b).result) :
    SameCause (readLinesAfter ctx (r.read ctx (a ++ b))).result
      (readLinesAfter ctx (r.read ctx a)).result
      ((readLinesAfter ctx (r.read ctx a)).resume ctx b).result := by
  have hafter : SameCause (readLinesAfter ctx ((r.read ctx a).resume ctx b)).result
      (readLinesAfter ctx (r.read ctx a)).result
      ((readLinesAfter ctx (r.read ctx a)).resume ctx b).result :=
    sameCause_readLinesAfter_resume hb (fun h ↦ (pending_read h).2) ih
  rcases r.read_append ctx a b with heq | ⟨⟨cause, hcause⟩, -⟩
  · rwa [heq]
  rcases r.sameCause_read_append ctx a b with hsame | ⟨hwhole, hfirst⟩
  · rw [result_readLinesAfter_of_error (hsame ▸ hcause)] at hafter
    rwa [result_readLinesAfter_of_error hcause]
  · exact .inr ⟨result_readLinesAfter_of_error hwhole, result_readLinesAfter_of_error hfirst⟩

private theorem sameCause_readLines_append (ctx : Context) (a b : Bytes) :
    SameCause (readLines ctx (a ++ b)).result (readLines ctx a).result
      ((readLines ctx a).resume ctx b).result := by
  by_cases hb : b = []
  · subst hb
    left
    rw [LinesReading.resume_nil (rest_readLines_of_ok ctx a), List.append_nil]
  induction hlen : a.length using Nat.strongRecOn generalizing ctx a with
  | ind n ih =>
    cases a with
    | nil =>
      left
      rw [readLines_nil, LinesReading.resume]
      simp only [List.nil_append, resumeLines_idle]
    | cons first rest =>
      have hshorter := Reader.length_rest_read_ofByte ctx first first rest
      rw [List.cons_append, readLines_cons, readLines_cons]
      exact sameCause_readLinesAfter_read _ (first :: rest) hb fun ctx' ↦
        ih _ (hlen ▸ hshorter) ctx' _ rfl

/-- **The cause that the loop fails for.** -/
theorem sameCause_resumeLines_append (ctx : Context) (line : FieldLine.Reader) (a b : Bytes) :
    SameCause (resumeLines ctx line (a ++ b)).result (resumeLines ctx line a).result
      ((resumeLines ctx line a).resume ctx b).result := by
  by_cases ha : a = []
  · left
    subst ha
    rw [resumeLines_nil, LinesReading.resume]
    simp only [List.nil_append]
  by_cases hb : b = []
  · left
    subst hb
    rw [LinesReading.resume_nil (rest_resumeLines_of_ok ctx line a), List.append_nil]
  by_cases hline : line = .idle
  · subst hline
    rw [resumeLines_idle, resumeLines_idle]
    exact sameCause_readLines_append ctx a b
  · rw [resumeLines_of_ne_idle hline (by simp [ha]), resumeLines_of_ne_idle hline ha]
    exact sameCause_readLinesAfter_read line a hb fun ctx' ↦ sameCause_readLines_append ctx' _ b

end Loop

/-! ### Two chunks -/

private theorem sameCause_decodeLines_append (table : TableView) (d : Decoder) (p : SectionPrefix)
    (line : FieldLine.Reader) (a b : Bytes) :
    SameCause (d.decodeLines table p line (a ++ b)).result (d.decodeLines table p line a).result
      ((d.decodeLines table p line a).resume table b).result := by
  obtain ⟨ctx, hctx⟩ : ∃ ctx : Context, ctx = { sectionPrefix := p, table, size := d.size } :=
    ⟨_, rfl⟩
  have hstep (input : Bytes) :
      d.decodeLines table p line input = (resumeLines ctx line input).toStep ctx.sectionPrefix := by
    subst hctx
    rfl
  obtain rfl : ctx.table = table := by rw [hctx]
  rw [hstep, hstep, ← LinesReading.toStep_resume]
  exact sameCause_resumeLines_append ctx line a b

private theorem sameCause_advance_append (table : TableView) (d : Decoder) (a b : Bytes) :
    SameCause (d.advance table (a ++ b)).result (d.advance table a).result
      ((d.advance table a).resume table b).result := by
  rcases hphase : d.phase with reader | ⟨p, line⟩
  · simp only [advance, hphase, reader.read_append]
    rcases ho : (reader.read table a).result with cause | _ | p
    · exact .inl (by simp [Outcome.resume, ho, Step.resume])
    · left
      rw [Step.resume_of_silent table rfl rfl rfl]
      simp only [advance, Outcome.resume, ho]
      rfl
    · simp only [Outcome.resume, ho]
      by_cases hblocked : table.insertCount < p.requiredInsertCount
      · exact .inl (by simp [hblocked, Step.resume])
      · simp only [hblocked, if_false]
        have hlines := sameCause_decodeLines_append table d p .idle (reader.read table a).rest b
        have hresume (x : Step) (note : Note) :
            ((x.noting note).resume table b).result = (x.resume table b).result := by
          rw [Step.resume_noting]
          rfl
        rw [← hresume _ (.sectionStarted p)] at hlines
        exact hlines
  · simp only [advance, hphase]
    exact sameCause_decodeLines_append table d p line a b

/-! ### Any number of chunks -/

variable {table : TableView} {d : Decoder}

/-- What one call on all the octets came to, beside a run. Either they come to the same, or the run
failed for the size where the call fails for a wrong code, and it failed as a call on the octets of
some of its chunks does. -/
theorem result_run_cons (table : TableView) (d : Decoder) (chunk : Bytes) (chunks : List Bytes) :
    (d.run table (chunk :: chunks)).result = (d.advance table (chunk :: chunks).flatten).result ∨
      (d.run table (chunk :: chunks)).result = .error .headerListTooLarge ∧
        (d.advance table (chunk :: chunks).flatten).result = .error .invalidHuffmanEncoding ∧
        ∃ n, (d.advance table ((chunk :: chunks).take n).flatten).result =
          .error .headerListTooLarge := by
  induction chunks generalizing d chunk with
  | nil =>
    left
    rw [List.flatten_singleton]
    rcases h : (d.advance table chunk).result with cause | _
    · rw [run_of_error h]
    · rw [run_one_of_ok h]
  | cons next chunks ih =>
    have htwo (rest : Bytes) := sameCause_advance_append table d chunk rest
    rw [List.flatten_cons]
    rcases h : (d.advance table chunk).result with cause | _
    · have hresume (rest : Bytes) :
          ((d.advance table chunk).resume table rest).result = .error cause := by
        simp [Step.resume, h]
      have hrun : (d.run table (chunk :: next :: chunks)).result = .error cause := by
        rw [run_of_error h]
      rcases htwo (next :: chunks).flatten with heq | ⟨hwhole, hfirst⟩
      · exact .inl (by rw [hrun, heq, hresume])
      · obtain rfl : cause = .headerListTooLarge := by simpa [h] using hfirst
        exact .inr ⟨hrun, hwhole, 1, by simpa using hfirst⟩
    · have hresume (rest : Bytes) :
          (d.advance table (chunk ++ rest)).result =
            ((d.advance table chunk).decoder.advance table rest).result := by
        have hsame := htwo rest
        rw [h] at hsame
        rw [hsame.eq_of_ok]
        simp [Step.resume, h]
      have hrun : (d.run table (chunk :: next :: chunks)).result =
          ((d.advance table chunk).decoder.run table (next :: chunks)).result := by
        rw [run_of_ok h]
      rw [hrun, hresume]
      rcases ih (d.advance table chunk).decoder next with heq | ⟨hlarge, hcode, n, hn⟩
      · exact .inl heq
      · refine .inr ⟨hlarge, hcode, n + 1, ?_⟩
        rw [List.take_succ_cons, List.flatten_cons, hresume, hn]

/-! ### What failures give notice of -/

private theorem Visit.events_loop (v : Visit) :
    v.loop.events = callbacks v.loop.events ++ notices v.loop.result := by
  have hreading (v : Visit) :
      v.reading.events = callbacks v.reading.events ++ notices v.reading.result :=
    FieldLine.Reader.events_read v.ctx v.line v.input
  induction v using loop_induction with
  | error v cause hresult =>
    have hevents := hreading v
    rw [hresult] at hevents
    rw [loop, readLinesAfter_of_error hresult]
    exact hevents
  | pending v hresult =>
    have hevents := hreading v
    rw [hresult] at hevents
    rw [loop, readLinesAfter_of_pending hresult]
    exact hevents
  | last v hdone hrest =>
    have hevents := hreading v
    rw [hdone] at hevents
    rw [loop_of_end hdone hrest]
    exact hevents
  | next v first rest hdone hrest ih =>
    -- a line that is complete gives notice of nothing, so the notice of the loop stays last
    have hevents := hreading v
    rw [hdone, notices_ok, List.append_nil] at hevents
    rw [loop_of_next hdone hrest]
    simp only [LinesReading.after, callbacks_append, List.append_assoc, ← ih, ← hevents]

private theorem events_resumeLines (ctx : Context) (line : FieldLine.Reader) (input : Bytes) :
    (resumeLines ctx line input).events =
      callbacks (resumeLines ctx line input).events ++
        notices (resumeLines ctx line input).result := by
  cases input with
  | nil =>
    rw [resumeLines_nil]
    rfl
  | cons first rest =>
    rw [Visit.resumeLines_of_first? rfl]
    exact Visit.events_loop _

theorem ne_tooLarge_of_linesOf?_eq_none {chunk : Bytes} {cause : Error}
    (h : d.linesOf? table chunk = none) (hcause : (d.advance table chunk).result = .error cause) :
    cause ≠ .headerListTooLarge := by
  obtain ⟨reader, -, hread | ⟨p, -, -, rfl⟩⟩ := cause_of_linesOf?_eq_none h hcause
  · rintro rfl
    exact absurd (SectionPrefix.Reader.cause_read hread) (by decide)
  · decide

theorem events_advance (d : Decoder) (table : TableView) (chunk : Bytes) :
    (d.advance table chunk).events =
      callbacks (d.advance table chunk).events ++ notices (d.advance table chunk).result := by
  rcases hlines : d.linesOf? table chunk with _ | ⟨p, line, input⟩
  · rw [(advance_of_linesOf?_eq_none hlines).1]
    rcases hresult : (d.advance table chunk).result with cause | _
    · rw [notices_of_ne (ne_tooLarge_of_linesOf?_eq_none hlines hresult)]
      rfl
    · rfl
  · obtain ⟨notes, hadvance⟩ := advance_of_linesOf? hlines
    rw [hadvance]
    exact events_resumeLines _ line input

theorem events_run (table : TableView) (d : Decoder) (chunks : List Bytes) :
    (d.run table chunks).events =
      callbacks (d.run table chunks).events ++ notices (d.run table chunks).result := by
  induction chunks generalizing d with
  | nil => rfl
  | cons chunk chunks ih =>
    have hevents := d.events_advance table chunk
    rcases h : (d.advance table chunk).result with cause | _
    · rw [h] at hevents
      rw [run_of_error h]
      exact hevents
    · rw [h, notices_ok, List.append_nil] at hevents
      rw [run_of_ok h]
      simp only [callbacks_append, List.append_assoc, ← ih, ← hevents]

/-! ### A section from its beginning -/

private theorem result_run_of_take {n : Nat} {chunks : List Bytes} {cause : Error}
    (h : (d.run table (chunks.take n)).result = .error cause) :
    (d.run table chunks).result = .error cause := by
  induction chunks generalizing d n with
  | nil => simpa using h
  | cons chunk chunks ih =>
    cases n with
    | zero => exact absurd h (by simp [run])
    | succ n =>
      rw [List.take_succ_cons] at h
      rcases hfirst : (d.advance table chunk).result with cause' | _
      · rw [run_of_error hfirst] at h ⊢
        exact h
      · rw [run_of_ok hfirst] at h ⊢
        exact ih h

theorem result_run_start (limit : Nat) (table : TableView) (chunks : List Bytes) :
    ((start limit).run table chunks).result =
        ((start limit).advance table chunks.flatten).result ∨
      ((start limit).run table chunks).result = .error .headerListTooLarge ∧
        ((start limit).advance table chunks.flatten).result = .error .invalidHuffmanEncoding ∧
        ∃ n, ((start limit).advance table (chunks.take n).flatten).result =
          .error .headerListTooLarge := by
  cases chunks with
  | nil => exact .inl rfl
  | cons chunk chunks => exact result_run_cons table _ chunk chunks

/-- **Sections that are too large.** A run finds a section too large when one call finds that of
the octets of its first so many chunks. -/
theorem result_run_start_eq_tooLarge_iff {limit : Nat} {chunks : List Bytes} :
    ((start limit).run table chunks).result = .error .headerListTooLarge ↔
      ∃ n, ((start limit).advance table (chunks.take n).flatten).result =
        .error .headerListTooLarge := by
  constructor
  · intro h
    rcases result_run_start limit table chunks with heq | ⟨-, -, hprefix⟩
    · exact ⟨chunks.length, by rw [List.take_length, ← heq, h]⟩
    · exact hprefix
  · rintro ⟨n, hn⟩
    refine result_run_of_take (n := n) ?_
    rcases result_run_start limit table (chunks.take n) with heq | ⟨hlarge, -, -⟩
    · rw [heq, hn]
    · exact hlarge

end Decoder

/-- **Failing sections cut anywhere.** If one call on all the octets of a section fails, the run on
its chunks fails. It fails for the same cause and reports the same; or it fails for the size, and
gives notice of that after the same fields, where the one call fails for a wrong Huffman code. It
fails for the size just when one call on the octets of its first so many chunks does. -/
theorem Settings.fragmentation_cause (s : Settings) (table : TableView) (chunks : List Bytes)
    {cause : Error} (h : (s.decoder.decode table chunks.flatten).result = .error cause) :
    ((s.decoder.run table chunks).result = .error cause ∧
          (s.decoder.run table chunks).events =
            (s.decoder.decode table chunks.flatten).events ∨
        (s.decoder.run table chunks).result = .error .headerListTooLarge ∧
          cause = .invalidHuffmanEncoding ∧
          (s.decoder.run table chunks).events =
            (s.decoder.decode table chunks.flatten).events ++ [.rejected .headerListTooLarge]) ∧
      ((s.decoder.run table chunks).result = .error .headerListTooLarge ↔
        ∃ n, (s.decoder.decode table (chunks.take n).flatten).result =
          .error .headerListTooLarge) := by
  simp only [Settings.decoder, Decoder.result_decode, Decoder.events_decode] at h ⊢
  refine ⟨?_, Decoder.result_run_start_eq_tooLarge_iff⟩
  -- both report the same fields, and what else they report depends on the cause
  have hone := (Decoder.start s.maxFieldSectionSize).events_advance table chunks.flatten
  have hrun := Decoder.events_run table (.start s.maxFieldSectionSize) chunks
  rw [Decoder.callbacks_run_start] at hrun
  rw [h] at hone
  rcases Decoder.result_run_start s.maxFieldSectionSize table chunks with heq | ⟨hlarge, hcode, -⟩
  · left
    rw [heq, h] at hrun ⊢
    exact ⟨rfl, hrun.trans hone.symm⟩
  · right
    obtain rfl : cause = .invalidHuffmanEncoding := by simpa [hcode, eq_comm] using h
    rw [notices_of_ne (by decide), List.append_nil] at hone
    rw [hlarge, notices_tooLarge, ← hone] at hrun
    exact ⟨hlarge, rfl, hrun⟩

/-- A name of fifteen zero bits and then the end-of-string word, in a section of at most two octets:
three symbols that are too many, and after them a word that is not allowed. -/
theorem Settings.fragmentation_cause_end_of_string :
    let s : Settings := { maxFieldSectionSize := 2 }
    let chunks : List Bytes := [[0x00, 0x00, 0x2e, 0x00, 0x01], [0xff, 0xff, 0xff, 0xff]]
    (s.decoder.decode s.table.view chunks.flatten).result = .error .invalidHuffmanEncoding ∧
      (s.decoder.run s.table.view chunks).events =
        (s.decoder.decode s.table.view chunks.flatten).events ++
          [.rejected .headerListTooLarge] := by
  intro s chunks
  have hone : (s.decoder.decode s.table.view chunks.flatten).result =
      .error .invalidHuffmanEncoding := by cbv
  have hfirst : (s.decoder.decode s.table.view (chunks.take 1).flatten).result =
      .error .headerListTooLarge := by cbv
  obtain ⟨hcases, hlarge⟩ := s.fragmentation_cause s.table.view chunks hone
  refine ⟨hone, ?_⟩
  rcases hcases with ⟨hsame, -⟩ | ⟨-, -, hevents⟩
  · exact absurd (hsame.symm.trans (hlarge.mpr ⟨1, hfirst⟩)) (by simp)
  · exact hevents

/-- So the cause does depend on where the octets are cut. -/
theorem Settings.cause_depends_on_fragmentation :
    ¬∀ (s : Settings) (table : TableView) (chunks : List Bytes) (cause : Error),
      (s.decoder.decode table chunks.flatten).result = .error cause →
        (s.decoder.run table chunks).result = .error cause ∧
          ((∃ e, Event.rejected e ∈ (s.decoder.run table chunks).events) ↔
            ∃ e, Event.rejected e ∈ (s.decoder.decode table chunks.flatten).events) := by
  intro h
  let s : Settings := { maxFieldSectionSize := 2 }
  let chunks : List Bytes := [[0x00, 0x00, 0x2e, 0x00, 0x01], [0xff, 0xff, 0xff, 0xff]]
  have hone : (s.decoder.decode s.table.view chunks.flatten).result =
      .error .invalidHuffmanEncoding := by cbv
  have hrun : (s.decoder.run s.table.view chunks).result = .error .headerListTooLarge := by cbv
  obtain ⟨hsame, -⟩ := h s s.table.view chunks _ hone
  exact absurd (hrun.symm.trans hsame) (by simp)

end FieldCompression
