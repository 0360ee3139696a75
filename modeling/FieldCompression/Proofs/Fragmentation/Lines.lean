import FieldCompression.FieldSection
import FieldCompression.Proofs.FieldLine.Stages

/-!
# Field lines cut anywhere

From the items of a line to the line, and from one line to the loop over lines. What was said of
strings carries over: a line that is read in two calls is read as in one, unless it fails, and then
it fails either way. No field is reported for a line that fails, so in the loop even a failure
leaves the reported fields the same.
-/

namespace FieldCompression

namespace FieldLine

/-- A call on a chunk and, if the line was not complete by then, a call on more octets. -/
def Reading.resume (ctx : Context) (x : Reading) (more : Bytes) : Reading :=
  match x.result with
  | .ok none =>
    let y := x.state.read { ctx with size := x.size } more
    { y with events := x.events ++ y.events, notes := x.notes ++ y.notes }
  | _ => { x with rest := x.rest ++ more }

/-- Readings that are the same, unless both failed. -/
def Reading.Agree (x y : Reading) : Prop := x = y ∨ Failed x.result ∧ Failed y.result

theorem Reading.failed_resume {ctx : Context} {x : Reading} (h : Failed x.result) (more : Bytes) :
    Failed (x.resume ctx more).result := by
  obtain ⟨cause, hcause⟩ := h
  exact ⟨cause, by simp [Reading.resume, hcause]⟩

namespace Reader

variable {ctx : Context}

/-! ## One stage -/

theorem finish_append (line : FieldLine) (r : Reader) (rest more : Bytes) :
    finish ctx line r (rest ++ more) = (finish ctx line r rest).resume ctx more := by
  simp only [finish]
  split <;> rfl

private theorem readIndex_append {unfinished : PrefixedInteger.Reader → Reader}
    {next : Nat → Reader → Bytes → Reading}
    (hread : ∀ int input,
      (unfinished int).read ctx input = readIndex ctx int input unfinished next)
    (hnext : ∀ i r rest more,
      (next i r (rest ++ more)).Agree ((next i r rest).resume ctx more))
    (int : PrefixedInteger.Reader) (a b : Bytes) :
    (readIndex ctx int (a ++ b) unfinished next).Agree
      ((readIndex ctx int a unfinished next).resume ctx b) := by
  rw [readIndex, readIndex, int.read_append]
  rcases hint : (int.read a).result with cause | _ | i
  · exact .inr (by simp [Outcome.resume, hint, Reading.resume])
  · left
    simp only [Outcome.resume, hint, Reading.resume, hread]
    rfl
  · simp only [Outcome.resume, hint]
    exact hnext _ _ _ _

private theorem failed_readText {unfinished : StringLiteral.Reader → Bytes → Reader}
    {next : StringLiteral → Reader → Bytes → Reading} {string : StringLiteral.Reader}
    {content input : Bytes} (h : Failed (string.read input).result) :
    Failed (readText ctx string content input unfinished next).result := by
  obtain ⟨cause, hcause⟩ := h
  simp [readText, hcause]

/-- The second call goes on in the string, with the content of the first before it. -/
theorem resume_readText_of_pending {unfinished : StringLiteral.Reader → Bytes → Reader}
    {next : StringLiteral → Reader → Bytes → Reading} {string : StringLiteral.Reader}
    (hread : ∀ s content input, s.limit = string.limit →
      (unfinished s content).read ctx input = readText ctx s content input unfinished next)
    {content a : Bytes} (hpending : (string.read a).result = .ok none) (b : Bytes) :
    (readText ctx string content a unfinished next).resume ctx b =
      readText ctx (string.read a).state (content ++ (string.read a).output) b unfinished next := by
  rw [readText]
  simp only [Context.result_readString, hpending, Reading.resume, Context.state_readString,
    Context.output_readString, List.nil_append]
  exact hread _ _ _ (string.limit_read a)

theorem readText_append {unfinished : StringLiteral.Reader → Bytes → Reader}
    {next : StringLiteral → Reader → Bytes → Reading} {string : StringLiteral.Reader}
    (hread : ∀ s content input, s.limit = string.limit →
      (unfinished s content).read ctx input = readText ctx s content input unfinished next)
    (hnext : ∀ s r rest more,
      (next s r (rest ++ more)).Agree ((next s r rest).resume ctx more))
    (content a b : Bytes) :
    (readText ctx string content (a ++ b) unfinished next).Agree
      ((readText ctx string content a unfinished next).resume ctx b) := by
  rcases hstring : (string.read a).result with cause | _ | _
  · have hfirst : Failed (string.read a).result := hstring ▸ failed_error _
    exact .inr ⟨failed_readText (StringLiteral.Reader.failed_read_append hfirst b),
      Reading.failed_resume (failed_readText hfirst) b⟩
  · rw [resume_readText_of_pending hread hstring]
    rcases string.read_append a b with heq | ⟨hboth, hresume⟩
    · simp only [StringLiteral.Reading.resume, hstring] at heq
      rcases hsecond : ((string.read a).state.read b).result with cause | _ | _
      · exact .inr ⟨failed_readText (by simp [heq, hsecond]), failed_readText (by simp [hsecond])⟩
      · left
        rw [readText, readText]
        simp [Context.rest_readString, heq, hsecond]
      · left
        rw [readText, readText]
        simp [Context.rest_readString, heq, hsecond]
    · refine .inr ⟨failed_readText hboth, failed_readText ?_⟩
      simpa [StringLiteral.Reading.resume, hstring] using hresume
  · have heq := StringLiteral.Reader.read_append_of_done hstring b
    rw [readText, readText]
    simp only [Context.result_readString, Context.state_readString, Context.output_readString,
      Context.rest_readString, heq, hstring]
    exact hnext _ _ _ _

/-! ## One line -/

private theorem read_nameValue_append (ctx : Context) (addressing : Addressing)
    (neverIndexed : Bool) (index : Nat) (string : StringLiteral.Reader) (value a b : Bytes) :
    ((nameValue addressing neverIndexed index string value).read ctx (a ++ b)).Agree
      (((nameValue addressing neverIndexed index string value).read ctx a).resume ctx b) := by
  rw [read_nameValue, read_nameValue]
  exact readText_append (fun _ _ _ _ ↦ read_nameValue _ _ _ _ _ _ _)
    (fun _ _ _ _ ↦ .inl (finish_append _ _ _ _)) _ _ _

private theorem read_literalValue_append (ctx : Context) (neverIndexed : Bool)
    (name : StringLiteral) (string : StringLiteral.Reader) (value a b : Bytes) :
    ((literalValue neverIndexed name string value).read ctx (a ++ b)).Agree
      (((literalValue neverIndexed name string value).read ctx a).resume ctx b) := by
  rw [read_literalValue, read_literalValue]
  exact readText_append (fun _ _ _ _ ↦ read_literalValue _ _ _ _ _ _)
    (fun _ _ _ _ ↦ .inl (finish_append _ _ _ _)) _ _ _

/-- **Lines cut anywhere.** -/
theorem read_append (ctx : Context) (r : Reader) (a b : Bytes) :
    (r.read ctx (a ++ b)).Agree ((r.read ctx a).resume ctx b) := by
  cases r with
  | idle =>
    rw [read_idle, read_idle]
    exact .inl rfl
  | entryIndex addressing int =>
    rw [read_entryIndex, read_entryIndex]
    exact readIndex_append (read_entryIndex ctx addressing)
      (fun _ _ _ _ ↦ .inl (finish_append _ _ _ _)) _ _ _
  | nameIndex addressing neverIndexed int =>
    rw [read_nameIndex, read_nameIndex]
    exact readIndex_append (read_nameIndex ctx addressing neverIndexed)
      (fun _ _ _ _ ↦ read_nameValue_append _ _ _ _ _ _ _ _) _ _ _
  | nameValue addressing neverIndexed i string value => exact read_nameValue_append _ _ _ _ _ _ _ _
  | literalName neverIndexed string name =>
    rw [read_literalName, read_literalName]
    refine readText_append (fun s name input h ↦ ?_)
      (fun _ _ _ _ ↦ read_literalValue_append _ _ _ _ _ _ _) _ _ _
    have hlimit : s.withLimit ctx.size.remaining = s :=
      StringLiteral.Reader.withLimit_of_limit_eq h
    rw [read_literalName, hlimit]
  | literalValue neverIndexed name string value => exact read_literalValue_append _ _ _ _ _ _ _

/-! ## The line that is complete -/

theorem index?_append {int : PrefixedInteger.Reader} {a rest : Bytes} {i : Nat}
    (h : index? int a = some (i, rest)) (b : Bytes) :
    index? int (a ++ b) = some (i, rest ++ b) := by
  rw [index?, int.read_append]
  simp only [index?] at h
  split at h
  · rename_i hint
    obtain ⟨rfl, rfl⟩ : _ = i ∧ _ = rest := by simpa using h
    simp only [Outcome.resume, hint]
  · exact absurd h (by simp)

private theorem text?_append {string : StringLiteral.Reader} {content a rest : Bytes}
    {s : StringLiteral} (h : text? string content a = some (s, rest)) (b : Bytes) :
    text? string content (a ++ b) = some (s, rest ++ b) := by
  simp only [text?] at h
  split at h
  · rename_i hstring
    obtain ⟨rfl, rfl⟩ : _ = s ∧ _ = rest := by simpa using h
    rw [text?]
    simp only [StringLiteral.Reader.read_append_of_done hstring b, hstring]
  · exact absurd h (by simp)

theorem complete?_append {remaining : Nat} {r : Reader} {a rest : Bytes} {line : FieldLine}
    (h : r.complete? remaining a = some (line, rest)) (b : Bytes) :
    r.complete? remaining (a ++ b) = some (line, rest ++ b) := by
  cases r with
  | idle => exact absurd h (by simp [complete?])
  | entryIndex addressing int =>
    obtain ⟨⟨i, rest⟩, hi, ⟨⟩⟩ := Option.map_eq_some_iff.mp h
    simp only [complete?, index?_append hi, Option.map_some]
  | nameIndex addressing neverIndexed int =>
    obtain ⟨⟨i, middle⟩, hi, h⟩ := Option.bind_eq_some_iff.mp h
    obtain ⟨⟨value, rest⟩, hvalue, ⟨⟩⟩ := Option.map_eq_some_iff.mp h
    simp only [complete?, index?_append hi, Option.bind_some, text?_append hvalue, Option.map_some]
  | nameValue addressing neverIndexed i string value =>
    obtain ⟨⟨value, rest⟩, hvalue, ⟨⟩⟩ := Option.map_eq_some_iff.mp h
    simp only [complete?, text?_append hvalue, Option.map_some]
  | literalName neverIndexed string name =>
    obtain ⟨⟨name, middle⟩, hname, h⟩ := Option.bind_eq_some_iff.mp h
    obtain ⟨⟨value, rest⟩, hvalue, ⟨⟩⟩ := Option.map_eq_some_iff.mp h
    simp only [complete?, text?_append hname, Option.bind_some, text?_append hvalue,
      Option.map_some]
  | literalValue neverIndexed name string value =>
    obtain ⟨⟨value, rest⟩, hvalue, ⟨⟩⟩ := Option.map_eq_some_iff.mp h
    simp only [complete?, text?_append hvalue, Option.map_some]

end Reader

end FieldLine

/-! ## Line after line -/

namespace Decoder

open FieldLine

variable {ctx : Context}

/-- Reading lines from a chunk and, if that did not fail, from more octets. -/
def LinesReading.resume (ctx : Context) (x : LinesReading) (more : Bytes) : LinesReading :=
  match x.result with
  | .ok () =>
    let y := resumeLines { ctx with size := x.size } x.line more
    { y with events := x.events ++ y.events, notes := x.notes ++ y.notes }
  | .error _ => { x with rest := x.rest ++ more }

/-- Readings that are the same, unless both failed. They report the same fields even then. -/
def LinesReading.Agree (x y : LinesReading) : Prop :=
  x = y ∨ Failed x.result ∧ Failed y.result ∧ callbacks x.events = callbacks y.events

theorem LinesReading.Agree.trans {x y z : LinesReading} (hxy : x.Agree y) (hyz : y.Agree z) :
    x.Agree z := by
  rcases hxy with rfl | ⟨hx, hy, hevents⟩
  · exact hyz
  rcases hyz with rfl | ⟨-, hz, hevents'⟩
  · exact .inr ⟨hx, hy, hevents⟩
  · exact .inr ⟨hx, hz, hevents.trans hevents'⟩

theorem LinesReading.Agree.after {x y : LinesReading} (h : x.Agree y) (r : Reading) :
    (x.after r).Agree (y.after r) := by
  rcases h with rfl | ⟨hx, hy, hevents⟩
  · exact .inl rfl
  · exact .inr ⟨hx, hy, by simp [LinesReading.after, hevents]⟩

theorem readLines_nil (ctx : Context) :
    readLines ctx [] = { result := .ok (), line := .idle, rest := [], size := ctx.size } := by
  rw [readLines]

theorem readLines_cons (ctx : Context) (first : UInt8) (rest : Bytes) :
    readLines ctx (first :: rest) =
      readLinesAfter ctx ((Reader.ofByte first).read ctx (first :: rest)) := by
  rw [readLines]

section After

variable {x : Reading}

theorem readLinesAfter_of_error {cause : Error} (h : x.result = .error cause) :
    readLinesAfter ctx x = { x with result := .error cause, line := x.state } := by
  rw [readLinesAfter, h]

theorem readLinesAfter_of_pending (h : x.result = .ok none) :
    readLinesAfter ctx x = { x with result := .ok (), line := x.state } := by
  rw [readLinesAfter, h]

theorem readLinesAfter_of_done (h : x.result = .ok (some ())) :
    readLinesAfter ctx x = (readLines { ctx with size := x.size } x.rest).after x := by
  rw [readLinesAfter, h]

/-- What was reported before a line is of no concern to what follows it. -/
theorem readLinesAfter_prepend (ctx : Context) (x : Reading) (events : List Event)
    (notes : List Note) :
    readLinesAfter ctx { x with events := events ++ x.events, notes := notes ++ x.notes } =
      { readLinesAfter ctx x with
        events := events ++ (readLinesAfter ctx x).events
        notes := notes ++ (readLinesAfter ctx x).notes } := by
  rw [readLinesAfter, readLinesAfter]
  rcases h : x.result with cause | _ | _
  · rfl
  · rfl
  · simp [LinesReading.after]

theorem readLinesAfter_size (ctx : Context) (size : SectionSize) (x : Reading) :
    readLinesAfter { ctx with size := size } x = readLinesAfter ctx x := by
  rw [readLinesAfter, readLinesAfter]

end After

theorem resumeLines_idle (ctx : Context) (input : Bytes) :
    resumeLines ctx .idle input = readLines ctx input := by
  cases input <;> rfl

theorem resumeLines_nil (ctx : Context) (line : Reader) :
    resumeLines ctx line [] = { result := .ok (), line, rest := [], size := ctx.size } := by
  cases line with
  | idle => rw [resumeLines_idle, readLines_nil]
  | _ => rfl

theorem resumeLines_of_ne_idle {line : Reader} {input : Bytes} (hline : line ≠ .idle)
    (hinput : input ≠ []) :
    resumeLines ctx line input = readLinesAfter ctx (line.read ctx input) := by
  cases input with
  | nil => exact absurd rfl hinput
  | cons byte rest =>
    cases line with
    | idle => exact absurd rfl hline
    | _ => rfl

theorem callbacks_read_of_failed {r : Reader} {input : Bytes}
    (h : Failed (r.read ctx input).result) : callbacks (r.read ctx input).events = [] := by
  refine (Reader.callbacks_read_of_ne_done fun hdone ↦ ?_).1
  rw [hdone] at h
  exact not_failed_ok _ h

private theorem callbacks_resume_of_failed {r : Reader} {a b : Bytes}
    (h : Failed ((r.read ctx a).resume ctx b).result) :
    callbacks ((r.read ctx a).resume ctx b).events = [] := by
  rw [Reading.resume] at h ⊢
  split at h
  · rename_i hpending
    have hnone : callbacks (r.read ctx a).events = [] :=
      (Reader.callbacks_read_of_ne_done (by simp [hpending])).1
    simp only [callbacks_append, hnone, callbacks_read_of_failed h, List.append_nil]
  · exact callbacks_read_of_failed h

private theorem readLinesAfter_agree {x y : Reading} (h : x.Agree y)
    (hx : Failed x.result → callbacks x.events = [])
    (hy : Failed y.result → callbacks y.events = []) :
    (readLinesAfter ctx x).Agree (readLinesAfter ctx y) := by
  rcases h with rfl | ⟨hfailed, hfailed'⟩
  · exact .inl rfl
  have hnone := (hx hfailed).trans (hy hfailed').symm
  obtain ⟨cause, hcause⟩ := hfailed
  obtain ⟨cause', hcause'⟩ := hfailed'
  rw [readLinesAfter_of_error hcause, readLinesAfter_of_error hcause']
  exact .inr ⟨failed_error _, failed_error _, hnone⟩

/-- A line that is not complete after the first call is read on in by the second. -/
theorem readLinesAfter_resume_of_ne_done {x : Reading} {b : Bytes} (hb : b ≠ [])
    (hidle : x.result = .ok none → x.state ≠ .idle) (hx : x.result ≠ .ok (some ())) :
    readLinesAfter ctx (x.resume ctx b) = (readLinesAfter ctx x).resume ctx b := by
  rcases hresult : x.result with cause | _ | _
  · have hresume : (x.resume ctx b).result = .error cause := by simp [Reading.resume, hresult]
    rw [readLinesAfter_of_error hresult, readLinesAfter_of_error hresume]
    simp [Reading.resume, LinesReading.resume, hresult]
  · rw [readLinesAfter_of_pending hresult, LinesReading.resume, Reading.resume]
    simp only [hresult, resumeLines_of_ne_idle (hidle hresult) hb]
    rw [readLinesAfter_prepend, ← readLinesAfter_size ctx x.size]
  · exact absurd hresult hx

theorem readLinesAfter_resume_of_done {x : Reading} (hx : x.result = .ok (some ())) (b : Bytes) :
    readLinesAfter ctx (x.resume ctx b) =
      (readLines { ctx with size := x.size } (x.rest ++ b)).after x := by
  simp only [Reading.resume, hx]
  rw [readLinesAfter_of_done rfl]
  rfl

theorem resume_readLinesAfter_of_done {x : Reading} (hx : x.result = .ok (some ())) (b : Bytes) :
    (readLinesAfter ctx x).resume ctx b =
      ((readLines { ctx with size := x.size } x.rest).resume { ctx with size := x.size } b).after
        x := by
  rw [readLinesAfter_of_done hx, LinesReading.resume, LinesReading.resume]
  simp only [LinesReading.after]
  split <;> simp

/-- From the octets of one line to those of the lines that follow it. -/
theorem readLinesAfter_resume {x : Reading} {b : Bytes} (hb : b ≠ [])
    (hidle : x.result = .ok none → x.state ≠ .idle)
    (ih : ∀ ctx' : Context,
      (readLines ctx' (x.rest ++ b)).Agree ((readLines ctx' x.rest).resume ctx' b)) :
    (readLinesAfter ctx (x.resume ctx b)).Agree ((readLinesAfter ctx x).resume ctx b) := by
  by_cases hx : x.result = .ok (some ())
  · rw [readLinesAfter_resume_of_done hx, resume_readLinesAfter_of_done hx]
    exact (ih _).after x
  · exact .inl (readLinesAfter_resume_of_ne_done hb hidle hx)

theorem pending_read {r : Reader} {input : Bytes} (h : (r.read ctx input).result = .ok none) :
    (r.read ctx input).rest = [] ∧ (r.read ctx input).state ≠ .idle := by
  rcases hcomplete : r.complete? ctx.size.remaining input with _ | ⟨line, rest⟩
  · obtain ⟨hrest, -, -, hstate⟩ := (Reader.unfinished_read hcomplete).pending h
    exact ⟨hrest, hstate⟩
  · obtain ⟨r', hread⟩ := Reader.read_of_complete hcomplete
    rw [hread] at h
    exact absurd h (Reader.result_finish_ne_pending _ _ _ _)

theorem readLinesAfter_read_append (r : Reader) (a : Bytes) {b : Bytes} (hb : b ≠ [])
    (ih : ∀ ctx' : Context,
      (readLines ctx' ((r.read ctx a).rest ++ b)).Agree
        ((readLines ctx' (r.read ctx a).rest).resume ctx' b)) :
    (readLinesAfter ctx (r.read ctx (a ++ b))).Agree
      ((readLinesAfter ctx (r.read ctx a)).resume ctx b) :=
  (readLinesAfter_agree (r.read_append ctx a b) callbacks_read_of_failed
    callbacks_resume_of_failed).trans
    (readLinesAfter_resume hb (fun h ↦ (pending_read h).2) ih)

theorem rest_readLines_of_ok (ctx : Context) (input : Bytes)
    (h : (readLines ctx input).result = .ok ()) : (readLines ctx input).rest = [] := by
  induction hlen : input.length using Nat.strongRecOn generalizing ctx input with
  | ind n ih =>
    cases input with
    | nil => rw [readLines_nil]
    | cons first rest =>
      rw [readLines_cons] at h ⊢
      have hshorter := Reader.length_rest_read_ofByte ctx first first rest
      rcases hx : ((Reader.ofByte first).read ctx (first :: rest)).result with cause | _ | _
      · rw [readLinesAfter_of_error hx] at h
        exact absurd h (by simp)
      · rw [readLinesAfter_of_pending hx]
        exact (pending_read hx).1
      · rw [readLinesAfter_of_done hx] at h ⊢
        exact ih _ (hlen ▸ hshorter) _ _ h rfl

theorem LinesReading.resume_nil {x : LinesReading} (h : x.result = .ok () → x.rest = []) :
    x.resume ctx [] = x := by
  rw [LinesReading.resume]
  split
  · rename_i hok
    rw [resumeLines_nil]
    simp [← hok, ← h hok]
  · rw [List.append_nil]

/-- **The loop over lines, cut anywhere.** -/
theorem readLines_append (ctx : Context) (a b : Bytes) :
    (readLines ctx (a ++ b)).Agree ((readLines ctx a).resume ctx b) := by
  by_cases hb : b = []
  · subst hb
    left
    rw [LinesReading.resume_nil (rest_readLines_of_ok ctx a), List.append_nil]
  induction hlen : a.length using Nat.strongRecOn generalizing ctx a with
  | ind n ih =>
    cases a with
    | nil =>
      left
      rw [readLines_nil, LinesReading.resume]
      simp only [List.nil_append, resumeLines_idle]
    | cons first rest =>
      have hshorter := Reader.length_rest_read_ofByte ctx first first rest
      rw [List.cons_append, readLines_cons, readLines_cons]
      exact readLinesAfter_read_append _ (first :: rest) hb fun ctx' ↦
        ih _ (hlen ▸ hshorter) ctx' _ rfl

theorem rest_resumeLines_of_ok (ctx : Context) (line : Reader) (input : Bytes)
    (h : (resumeLines ctx line input).result = .ok ()) :
    (resumeLines ctx line input).rest = [] := by
  by_cases hinput : input = []
  · rw [hinput, resumeLines_nil]
  by_cases hline : line = .idle
  · rw [hline, resumeLines_idle] at h ⊢
    exact rest_readLines_of_ok ctx input h
  rw [resumeLines_of_ne_idle hline hinput] at h ⊢
  rcases hx : (line.read ctx input).result with cause | _ | _
  · rw [readLinesAfter_of_error hx] at h
    exact absurd h (by simp)
  · rw [readLinesAfter_of_pending hx]
    exact (pending_read hx).1
  · rw [readLinesAfter_of_done hx] at h ⊢
    exact rest_readLines_of_ok _ _ h

/-- The loop again, entered with a line that may have begun. -/
theorem resumeLines_append (ctx : Context) (line : Reader) (a b : Bytes) :
    (resumeLines ctx line (a ++ b)).Agree ((resumeLines ctx line a).resume ctx b) := by
  by_cases ha : a = []
  · left
    subst ha
    rw [resumeLines_nil, LinesReading.resume]
    simp only [List.nil_append]
  by_cases hb : b = []
  · left
    subst hb
    rw [LinesReading.resume_nil (rest_resumeLines_of_ok ctx line a), List.append_nil]
  by_cases hline : line = .idle
  · subst hline
    rw [resumeLines_idle, resumeLines_idle]
    exact readLines_append ctx a b
  · rw [resumeLines_of_ne_idle hline (by simp [ha]), resumeLines_of_ne_idle hline ha]
    exact readLinesAfter_read_append line a hb fun ctx' ↦ readLines_append ctx' _ b

end Decoder

end FieldCompression
