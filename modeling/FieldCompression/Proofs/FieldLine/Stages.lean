import FieldCompression.Proofs.FieldLine.Meaning
import FieldCompression.Proofs.Fragmentation.Items

/-!
# Field lines stage by stage

`FieldLine.Reader.read` carries a line through at most two stages in one call. Here each state of
the reader gets one equation that says what a call does from there on: the last stage ends in
`finish`, and the first stage goes on to `read` at the stage after it. That a first stage may end
exactly where the chunk ends needs no equation of its own, because reading on without octets
changes nothing.

The equations are what everything else about lines is proved from; no other module opens `step`.
-/

namespace FieldCompression

namespace FieldLine

namespace Context

variable (ctx : Context) (string : StringLiteral.Reader) (input : Bytes)

@[simp] theorem result_readString :
    (ctx.readString string input).result = (string.read input).result := by
  simp only [readString]
  split <;> rfl

@[simp] theorem state_readString :
    (ctx.readString string input).state = (string.read input).state := by
  simp only [readString]
  split <;> rfl

@[simp] theorem output_readString :
    (ctx.readString string input).output = (string.read input).output := by
  simp only [readString]
  split <;> rfl

/-- Only a string that is too long is reported, and not as a field. -/
theorem events_readString :
    (ctx.readString string input).events = notices (string.read input).result := by
  simp only [readString]
  split
  · rename_i htoo
    rw [htoo, notices_tooLarge]
  · rename_i hother
    rcases h : (string.read input).result with cause | _
    · rw [notices_of_ne]
      rintro rfl
      exact hother h
    · rfl

private theorem callbacks_events_readString :
    callbacks (ctx.readString string input).events = [] := by
  simp only [readString]
  split <;> rfl

end Context

namespace Reader

variable {ctx : Context} {int : PrefixedInteger.Reader} {string : StringLiteral.Reader}
  {content input : Bytes}

/-! ## The last stage -/

theorem result_finish_ne_pending (ctx : Context) (line : FieldLine) (r : Reader) (rest : Bytes) :
    (finish ctx line r rest).result ≠ .ok none := by
  simp only [finish]
  split <;> simp

private theorem rest_readIndex_of_pending {unfinished : PrefixedInteger.Reader → Reader}
    {next : Nat → Reader → Bytes → Reading} (hnext : ∀ i r rest, (next i r rest).result ≠ .ok none)
    (h : (readIndex ctx int input unfinished next).result = .ok none) :
    (readIndex ctx int input unfinished next).rest = [] := by
  simp only [readIndex] at h ⊢
  rcases hint : (int.read input).result with cause | _ | i
  · simp [hint] at h
  · simpa [hint] using (int.tidy_read input).pending hint
  · exact absurd (by simpa [hint] using h) (hnext _ _ _)

theorem rest_readText_of_pending {unfinished : StringLiteral.Reader → Bytes → Reader}
    {next : StringLiteral → Reader → Bytes → Reading}
    (hnext : ∀ s r rest, (next s r rest).result ≠ .ok none)
    (h : (readText ctx string content input unfinished next).result = .ok none) :
    (readText ctx string content input unfinished next).rest = [] := by
  simp only [readText, Context.result_readString] at h ⊢
  rcases hstring : (string.read input).result with cause | _ | _
  · simp [hstring] at h
  · simpa [hstring, Context.rest_readString] using
      (StringLiteral.Reader.tidy_read _ _).pending hstring
  · exact absurd (by simpa [hstring] using h) (hnext _ _ _)

/-- A call that leaves nothing to read at an unfinished line is over after one stage. -/
theorem read_eq_step {r : Reader}
    (h : (r.step ctx input).result = .ok none → (r.step ctx input).rest = []) :
    r.read ctx input = r.step ctx input := by
  rw [read]
  split
  · rename_i hresult hrest
    exact absurd (h hresult) (by simp [hrest])
  · rfl

theorem read_idle (ctx : Context) (input : Bytes) :
    idle.read ctx input =
      { result := .error .invalidState, state := idle, rest := input, size := ctx.size } :=
  read_eq_step (by simp [step])

theorem read_entryIndex (ctx : Context) (addressing : Addressing) (int : PrefixedInteger.Reader)
    (input : Bytes) :
    (entryIndex addressing int).read ctx input =
      readIndex ctx int input (entryIndex addressing) fun i ↦
        finish ctx (.indexed addressing i) :=
  read_eq_step (rest_readIndex_of_pending fun _ _ _ ↦ result_finish_ne_pending _ _ _ _)

theorem read_nameValue (ctx : Context) (addressing : Addressing) (neverIndexed : Bool)
    (index : Nat) (string : StringLiteral.Reader) (value input : Bytes) :
    (nameValue addressing neverIndexed index string value).read ctx input =
      readText ctx string value input (nameValue addressing neverIndexed index) fun value ↦
        finish ctx (.nameReference addressing neverIndexed index value) :=
  read_eq_step (rest_readText_of_pending fun _ _ _ ↦ result_finish_ne_pending _ _ _ _)

theorem read_literalValue (ctx : Context) (neverIndexed : Bool) (name : StringLiteral)
    (string : StringLiteral.Reader) (value input : Bytes) :
    (literalValue neverIndexed name string value).read ctx input =
      readText ctx string value input (literalValue neverIndexed name) fun value ↦
        finish ctx (.literalName neverIndexed name value) :=
  read_eq_step (rest_readText_of_pending fun _ _ _ ↦ result_finish_ne_pending _ _ _ _)

/-! ## The first stage -/

theorem read_nameIndex (ctx : Context) (addressing : Addressing) (neverIndexed : Bool)
    (int : PrefixedInteger.Reader) (input : Bytes) :
    (nameIndex addressing neverIndexed int).read ctx input =
      readIndex ctx int input (nameIndex addressing neverIndexed) fun i _ rest ↦
        (nameValue addressing neverIndexed i (valueReader ctx.size.remaining) []).read ctx
          rest := by
  rw [read, step, readIndex, readIndex]
  rcases hint : (int.read input).result with cause | _ | i
  · rfl
  · simp only [(int.tidy_read input).pending hint]
  · simp only
    cases hrest : (int.read input).rest with
    | nil =>
      rw [read_nameValue]
      rfl
    | cons byte rest =>
      rw [read_nameValue]
      simp [step]

theorem read_literalName (ctx : Context) (neverIndexed : Bool) (string : StringLiteral.Reader)
    (name input : Bytes) :
    (literalName neverIndexed string name).read ctx input =
      readText ctx (string.withLimit ctx.size.remaining) name input (literalName neverIndexed)
        fun name _ rest ↦
          (literalValue neverIndexed name
            (valueReader (ctx.size.remaining - name.content.length)) []).read ctx rest := by
  rw [read, step, readText, readText]
  simp only [Context.result_readString]
  rcases hstring : ((string.withLimit ctx.size.remaining).read input).result with cause | _ | _
  · rfl
  · simp only [Context.rest_readString, (StringLiteral.Reader.tidy_read _ _).pending hstring]
  · simp only [Context.rest_readString]
    cases hrest : ((string.withLimit ctx.size.remaining).read input).rest with
    | nil =>
      rw [read_literalValue]
      rfl
    | cons byte rest =>
      rw [read_literalValue]
      simp [step]

/-! ## The line that a call completes -/

/-- The index that a chunk completes, and what follows it. -/
def index? (int : PrefixedInteger.Reader) (input : Bytes) : Option (Nat × Bytes) :=
  let o := int.read input
  match o.result with
  | .ok (some index) => some (index, o.rest)
  | _ => none

/-- The string that a chunk completes, of which `content` has been read already, and what follows
it. -/
def text? (string : StringLiteral.Reader) (content input : Bytes) :
    Option (StringLiteral × Bytes) :=
  let s := string.read input
  match s.result with
  | .ok (some ()) => some (⟨s.state.huffman, content ++ s.output⟩, s.rest)
  | _ => none

/-- The line that a chunk completes, and what follows it, when the section may still hold
`remaining` octets. The line has been read but nothing has been done with it: whether its reference
can be found is left open. -/
def complete? (remaining : Nat) : Reader → Bytes → Option (FieldLine × Bytes)
  | idle, _ => none
  | entryIndex addressing int, input =>
    (index? int input).map fun (i, rest) ↦ (.indexed addressing i, rest)
  | nameIndex addressing neverIndexed int, input =>
    (index? int input).bind fun (i, rest) ↦
      (text? (valueReader remaining) [] rest).map fun (value, rest) ↦
        (.nameReference addressing neverIndexed i value, rest)
  | nameValue addressing neverIndexed i string value, input =>
    (text? string value input).map fun (value, rest) ↦
      (.nameReference addressing neverIndexed i value, rest)
  | literalName neverIndexed string name, input =>
    (text? (string.withLimit remaining) name input).bind fun (name, rest) ↦
      (text? (valueReader (remaining - name.content.length)) [] rest).map fun (value, rest) ↦
        (.literalName neverIndexed name value, rest)
  | literalValue neverIndexed name string value, input =>
    (text? string value input).map fun (value, rest) ↦ (.literalName neverIndexed name value, rest)

/-- What a call did that did not come to the end of a line: it may have failed, but it has counted
and reported nothing. -/
structure Unfinished (ctx : Context) (x : Reading) : Prop where
  /-- Nothing was counted. -/
  size : x.size = ctx.size
  /-- No field was reported. -/
  callbacks : callbacks x.events = []
  /-- A string that is too long was reported. -/
  events : x.events = notices x.result
  /-- The line is not complete. -/
  result_ne : x.result ≠ .ok (some ())
  /-- A call that did not fail took the whole chunk and had nothing to say. -/
  pending : x.result = .ok none → x.rest = [] ∧ x.events = [] ∧ x.notes = [] ∧ x.state ≠ idle
  /-- A call that failed did so over the octets. -/
  cause : ∀ cause, x.result = .error cause → cause ∈ readingErrors

section Stages

variable {unfinished : PrefixedInteger.Reader → Reader} {next : Nat → Reader → Bytes → Reading}
  {unfinishedText : StringLiteral.Reader → Bytes → Reader}
  {nextText : StringLiteral → Reader → Bytes → Reading}

theorem readIndex_of_some {i : Nat} {rest : Bytes} (h : index? int input = some (i, rest)) :
    readIndex ctx int input unfinished next = next i (unfinished (int.read input).state) rest := by
  simp only [index?] at h
  split at h
  · rename_i hint
    obtain ⟨rfl, rfl⟩ : _ = i ∧ _ = rest := by simpa using h
    simp only [readIndex, hint]
  · exact absurd h (by simp)

theorem readText_of_some {s : StringLiteral} {rest : Bytes}
    (h : text? string content input = some (s, rest)) :
    ∃ r, readText ctx string content input unfinishedText nextText = nextText s r rest := by
  simp only [text?] at h
  split at h
  · rename_i hstring
    obtain ⟨rfl, rfl⟩ : _ = s ∧ _ = rest := by simpa using h
    refine ⟨unfinishedText (string.read input).state (content ++ (string.read input).output), ?_⟩
    simp [readText, hstring, Context.rest_readString]
  · exact absurd h (by simp)

private theorem unfinished_readIndex (hidle : ∀ int, unfinished int ≠ idle)
    (h : index? int input = none) : Unfinished ctx (readIndex ctx int input unfinished next) := by
  simp only [index?] at h
  rcases hint : (int.read input).result with cause | _ | i
  · have hcause := (int.tidy_read input).cause _ hint
    have hsilent : notices (.error cause : Except Error (Option Unit)) = [] := by
      rcases PrefixedInteger.Reader.cause_read hint with rfl | rfl <;> rfl
    simp only [readIndex, hint]
    exact ⟨rfl, rfl, hsilent.symm, by simp, by simp, by simpa [readingErrors] using hcause⟩
  · have hrest := (int.tidy_read input).pending hint
    simp only [readIndex, hint]
    exact ⟨rfl, rfl, rfl, by simp, fun _ ↦ ⟨hrest, rfl, rfl, hidle _⟩, by simp⟩
  · simp [hint] at h

private theorem unfinished_readText (hidle : ∀ string content, unfinishedText string content ≠ idle)
    (h : text? string content input = none) :
    Unfinished ctx (readText ctx string content input unfinishedText nextText) := by
  simp only [text?] at h
  rcases hstring : (string.read input).result with cause | _ | _
  · have hcause := (string.tidy_read input).cause _ hstring
    have hevents := ctx.events_readString string input
    rw [hstring] at hevents
    simp only [readText, Context.result_readString, hstring]
    exact ⟨rfl, ctx.callbacks_events_readString string input, hevents, by simp, by simp,
      by simpa using hcause⟩
  · have hrest := (StringLiteral.Reader.tidy_read _ _).pending hstring
    simp only [readText, Context.result_readString, hstring, Context.rest_readString]
    exact ⟨rfl, rfl, rfl, by simp, fun _ ↦ ⟨hrest, rfl, rfl, hidle _ _⟩, by simp⟩
  · simp [hstring] at h

end Stages

section Pending

variable {unfinished : PrefixedInteger.Reader → Reader} {next : Nat → Reader → Bytes → Reading}
  {unfinishedText : StringLiteral.Reader → Bytes → Reader}
  {nextText : StringLiteral → Reader → Bytes → Reading} {motive : Reader → Prop}

/-- What an unfinished line is left as: its index is unfinished, or a later stage is. -/
theorem state_readIndex
    (hint : (int.read input).result = .ok none → motive (unfinished (int.read input).state))
    (hnext : ∀ i r rest, (next i r rest).result = .ok none → motive (next i r rest).state)
    (h : (readIndex ctx int input unfinished next).result = .ok none) :
    motive (readIndex ctx int input unfinished next).state := by
  simp only [readIndex] at h ⊢
  rcases hresult : (int.read input).result with cause | _ | i
  · simp [hresult] at h
  · exact hint hresult
  · simp only [hresult] at h
    exact hnext _ _ _ h

theorem state_readText
    (hstring : (string.read input).result = .ok none →
      motive (unfinishedText (string.read input).state (content ++ (string.read input).output)))
    (hnext : ∀ r rest, (string.read input).result = .ok (some ()) →
      let s : StringLiteral :=
        ⟨(string.read input).state.huffman, content ++ (string.read input).output⟩
      (nextText s r rest).result = .ok none → motive (nextText s r rest).state)
    (h : (readText ctx string content input unfinishedText nextText).result = .ok none) :
    motive (readText ctx string content input unfinishedText nextText).state := by
  simp only [readText, Context.result_readString, Context.state_readString,
    Context.output_readString] at h ⊢
  rcases hresult : (string.read input).result with cause | _ | _
  · simp [hresult] at h
  · exact hstring hresult
  · simp only [hresult] at h
    exact hnext _ _ hresult h

end Pending

/-- **A complete line.** A call that comes to the end of a line finishes it. -/
theorem read_of_complete {r : Reader} {line : FieldLine} {rest : Bytes}
    (h : r.complete? ctx.size.remaining input = some (line, rest)) :
    ∃ r', r.read ctx input = finish ctx line r' rest := by
  cases r with
  | idle => exact absurd h (by simp [complete?])
  | entryIndex addressing int =>
    obtain ⟨⟨i, rest⟩, hi, ⟨⟩⟩ := Option.map_eq_some_iff.mp h
    exact ⟨_, by rw [read_entryIndex, readIndex_of_some hi]⟩
  | nameIndex addressing neverIndexed int =>
    obtain ⟨⟨i, middle⟩, hi, h⟩ := Option.bind_eq_some_iff.mp h
    obtain ⟨⟨value, rest⟩, hvalue, ⟨⟩⟩ := Option.map_eq_some_iff.mp h
    rw [read_nameIndex, readIndex_of_some hi, read_nameValue]
    exact readText_of_some hvalue
  | nameValue addressing neverIndexed i string value =>
    obtain ⟨⟨value, rest⟩, hvalue, ⟨⟩⟩ := Option.map_eq_some_iff.mp h
    rw [read_nameValue]
    exact readText_of_some hvalue
  | literalName neverIndexed string name =>
    obtain ⟨⟨name, middle⟩, hname, h⟩ := Option.bind_eq_some_iff.mp h
    obtain ⟨⟨value, rest⟩, hvalue, ⟨⟩⟩ := Option.map_eq_some_iff.mp h
    rw [read_literalName]
    obtain ⟨r, hr⟩ := readText_of_some hname
    rw [hr, read_literalValue]
    exact readText_of_some hvalue
  | literalValue neverIndexed name string value =>
    obtain ⟨⟨value, rest⟩, hvalue, ⟨⟩⟩ := Option.map_eq_some_iff.mp h
    rw [read_literalValue]
    exact readText_of_some hvalue

/-- **An unfinished line.** A call that does not come to the end of a line counts and reports no
field. -/
theorem unfinished_read {r : Reader} (h : r.complete? ctx.size.remaining input = none) :
    Unfinished ctx (r.read ctx input) := by
  cases r with
  | idle =>
    rw [read_idle]
    exact ⟨rfl, rfl, rfl, by simp, by simp, by simp [readingErrors, eq_comm]⟩
  | entryIndex addressing int =>
    rw [read_entryIndex]
    exact unfinished_readIndex (by simp) (Option.map_eq_none_iff.mp h)
  | nameIndex addressing neverIndexed int =>
    rw [read_nameIndex]
    rcases hi : index? int input with _ | ⟨i, middle⟩
    · exact unfinished_readIndex (by simp) hi
    · rw [readIndex_of_some hi, read_nameValue]
      rw [complete?, hi, Option.bind_some, Option.map_eq_none_iff] at h
      exact unfinished_readText (by simp) h
  | nameValue addressing neverIndexed i string value =>
    rw [read_nameValue]
    exact unfinished_readText (by simp) (Option.map_eq_none_iff.mp h)
  | literalName neverIndexed string name =>
    rw [read_literalName]
    rcases hname : text? (string.withLimit ctx.size.remaining) name input with _ | ⟨name', middle⟩
    · exact unfinished_readText (by simp) hname
    · obtain ⟨r, hr⟩ := readText_of_some hname
      rw [hr, read_literalValue]
      rw [complete?, hname, Option.bind_some, Option.map_eq_none_iff] at h
      exact unfinished_readText (by simp) h
  | literalValue neverIndexed name string value =>
    rw [read_literalValue]
    exact unfinished_readText (by simp) (Option.map_eq_none_iff.mp h)

/-! ## What the end of a line comes to -/

section Finish

variable {line : FieldLine} {e : Event} {field : Field}

theorem finish_of_denotes_of_le (h : Denotes ctx.sectionPrefix ctx.table line e)
    (hfield : e.field? = some field) (hle : ctx.size.used + field.size ≤ ctx.size.limit)
    (r : Reader) (rest : Bytes) :
    ∃ notes, finish ctx line r rest =
      { result := .ok (some ()), state := idle, rest
        size := { ctx.size with used := ctx.size.used + field.size }, events := [e], notes } := by
  obtain ⟨notes, hdeliver⟩ := Context.deliver_of_denotes h hfield
  rw [Context.accept_of_le hle] at hdeliver
  exact ⟨notes, by simp only [finish, hdeliver]⟩

theorem finish_of_denotes_of_lt (h : Denotes ctx.sectionPrefix ctx.table line e)
    (hfield : e.field? = some field) (hlt : ctx.size.limit < ctx.size.used + field.size)
    (r : Reader) (rest : Bytes) :
    ∃ notes, finish ctx line r rest =
      { result := .error .headerListTooLarge, state := r, rest, size := ctx.size
        events := [.rejected .headerListTooLarge], notes } := by
  obtain ⟨notes, hdeliver⟩ := Context.deliver_of_denotes h hfield
  rw [Context.accept_of_lt hlt] at hdeliver
  exact ⟨notes, by simp only [finish, hdeliver]⟩

theorem finish_of_not_denotes (h : ∀ e, ¬Denotes ctx.sectionPrefix ctx.table line e) (r : Reader)
    (rest : Bytes) :
    ∃ addressing index notes, line.reference? = some (addressing, index) ∧
      finish ctx line r rest =
        { result := .error (Context.missing addressing), state := r, rest, size := ctx.size
          events := [], notes } := by
  obtain ⟨addressing, index, hreference, hresult, hsize, hevents⟩ :=
    Context.deliver_of_not_denotes h
  refine ⟨addressing, index, (ctx.deliver line).notes, hreference, ?_⟩
  simp only [finish, hresult, hsize, hevents]

theorem read_of_denotes (ctx : Context) {r : Reader} {rest : Bytes}
    (hcomplete : r.complete? ctx.size.remaining input = some (line, rest))
    (hdenotes : Denotes ctx.sectionPrefix ctx.table line e) (hfield : e.field? = some field)
    (hfits : ctx.size.used + field.size ≤ ctx.size.limit) :
    ∃ notes, r.read ctx input =
      { result := .ok (some ()), state := idle, rest
        size := { ctx.size with used := ctx.size.used + field.size }, events := [e], notes } := by
  obtain ⟨r', hread⟩ := read_of_complete hcomplete
  rw [hread]
  exact finish_of_denotes_of_le hdenotes hfield hfits r' rest

end Finish

/-- **What a call on a line can do.** Either it leaves the line unfinished; or it completes a line
and reports what that line denotes; or it completes a line and fails, because the field is too
large or because the line denotes nothing. -/
inductive Call (ctx : Context) (r : Reader) (input : Bytes) (x : Reading) : Prop
  /-- The line is not complete. -/
  | unfinished (h : r.complete? ctx.size.remaining input = none) (hx : Unfinished ctx x)
  /-- The line is complete and its field is reported. -/
  | reported (line : FieldLine) (rest : Bytes) (e : Event) (field : Field)
    (h : r.complete? ctx.size.remaining input = some (line, rest))
    (hdenotes : Denotes ctx.sectionPrefix ctx.table line e) (hfield : e.field? = some field)
    (hle : ctx.size.used + field.size ≤ ctx.size.limit)
    (hx : ∃ notes, x =
      { result := .ok (some ()), state := idle, rest
        size := { ctx.size with used := ctx.size.used + field.size }, events := [e], notes })
  /-- The line is complete and its field is too large. -/
  | tooLarge (line : FieldLine) (rest : Bytes) (e : Event) (field : Field)
    (h : r.complete? ctx.size.remaining input = some (line, rest))
    (hdenotes : Denotes ctx.sectionPrefix ctx.table line e) (hfield : e.field? = some field)
    (hlt : ctx.size.limit < ctx.size.used + field.size)
    (hx : ∃ r' notes, x =
      { result := .error .headerListTooLarge, state := r', rest, size := ctx.size
        events := [.rejected .headerListTooLarge], notes })
  /-- The line is complete and its reference leads nowhere. -/
  | missing (line : FieldLine) (rest : Bytes) (addressing : Addressing) (index : Nat)
    (h : r.complete? ctx.size.remaining input = some (line, rest))
    (hdenotes : ∀ e, ¬Denotes ctx.sectionPrefix ctx.table line e)
    (hreference : line.reference? = some (addressing, index))
    (hx : ∃ r' notes, x =
      { result := .error (Context.missing addressing), state := r', rest, size := ctx.size
        events := [], notes })

theorem call_read (ctx : Context) (r : Reader) (input : Bytes) :
    Call ctx r input (r.read ctx input) := by
  rcases h : r.complete? ctx.size.remaining input with _ | ⟨line, rest⟩
  · exact .unfinished h (unfinished_read h)
  obtain ⟨r', hread⟩ := read_of_complete h
  rw [hread]
  by_cases hdenotes : ∃ e, Denotes ctx.sectionPrefix ctx.table line e
  · obtain ⟨e, he⟩ := hdenotes
    obtain ⟨field, hfield⟩ := he.exists_field
    by_cases hle : ctx.size.used + field.size ≤ ctx.size.limit
    · exact .reported line rest e field h he hfield hle
        (finish_of_denotes_of_le he hfield hle r' rest)
    · have hlt : ctx.size.limit < ctx.size.used + field.size := by omega
      exact .tooLarge line rest e field h he hfield hlt
        ⟨r', finish_of_denotes_of_lt he hfield hlt r' rest⟩
  · have hnone : ∀ e, ¬Denotes ctx.sectionPrefix ctx.table line e := fun e he ↦ hdenotes ⟨e, he⟩
    obtain ⟨addressing, index, notes, hreference, hfinish⟩ := finish_of_not_denotes hnone r' rest
    exact .missing line rest addressing index h hnone hreference ⟨r', notes, hfinish⟩

/-- What a call does that comes to the end of a line and does not fail. -/
theorem exists_read_eq_of_done {r : Reader} (h : (r.read ctx input).result = .ok (some ())) :
    ∃ rest e field notes, e.field? = some field ∧
      ctx.size.used + field.size ≤ ctx.size.limit ∧
      r.read ctx input =
        { result := .ok (some ()), state := idle, rest
          size := { ctx.size with used := ctx.size.used + field.size }, events := [e], notes } := by
  cases call_read ctx r input with
  | unfinished _ hx => exact absurd h hx.result_ne
  | reported line rest e field _ _ hfield hle hx =>
    obtain ⟨notes, hx⟩ := hx
    exact ⟨rest, e, field, notes, hfield, hle, hx⟩
  | tooLarge line rest e field _ _ _ _ hx =>
    obtain ⟨r', notes, hx⟩ := hx
    exact absurd h (by simp [hx])
  | missing line rest addressing index _ _ _ hx =>
    obtain ⟨r', notes, hx⟩ := hx
    exact absurd h (by simp [hx])

theorem state_of_done {r : Reader} (h : (r.read ctx input).result = .ok (some ())) :
    (r.read ctx input).state = idle := by
  obtain ⟨rest, e, field, notes, -, -, hread⟩ := exists_read_eq_of_done h
  rw [hread]

theorem events_read (ctx : Context) (r : Reader) (input : Bytes) :
    (r.read ctx input).events =
      callbacks (r.read ctx input).events ++ notices (r.read ctx input).result := by
  cases call_read ctx r input with
  | unfinished _ hx => rw [hx.callbacks, List.nil_append, hx.events]
  | reported line rest e field _ _ hfield _ hx =>
    obtain ⟨notes, hx⟩ := hx
    simp [hx, callbacks, hfield]
  | tooLarge line rest e field _ _ _ _ hx =>
    obtain ⟨r', notes, hx⟩ := hx
    rw [hx]
    rfl
  | missing line rest addressing index _ _ _ hx =>
    obtain ⟨r', notes, hx⟩ := hx
    rw [hx]
    cases addressing <;> rfl

theorem callbacks_read_of_ne_done {r : Reader} (h : (r.read ctx input).result ≠ .ok (some ())) :
    callbacks (r.read ctx input).events = [] ∧ (r.read ctx input).size = ctx.size := by
  cases call_read ctx r input with
  | unfinished _ hx => exact ⟨hx.callbacks, hx.size⟩
  | reported line rest e field _ _ _ _ hx =>
    obtain ⟨notes, hx⟩ := hx
    exact absurd (by rw [hx]) h
  | tooLarge line rest e field _ _ _ _ hx =>
    obtain ⟨r', notes, hx⟩ := hx
    rw [hx]
    exact ⟨rfl, rfl⟩
  | missing line rest addressing index _ _ _ hx =>
    obtain ⟨r', notes, hx⟩ := hx
    rw [hx]
    exact ⟨rfl, rfl⟩

theorem used_le_of_done {r : Reader} (h : (r.read ctx input).result = .ok (some ())) :
    (r.read ctx input).size.used ≤ ctx.size.limit := by
  cases call_read ctx r input with
  | unfinished _ hx => exact absurd h hx.result_ne
  | reported line rest e field _ _ _ hle hx =>
    obtain ⟨notes, hx⟩ := hx
    rw [hx]
    exact hle
  | tooLarge line rest e field _ _ _ _ hx =>
    obtain ⟨r', notes, hx⟩ := hx
    exact absurd h (by simp [hx])
  | missing line rest addressing index _ _ _ hx =>
    obtain ⟨r', notes, hx⟩ := hx
    exact absurd h (by simp [hx])

end Reader

end FieldLine

end FieldCompression
