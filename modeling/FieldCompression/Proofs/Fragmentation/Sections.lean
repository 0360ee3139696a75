import FieldCompression.Proofs.Fragmentation.Lines

/-!
# Sections cut anywhere

How a section is cut into chunks makes no difference: not to whether it decodes, not to the fields
that are reported, and not to the decoder that is left if it does. `Decoder.run` gives a decoder
its chunks one after the other, up to the first that fails, and is compared with one call on all
the octets.

The table must not change between the chunks. A section that is decoded while the table changes
depends on when its octets arrive: an entry can be gone by the time a line is complete.
-/

namespace FieldCompression

open FieldLine

namespace Decoder

/-! ## Two chunks -/

/-- A call on a chunk and, if that did not fail, a call on more octets. -/
def Step.resume (table : TableView) (x : Step) (more : Bytes) : Step :=
  match x.result with
  | .ok () =>
    let y := x.decoder.advance table more
    { y with events := x.events ++ y.events, notes := x.notes ++ y.notes }
  | .error _ => { x with rest := x.rest ++ more }

/-- Steps that are the same, unless both failed. They report the same fields even then. -/
def Step.Agree (x y : Step) : Prop :=
  x = y ∨ Failed x.result ∧ Failed y.result ∧ callbacks x.events = callbacks y.events

/-- A step with an earlier note. -/
def Step.noting (x : Step) (note : Note) : Step := { x with notes := note :: x.notes }

theorem Step.Agree.noting {x y : Step} (h : x.Agree y) (note : Note) :
    (x.noting note).Agree (y.noting note) := by
  rcases h with rfl | h
  · exact .inl rfl
  · exact .inr h

theorem Step.resume_noting (table : TableView) (x : Step) (note : Note) (more : Bytes) :
    (x.noting note).resume table more = (x.resume table more).noting note := by
  rcases h : x.result with cause | _ <;> simp [Step.resume, Step.noting, h]

/-- A step that had nothing to say leaves everything to the next. -/
theorem Step.resume_of_silent (table : TableView) {x : Step} (h : x.result = .ok ())
    (hevents : x.events = []) (hnotes : x.notes = []) (more : Bytes) :
    x.resume table more = x.decoder.advance table more := by
  simp [Step.resume, h, hevents, hnotes]

/-- The step that reading lines amounts to. -/
def LinesReading.toStep (p : SectionPrefix) (x : LinesReading) : Step :=
  { x with decoder := { size := x.size, phase := .lines p x.line } }

theorem LinesReading.toStep_resume {ctx : Context} (x : LinesReading) (more : Bytes) :
    (x.resume ctx more).toStep ctx.sectionPrefix =
      (x.toStep ctx.sectionPrefix).resume ctx.table more := by
  rcases h : x.result with cause | _
  · simp [LinesReading.resume, Step.resume, LinesReading.toStep, h]
  · simp [LinesReading.resume, Step.resume, LinesReading.toStep, h, advance, decodeLines]

private theorem decodeLines_append (table : TableView) (d : Decoder) (p : SectionPrefix)
    (line : FieldLine.Reader) (a b : Bytes) :
    (d.decodeLines table p line (a ++ b)).Agree
      ((d.decodeLines table p line a).resume table b) := by
  obtain ⟨ctx, hctx⟩ : ∃ ctx : Context, ctx = { sectionPrefix := p, table, size := d.size } :=
    ⟨_, rfl⟩
  have hstep (input : Bytes) :
      d.decodeLines table p line input = (resumeLines ctx line input).toStep ctx.sectionPrefix := by
    subst hctx
    rfl
  obtain rfl : ctx.table = table := by rw [hctx]
  rw [hstep, hstep, ← LinesReading.toStep_resume]
  rcases resumeLines_append ctx line a b with heq | ⟨hboth, hfailed, hevents⟩
  · exact .inl (by rw [heq])
  · exact .inr ⟨hboth, hfailed, hevents⟩

theorem advance_append (table : TableView) (d : Decoder) (a b : Bytes) :
    (d.advance table (a ++ b)).Agree ((d.advance table a).resume table b) := by
  rcases hphase : d.phase with reader | ⟨p, line⟩
  · simp only [advance, hphase, reader.read_append]
    rcases ho : (reader.read table a).result with cause | _ | p
    · exact .inl (by simp [Outcome.resume, ho, Step.resume])
    · left
      rw [Step.resume_of_silent table rfl rfl rfl]
      simp only [advance, Outcome.resume, ho]
      rfl
    · simp only [Outcome.resume, ho]
      by_cases hblocked : table.insertCount < p.requiredInsertCount
      · exact .inl (by simp [hblocked, Step.resume])
      · simp only [hblocked, if_false]
        have hlines := decodeLines_append table d p .idle (reader.read table a).rest b
        have hnoted := hlines.noting (.sectionStarted p)
        rwa [← Step.resume_noting] at hnoted
  · simp only [advance, hphase]
    exact decodeLines_append table d p line a b

/-! ## Calls that give up -/

theorem result_decode (d : Decoder) (table : TableView) (chunk : Bytes) :
    (d.decode table chunk).result = (d.advance table chunk).result := by
  simp only [decode]
  split <;> rfl

theorem events_decode (d : Decoder) (table : TableView) (chunk : Bytes) :
    (d.decode table chunk).events = (d.advance table chunk).events := by
  simp only [decode]
  split <;> rfl

theorem decoder_decode_of_ok {d : Decoder} {table : TableView} {chunk : Bytes}
    (h : (d.advance table chunk).result = .ok ()) :
    (d.decode table chunk).decoder = (d.advance table chunk).decoder := by
  simp only [decode, h]

/-! ## Any number of chunks -/

/-- What the chunks of a section came to. -/
structure Run where
  /-- Whether all calls succeeded. -/
  result : Except Error Unit
  /-- The decoder after the last call that was made. -/
  decoder : Decoder
  /-- What was reported. -/
  events : List Event

/-- Decodes the chunks of a section in order, up to the first that fails. -/
def run (table : TableView) (d : Decoder) : List Bytes → Run
  | [] => { result := .ok (), decoder := d, events := [] }
  | chunk :: chunks =>
    let s := d.decode table chunk
    match s.result with
    | .error cause => { result := .error cause, decoder := s.decoder, events := s.events }
    | .ok () =>
      let more := s.decoder.run table chunks
      { more with events := s.events ++ more.events }

/-- Runs that are the same, unless both failed. They report the same fields even then. -/
def Run.Agree (x y : Run) : Prop :=
  x = y ∨ Failed x.result ∧ Failed y.result ∧ callbacks x.events = callbacks y.events

theorem Run.Agree.trans {x y z : Run} (hxy : x.Agree y) (hyz : y.Agree z) : x.Agree z := by
  rcases hxy with rfl | ⟨hx, hy, hevents⟩
  · exact hyz
  rcases hyz with rfl | ⟨-, hz, hevents'⟩
  · exact .inr ⟨hx, hy, hevents⟩
  · exact .inr ⟨hx, hz, hevents.trans hevents'⟩

variable {table : TableView} {d : Decoder}

theorem run_of_error {chunk : Bytes} {cause : Error}
    (h : (d.advance table chunk).result = .error cause) (chunks : List Bytes) :
    d.run table (chunk :: chunks) =
      { result := .error cause, decoder := (d.decode table chunk).decoder
        events := (d.advance table chunk).events } := by
  rw [run]
  simp only [result_decode, events_decode, h]

theorem run_of_ok {chunk : Bytes} (h : (d.advance table chunk).result = .ok ())
    (chunks : List Bytes) :
    d.run table (chunk :: chunks) =
      let more := (d.advance table chunk).decoder.run table chunks
      { more with events := (d.advance table chunk).events ++ more.events } := by
  rw [run]
  simp only [result_decode, events_decode, h, decoder_decode_of_ok h]

theorem run_one_of_ok {chunk : Bytes} (h : (d.advance table chunk).result = .ok ()) :
    d.run table [chunk] =
      { result := .ok (), decoder := (d.advance table chunk).decoder
        events := (d.advance table chunk).events } := by
  rw [run_of_ok h, run]
  simp

/-- One call on all the octets, in place of two. -/
theorem run_two (table : TableView) (d : Decoder) (a b : Bytes) :
    (d.run table [a ++ b]).Agree (d.run table [a, b]) := by
  have happend := advance_append table d a b
  rcases ha : (d.advance table a).result with cause | _
  · have hboth : Failed (d.advance table (a ++ b)).result ∧
        callbacks (d.advance table (a ++ b)).events = callbacks (d.advance table a).events := by
      rcases happend with heq | ⟨hboth, -, hevents⟩
      · simp [heq, Step.resume, ha]
      · exact ⟨hboth, by simpa [Step.resume, ha] using hevents⟩
    obtain ⟨⟨cause', hcause'⟩, hevents⟩ := hboth
    rw [run_of_error hcause', run_of_error ha]
    exact .inr ⟨failed_error _, failed_error _, hevents⟩
  · simp only [Step.resume, ha] at happend
    rw [run_of_ok ha]
    rcases hb : ((d.advance table a).decoder.advance table b).result with cause | _
    · have hboth : Failed (d.advance table (a ++ b)).result := by
        rcases happend with heq | ⟨hboth, -, -⟩
        · rw [heq, hb]
          exact failed_error _
        · exact hboth
      obtain ⟨cause', hcause'⟩ := hboth
      rw [run_of_error hcause', run_of_error hb]
      refine .inr ⟨failed_error _, failed_error _, ?_⟩
      rcases happend with heq | ⟨-, -, hevents⟩
      · rw [heq]
      · exact hevents
    · rw [run_one_of_ok hb]
      rcases happend with heq | ⟨-, hfailed, -⟩
      · left
        rw [run_one_of_ok (by rw [heq, hb]), heq]
      · exact absurd hfailed (by simp [hb])

private theorem run_flatten_cons (table : TableView) (d : Decoder) (chunk : Bytes)
    (chunks : List Bytes) :
    (d.run table [(chunk :: chunks).flatten]).Agree (d.run table (chunk :: chunks)) := by
  induction chunks generalizing d chunk with
  | nil => exact .inl (by simp)
  | cons next chunks ih =>
    refine (run_two table d chunk (next :: chunks).flatten).trans ?_
    rcases h : (d.advance table chunk).result with cause | _
    · exact .inl (by rw [run_of_error h, run_of_error h])
    · rw [run_of_ok h, run_of_ok h]
      rcases ih (d.advance table chunk).decoder next with heq | ⟨hone, hmany, hevents⟩
      · exact .inl (by rw [heq])
      · exact .inr ⟨hone, hmany, by rw [callbacks_append, callbacks_append, hevents]⟩

private theorem advance_start_nil (limit : Nat) (table : TableView) :
    (start limit).advance table [] = { result := .ok (), decoder := start limit, rest := [] } := rfl

theorem run_start_flatten (limit : Nat) (table : TableView) (chunks : List Bytes) :
    ((start limit).run table [chunks.flatten]).Agree ((start limit).run table chunks) := by
  cases chunks with
  | nil =>
    left
    rw [List.flatten_nil, run_one_of_ok (by rw [advance_start_nil]), advance_start_nil, run]
  | cons chunk chunks => exact run_flatten_cons table _ chunk chunks

theorem Run.Agree.callbacks_eq {x y : Run} (h : x.Agree y) :
    callbacks x.events = callbacks y.events := by
  rcases h with rfl | ⟨-, -, hevents⟩
  · rfl
  · exact hevents

private theorem events_run_one (table : TableView) (d : Decoder) (chunk : Bytes) :
    (d.run table [chunk]).events = (d.advance table chunk).events := by
  rcases h : (d.advance table chunk).result with cause | _
  · rw [run_of_error h]
  · rw [run_one_of_ok h]

theorem callbacks_run_start (limit : Nat) (table : TableView) (chunks : List Bytes) :
    callbacks ((start limit).run table chunks).events =
      callbacks ((start limit).advance table chunks.flatten).events := by
  rw [← events_run_one]
  exact (run_start_flatten limit table chunks).callbacks_eq.symm

theorem run_start_of_ok {limit : Nat} {table : TableView} {chunks : List Bytes}
    (h : ((start limit).advance table chunks.flatten).result = .ok ()) :
    (start limit).run table chunks =
      { result := .ok (), decoder := ((start limit).advance table chunks.flatten).decoder
        events := ((start limit).advance table chunks.flatten).events } := by
  have hone := run_start_flatten limit table chunks
  rw [run_one_of_ok h] at hone
  exact (hone.resolve_right fun hfailed ↦ not_failed_ok _ hfailed.1).symm

theorem result_run_start_iff {limit : Nat} {table : TableView} {chunks : List Bytes} :
    ((start limit).run table chunks).result = .ok () ↔
      ((start limit).advance table chunks.flatten).result = .ok () := by
  constructor
  · intro hok
    rcases h : ((start limit).advance table chunks.flatten).result with cause | _
    · rcases run_start_flatten limit table chunks with heq | ⟨-, hfailed, -⟩
      · rw [← heq, run_of_error h] at hok
        exact absurd hok (by simp)
      · exact absurd hfailed (by simp [hok])
    · rfl
  · intro h
    rw [run_start_of_ok h]

end Decoder

/-- **Sections cut anywhere.** However the octets of a section are cut into chunks, decoding the
chunks succeeds if decoding all the octets at once does, and not otherwise. The reported fields are
the same in either case. If decoding succeeds, the prefix is the same, and so is what comes of
declaring the section complete. -/
theorem Settings.fragmentation (s : Settings) (table : TableView) (chunks : List Bytes) :
    ((s.decoder.run table chunks).result = .ok () ↔
        (s.decoder.decode table chunks.flatten).result = .ok ()) ∧
      callbacks (s.decoder.run table chunks).events =
        callbacks (s.decoder.decode table chunks.flatten).events ∧
      ((s.decoder.run table chunks).result = .ok () →
        (s.decoder.run table chunks).decoder.sectionPrefix? =
            (s.decoder.decode table chunks.flatten).decoder.sectionPrefix? ∧
          (s.decoder.run table chunks).decoder.finish =
            (s.decoder.decode table chunks.flatten).decoder.finish) := by
  rw [Settings.decoder, Decoder.result_decode, Decoder.events_decode]
  refine ⟨Decoder.result_run_start_iff, Decoder.callbacks_run_start _ table chunks, ?_⟩
  intro hok
  have hone := Decoder.result_run_start_iff.mp hok
  rw [Decoder.run_start_of_ok hone, Decoder.decoder_decode_of_ok hone]
  exact ⟨rfl, rfl⟩

end FieldCompression
