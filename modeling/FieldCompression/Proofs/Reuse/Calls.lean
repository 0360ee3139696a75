import FieldCompression.Proofs.FieldSection.Visits

/-!
# Decoders used again

One decoder serves all the sections of a connection. A section can be given up at any point: by a
failure, by declaring it complete too early, or by a reset. What comes next must not depend on what
came before, so after each of these the decoder has to be the one that the connection started with.
And what holds while a section is decoded has to be established anew by each section.
-/

namespace FieldCompression

open FieldLine

/-! ## What a decoder keeps

All that a decoder keeps from one section to the next is its limit, and no call changes that. So
there is one fact to prove of every call, `limit_perform`, and what ends a section leads from there
back to the decoder under the same limit. -/

/-! ### The limit -/

theorem FieldLine.Reader.limit_size_read (ctx : Context) (r : Reader) (input : Bytes) :
    (r.read ctx input).size.limit = ctx.size.limit := by
  cases call_read ctx r input with
  | unfinished _ hx => rw [hx.size]
  | reported line rest e field _ _ _ _ hx =>
    obtain ⟨notes, hx⟩ := hx
    rw [hx]
  | tooLarge line rest e field _ _ _ _ hx =>
    obtain ⟨r', notes, hx⟩ := hx
    rw [hx]
  | missing line rest addressing index _ _ _ hx =>
    obtain ⟨r', notes, hx⟩ := hx
    rw [hx]

namespace Decoder

private theorem Visit.limit_size_loop (v : Visit) : v.loop.size.limit = v.ctx.size.limit := by
  have hreading (v : Visit) : v.reading.size.limit = v.ctx.size.limit :=
    FieldLine.Reader.limit_size_read v.ctx v.line v.input
  induction v using loop_induction with
  | error v cause hresult =>
    rw [loop, readLinesAfter_of_error hresult]
    exact hreading v
  | pending v hresult =>
    rw [loop, readLinesAfter_of_pending hresult]
    exact hreading v
  | last v hdone hrest =>
    rw [loop_of_end hdone hrest]
    exact hreading v
  | next v first rest hdone hrest ih =>
    rw [loop_of_next hdone hrest]
    exact ih.trans (hreading v)

private theorem limit_size_resumeLines (ctx : Context) (line : FieldLine.Reader) (input : Bytes) :
    (resumeLines ctx line input).size.limit = ctx.size.limit := by
  cases input with
  | nil => rw [resumeLines_nil]
  | cons first rest =>
    rw [Visit.resumeLines_of_first? rfl]
    exact Visit.limit_size_loop _

theorem limit_advance (d : Decoder) (table : TableView) (chunk : Bytes) :
    (d.advance table chunk).decoder.size.limit = d.size.limit := by
  rcases hlines : d.linesOf? table chunk with _ | ⟨p, line, input⟩
  · -- the call stopped in the prefix, and has not touched the size
    rcases hphase : d.phase with reader | ⟨p, line⟩
    · rw [linesOf?, hphase] at hlines
      simp only [advance, hphase]
      rcases ho : (reader.read table chunk).result with cause | _ | p
      · rfl
      · rfl
      · by_cases hblocked : table.insertCount < p.requiredInsertCount
        · simp [hblocked]
        · simp [ho, hblocked] at hlines
    · simp [linesOf?, hphase] at hlines
  · obtain ⟨notes, hadvance⟩ := advance_of_linesOf? hlines
    rw [hadvance]
    exact limit_size_resumeLines _ line input

theorem reset_advance (d : Decoder) (table : TableView) (chunk : Bytes) :
    (d.advance table chunk).decoder.reset = start d.size.limit := by
  rw [← limit_advance d table chunk]
  rfl

theorem decoder_decode_of_failed {d : Decoder} {table : TableView} {chunk : Bytes}
    (h : Failed (d.decode table chunk).result) :
    (d.decode table chunk).decoder = start d.size.limit := by
  obtain ⟨cause, hcause⟩ := h
  rw [result_decode] at hcause
  rw [← reset_advance d table chunk]
  simp only [decode, hcause]

/-! ### Calls -/

/-- A call of a decoder. The table may be another one each time. -/
inductive Call where
  /-- Decodes a chunk of a section. -/
  | decode (table : TableView) (chunk : Bytes)
  /-- Declares the section complete. -/
  | finish
  /-- Decodes the last chunk of a section and declares the section complete. -/
  | decodeSection (table : TableView) (chunk : Bytes)
  /-- Gives the section up. -/
  | reset

/-- What a caller learns from a call. -/
structure Answer where
  /-- Whether the call succeeded, and the prefix of a section that it completed. -/
  result : Except Error (Option SectionPrefix)
  /-- What was reported. -/
  events : List Event
  /-- The prefix of the section under way, as it can be asked for after the call. -/
  sectionPrefix? : Option SectionPrefix

/-- The decoder after a call. -/
def perform (d : Decoder) : Call → Decoder
  | .decode table chunk => (d.decode table chunk).decoder
  | .finish => d.finish.decoder
  | .decodeSection table chunk => (d.decodeSection table chunk).decoder
  | .reset => d.reset

/-- What the caller learns from a call. -/
def answer (d : Decoder) (call : Call) : Answer where
  result :=
    match call with
    | .decode table chunk => (d.decode table chunk).result.map fun _ ↦ none
    | .finish => d.finish.result.map some
    | .decodeSection table chunk => (d.decodeSection table chunk).result.map some
    | .reset => .ok none
  events :=
    match call with
    | .decode table chunk => (d.decode table chunk).events
    | .decodeSection table chunk => (d.decodeSection table chunk).events
    | .finish | .reset => []
  sectionPrefix? := (d.perform call).sectionPrefix?

/-- The decoder after some calls. -/
def performAll (d : Decoder) (calls : List Call) : Decoder := calls.foldl perform d

/-- What the caller learns from some calls. -/
def answers (d : Decoder) : List Call → List Answer
  | [] => []
  | call :: calls => d.answer call :: (d.perform call).answers calls

/-- The calls that end a section: those that fail, and those that are meant to. -/
def Ends (d : Decoder) : Call → Prop
  | .decode table chunk => Failed (d.decode table chunk).result
  | .finish | .decodeSection .. | .reset => True

/-! ### What calls leave -/

variable {d : Decoder} {call : Call}

theorem limit_perform (d : Decoder) (call : Call) :
    (d.perform call).size.limit = d.size.limit := by
  have hdecode (table : TableView) (chunk : Bytes) :
      (d.decode table chunk).decoder.size.limit = d.size.limit := by
    rcases h : (d.advance table chunk).result with cause | _
    · rw [decoder_decode_of_failed (by rw [result_decode, h]; exact failed_error _)]
      rfl
    · rw [decoder_decode_of_ok h]
      exact limit_advance d table chunk
  cases call with
  | decode table chunk => exact hdecode table chunk
  | finish => rfl
  | decodeSection table chunk =>
    simp only [perform, decodeSection]
    split
    · exact hdecode table chunk
    · exact hdecode table chunk
  | reset => rfl

theorem limit_performAll (d : Decoder) (calls : List Call) :
    (d.performAll calls).size.limit = d.size.limit := by
  induction calls generalizing d with
  | nil => rfl
  | cons call calls ih => exact (ih (d.perform call)).trans (limit_perform d call)

/-- **The end of a section.** What ends a section leaves a decoder that has seen nothing. -/
theorem perform_of_ends (h : d.Ends call) : d.perform call = start d.size.limit := by
  cases call with
  | decode table chunk => exact decoder_decode_of_failed h
  | finish => rfl
  | decodeSection table chunk =>
    rw [perform, decodeSection]
    split
    · rename_i cause hcause
      exact decoder_decode_of_failed ⟨cause, hcause⟩
    · rename_i hok
      rw [result_decode] at hok
      rw [decoder_decode_of_ok hok]
      exact reset_advance d table chunk
  | reset => rfl

theorem performAll_append (d : Decoder) (calls calls' : List Call) :
    d.performAll (calls ++ calls') = (d.performAll calls).performAll calls' :=
  List.foldl_append

theorem performAll_of_ends {limit : Nat} {calls : List Call}
    (h : ((start limit).performAll calls).Ends call) :
    (start limit).performAll (calls ++ [call]) = start limit := by
  rw [performAll_append]
  refine (perform_of_ends h).trans ?_
  rw [limit_performAll]
  rfl

end Decoder

/-! ## What lasts while a section is decoded

An invariant of a section relates three things between two calls: the size of the section so far,
the line that has begun, and what has been reported of the section. It has to hold before anything
is read and to survive two events, that a byte begins a line and that a call on a line does not
fail. `Lasting` says so. Then it holds after every call of a decoder, however many sections came
before, and at every line that a call comes to.

What has been reported of the section under way is `underway`. Whatever ends a section ends what is
told of it. -/

namespace Decoder

/-- The line that has begun, or an idle reader. -/
def line (d : Decoder) : FieldLine.Reader :=
  match d.phase with
  | .opening _ => .idle
  | .lines _ line => line

/-- What has been reported of the section under way after a call, if `events` had been before. -/
def reported (d : Decoder) (events : List Event) : Call → List Event
  | .decode table chunk =>
    match (d.decode table chunk).result with
    | .ok () => events ++ (d.decode table chunk).events
    | .error _ => []
  | .finish | .decodeSection .. | .reset => []

/-- What has been reported of the section under way after some calls, if `events` had been before.
-/
def underway (d : Decoder) (events : List Event) : List Call → List Event
  | [] => events
  | call :: calls => (d.perform call).underway (d.reported events call) calls

/-- What holds of the size of a section, of the line that has begun and of what has been reported,
and goes on to hold. -/
structure Lasting (I : SectionSize → FieldLine.Reader → List Event → Prop) : Prop where
  /-- It holds before anything is read. -/
  start (limit : Nat) : I { limit } .idle []
  /-- It holds when a byte begins a line. -/
  begins {size : SectionSize} {events : List Event} (first : UInt8) (h : I size .idle events) :
    I size (.ofByte first) events
  /-- It holds after a call on a line that does not fail. -/
  read {ctx : Context} {r : FieldLine.Reader} {events : List Event} {input : Bytes}
    {item : Option Unit} (h : I ctx.size r events) (hok : (r.read ctx input).result = .ok item) :
    I (r.read ctx input).size (r.read ctx input).state (events ++ (r.read ctx input).events)

variable {I : SectionSize → FieldLine.Reader → List Event → Prop} {events : List Event}

/-! ### Within a call -/

namespace Visit

variable {ctx : Context} {line : FieldLine.Reader} {input : Bytes} {v : Visit}

theorem ctx_of_first? (h : first? ctx line input = some v) : v.ctx = ctx := by
  cases input with
  | nil => exact absurd h (by simp [first?])
  | cons first rest =>
    obtain rfl := Option.some.inj h
    rfl

/-- Octets are read on from in the line that has begun, or in one that they begin. -/
theorem line_of_first? (h : first? ctx line input = some v) :
    line ≠ .idle ∧ v.line = line ∨ line = .idle ∧ ∃ first, v.line = .ofByte first := by
  cases input with
  | nil => exact absurd h (by simp [first?])
  | cons first rest =>
    obtain rfl := Option.some.inj h
    by_cases hidle : line = .idle
    · exact .inr ⟨hidle, first, if_pos hidle⟩
    · exact .inl ⟨hidle, if_neg hidle⟩

end Visit

namespace Lasting

theorem following (hI : Lasting I) {v : Visit} {first : UInt8} (rest : Bytes)
    (h : I v.ctx.size v.line events) (hdone : v.reading.result = .ok (some ())) :
    I (v.following first rest).ctx.size (v.following first rest).line
      (events ++ v.reading.events) := by
  have hread := hI.read h hdone
  rw [FieldLine.Reader.state_of_done hdone] at hread
  exact hI.begins first hread

theorem reaches (hI : Lasting I) {v w : Visit} (hreaches : v.Reaches w)
    (h : I v.ctx.size v.line events) : ∃ events', I w.ctx.size w.line events' := by
  induction hreaches generalizing events with
  | here v => exact ⟨events, h⟩
  | next hdone _ _ ih => exact ih (hI.following _ h hdone)

theorem loop (hI : Lasting I) {v : Visit} (h : I v.ctx.size v.line events)
    (hok : v.loop.result = .ok ()) : I v.loop.size v.loop.line (events ++ v.loop.events) := by
  induction v using Visit.loop_induction generalizing events with
  | error v cause hresult =>
    rw [Visit.loop, readLinesAfter_of_error hresult] at hok
    exact absurd hok (by simp)
  | pending v hresult =>
    rw [Visit.loop, readLinesAfter_of_pending hresult]
    exact hI.read h hresult
  | last v hdone hrest =>
    have hread := hI.read h hdone
    rw [FieldLine.Reader.state_of_done hdone] at hread
    rw [Visit.loop_of_end hdone hrest]
    exact hread
  | next v first rest hdone hrest ih =>
    rw [Visit.loop_of_next hdone hrest] at hok ⊢
    have hlater := ih (hI.following rest h hdone) hok
    rwa [List.append_assoc] at hlater

theorem first? (hI : Lasting I) {ctx : Context} {line : FieldLine.Reader} {input : Bytes}
    {v : Visit} (hv : Visit.first? ctx line input = some v) (h : I ctx.size line events) :
    I v.ctx.size v.line events := by
  rw [Visit.ctx_of_first? hv]
  rcases Visit.line_of_first? hv with ⟨-, hline⟩ | ⟨rfl, first, hline⟩
  · rwa [hline]
  · rw [hline]
    exact hI.begins first h

private theorem resumeLines (hI : Lasting I) {ctx : Context} {line : FieldLine.Reader}
    {input : Bytes} (h : I ctx.size line events)
    (hok : (resumeLines ctx line input).result = .ok ()) :
    I (Decoder.resumeLines ctx line input).size (Decoder.resumeLines ctx line input).line
      (events ++ (Decoder.resumeLines ctx line input).events) := by
  rcases hfirst : Visit.first? ctx line input with _ | v
  · rw [Visit.first?_eq_none_iff.mp hfirst, resumeLines_nil, List.append_nil]
    exact h
  · rw [Visit.resumeLines_of_first? hfirst] at hok ⊢
    exact hI.loop (hI.first? hfirst h) hok

end Lasting

/-! ### Calls -/

variable {d : Decoder} {table : TableView} {chunk : Bytes}

theorem line_of_linesOf? {p : SectionPrefix} {line : FieldLine.Reader} {input : Bytes}
    (h : d.linesOf? table chunk = some (p, line, input)) : d.line = line := by
  rcases hphase : d.phase with reader | ⟨p', line'⟩
  · simp only [linesOf?, hphase] at h
    rcases ho : (reader.read table chunk).result with cause | _ | p'
    · simp [ho] at h
    · simp [ho] at h
    · by_cases hblocked : table.insertCount < p'.requiredInsertCount
      · simp [ho, hblocked] at h
      · obtain ⟨-, rfl, -⟩ : p' = p ∧ Reader.idle = line ∧ _ = input := by
          simpa [ho, hblocked] using h
        rw [Decoder.line, hphase]
  · obtain ⟨-, rfl, -⟩ : p' = p ∧ line' = line ∧ chunk = input := by
      simpa [linesOf?, hphase] using h
    rw [Decoder.line, hphase]

/-- A call that does not come to the lines of a section counts nothing and begins no line. -/
theorem size_and_line_of_linesOf?_eq_none (h : d.linesOf? table chunk = none) :
    (d.advance table chunk).decoder.size = d.size ∧
      (d.advance table chunk).decoder.line = d.line := by
  rcases hphase : d.phase with reader | ⟨p, line⟩
  · rw [linesOf?, hphase] at h
    simp only [advance, hphase, line]
    rcases ho : (reader.read table chunk).result with cause | _ | p
    · exact ⟨rfl, rfl⟩
    · exact ⟨rfl, rfl⟩
    · by_cases hblocked : table.insertCount < p.requiredInsertCount
      · simp [hblocked]
      · simp [ho, hblocked] at h
  · simp [linesOf?, hphase] at h

theorem pending_of_linesOf?_eq_none (h : d.linesOf? table chunk = none)
    (hok : (d.advance table chunk).result = .ok ()) :
    ∃ reader, d.phase = .opening reader ∧ (reader.read table chunk).result = .ok none ∧
      (d.advance table chunk).decoder.phase = .opening (reader.read table chunk).state := by
  rcases hphase : d.phase with reader | ⟨p, line⟩
  · rw [linesOf?, hphase] at h
    simp only [advance, hphase] at hok ⊢
    rcases ho : (reader.read table chunk).result with cause | _ | p
    · simp [ho] at hok
    · exact ⟨reader, rfl, ho, rfl⟩
    · by_cases hblocked : table.insertCount < p.requiredInsertCount
      · simp [ho, hblocked] at hok
      · simp [ho, hblocked] at h
  · simp [linesOf?, hphase] at h

theorem Visit.Reaches.limit {v w : Visit} (h : v.Reaches w) :
    w.ctx.size.limit = v.ctx.size.limit := by
  induction h with
  | here v => rfl
  | next _ _ _ ih => exact ih.trans (FieldLine.Reader.limit_size_read _ _ _)

theorem Visits.limit {w : Visit} (h : d.Visits table chunk w) :
    w.ctx.size.limit = d.size.limit := by
  obtain ⟨v, hfirst, hreaches⟩ := h
  obtain ⟨⟨p, line, input⟩, -, hfirst⟩ := Option.bind_eq_some_iff.mp hfirst
  rw [hreaches.limit, Visit.ctx_of_first? hfirst]

theorem decoder_decodeSection (d : Decoder) (table : TableView) (chunk : Bytes) :
    (d.decodeSection table chunk).decoder = start d.size.limit := by
  have hends : d.Ends (.decodeSection table chunk) := trivial
  exact perform_of_ends hends

namespace Lasting

theorem advance (hI : Lasting I) (events : List Event) (h : I d.size d.line events)
    (hok : (d.advance table chunk).result = .ok ()) :
    I (d.advance table chunk).decoder.size (d.advance table chunk).decoder.line
      (events ++ (d.advance table chunk).events) := by
  rcases hlines : d.linesOf? table chunk with _ | ⟨p, line, input⟩
  · obtain ⟨hsize, hline⟩ := size_and_line_of_linesOf?_eq_none hlines
    rw [hsize, hline, (advance_of_linesOf?_eq_none hlines).1, List.append_nil]
    exact h
  · obtain ⟨notes, hadvance⟩ := advance_of_linesOf? hlines
    rw [line_of_linesOf? hlines] at h
    rw [hadvance] at hok ⊢
    exact hI.resumeLines h hok

/-- **One call.** It holds after every call. -/
theorem perform (hI : Lasting I) (h : I d.size d.line events) (call : Call) :
    I (d.perform call).size (d.perform call).line (d.reported events call) := by
  cases call with
  | decode table chunk =>
    rw [Decoder.perform, reported, events_decode]
    rcases hresult : (d.advance table chunk).result with cause | _
    · rw [decoder_decode_of_failed (by rw [result_decode, hresult]; exact failed_error _)]
      simp only [result_decode, hresult]
      exact hI.start _
    · rw [decoder_decode_of_ok hresult]
      simp only [result_decode, hresult]
      exact hI.advance events h hresult
  | finish => exact hI.start _
  | decodeSection table chunk =>
    rw [Decoder.perform, decoder_decodeSection]
    exact hI.start _
  | reset => exact hI.start _

/-- **Any number of calls.** It holds after them. -/
theorem performAll (hI : Lasting I) (h : I d.size d.line events) (calls : List Call) :
    I (d.performAll calls).size (d.performAll calls).line (d.underway events calls) := by
  induction calls generalizing d events with
  | nil => exact h
  | cons call calls ih => exact ih (hI.perform h call)

theorem visits (hI : Lasting I) (events : List Event) {w : Visit}
    (hw : d.Visits table chunk w) (h : I d.size d.line events) :
    ∃ events', I w.ctx.size w.line events' := by
  obtain ⟨v, hfirst, hreaches⟩ := hw
  obtain ⟨⟨p, line, input⟩, hlines, hfirst⟩ := Option.bind_eq_some_iff.mp hfirst
  rw [line_of_linesOf? hlines] at h
  exact hI.reaches hreaches (hI.first? hfirst h)

end Lasting

end Decoder

end FieldCompression
