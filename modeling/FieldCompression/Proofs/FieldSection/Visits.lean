import FieldCompression.Proofs.Fragmentation.Sections

/-!
# The lines that a call visits

A call of a decoder reads in one line after the other. A *visit* is one of these: a line that has
begun or is about to begin, and the octets that the call has left for it. `Reaches` are the visits
from a given one on, and `Decoder.Visits` those of a whole call.

What a call does is what its visits do. Its events are theirs, and once it has come to the lines it
fails if one of them fails, for the same cause, and not otherwise.
-/

namespace FieldCompression.Decoder

open FieldLine

/-- A line, and the octets from which it is read on. -/
structure Visit where
  /-- What the meaning of the line depends on. -/
  ctx : Context
  /-- How far the reading of the line has come. -/
  line : FieldLine.Reader
  /-- The octets. -/
  input : Bytes

namespace Visit

/-- What reading on in the line does. -/
def reading (v : Visit) : Reading := v.line.read v.ctx v.input

/-- What reading on in the line and in those after it does. -/
def loop (v : Visit) : LinesReading := readLinesAfter v.ctx v.reading

/-- The visit that begins with a byte after the line. -/
def following (v : Visit) (first : UInt8) (rest : Bytes) : Visit where
  ctx := { v.ctx with size := v.reading.size }
  line := .ofByte first
  input := first :: rest

/-- The visits from a given one on. The next line is visited when the one before it is complete and
octets are left. -/
inductive Reaches : Visit → Visit → Prop
  /-- The given visit. -/
  | here (v : Visit) : Reaches v v
  /-- A later visit. -/
  | next {v w : Visit} {first : UInt8} {rest : Bytes} (hdone : v.reading.result = .ok (some ()))
    (hrest : v.reading.rest = first :: rest) (h : Reaches (v.following first rest) w) : Reaches v w

variable {v w : Visit}

theorem Reaches.ctx (h : Reaches v w) :
    w.ctx.sectionPrefix = v.ctx.sectionPrefix ∧ w.ctx.table = v.ctx.table := by
  induction h with
  | here v => exact ⟨rfl, rfl⟩
  | next _ _ _ ih => exact ih

/-! ## The loop -/

theorem loop_of_end (hdone : v.reading.result = .ok (some ())) (hrest : v.reading.rest = []) :
    v.loop =
      { result := .ok (), line := .idle, rest := [], size := v.reading.size
        events := v.reading.events, notes := v.reading.notes } := by
  rw [loop, readLinesAfter_of_done hdone, hrest, readLines_nil]
  simp [LinesReading.after]

theorem loop_of_next {first : UInt8} {rest : Bytes} (hdone : v.reading.result = .ok (some ()))
    (hrest : v.reading.rest = first :: rest) :
    v.loop = (v.following first rest).loop.after v.reading := by
  rw [loop, readLinesAfter_of_done hdone, hrest, readLines_cons]
  rfl

/-- A property of the visits from one on, shown from the last to the first. -/
theorem loop_induction {motive : Visit → Prop}
    (error : ∀ v cause, v.reading.result = .error cause → motive v)
    (pending : ∀ v, v.reading.result = .ok none → motive v)
    (last : ∀ v, v.reading.result = .ok (some ()) → v.reading.rest = [] → motive v)
    (next : ∀ v first rest, v.reading.result = .ok (some ()) → v.reading.rest = first :: rest →
      motive (v.following first rest) → motive v)
    (v : Visit) : motive v := by
  induction hlen : v.reading.rest.length using Nat.strongRecOn generalizing v with
  | ind n ih =>
    rcases hresult : v.reading.result with cause | _ | _
    · exact error v cause hresult
    · exact pending v hresult
    · rcases hrest : v.reading.rest with _ | ⟨first, rest⟩
      · exact last v hresult hrest
      · -- the next line leaves less than the present one
        refine next v first rest hresult hrest (ih _ ?_ _ rfl)
        rw [← hlen, hrest]
        exact FieldLine.Reader.length_rest_read_ofByte _ first first rest

private theorem exists_visit_of_mem_events {e : Event} (h : e ∈ v.loop.events) :
    ∃ w, Reaches v w ∧ e ∈ w.reading.events := by
  induction v using loop_induction with
  | error v cause hresult =>
    rw [loop, readLinesAfter_of_error hresult] at h
    exact ⟨v, .here v, h⟩
  | pending v hresult =>
    rw [loop, readLinesAfter_of_pending hresult] at h
    exact ⟨v, .here v, h⟩
  | last v hdone hrest =>
    rw [loop_of_end hdone hrest] at h
    exact ⟨v, .here v, h⟩
  | next v first rest hdone hrest ih =>
    rw [loop_of_next hdone hrest] at h
    rcases List.mem_append.mp h with h | h
    · exact ⟨v, .here v, h⟩
    · obtain ⟨w, hreaches, hw⟩ := ih h
      exact ⟨w, .next hdone hrest hreaches, hw⟩

theorem Reaches.result_loop (h : Reaches v w) {cause : Error}
    (hfailed : w.reading.result = .error cause) : v.loop.result = .error cause := by
  induction h with
  | here v => rw [loop, readLinesAfter_of_error hfailed]
  | next hdone hrest _ ih =>
    rw [loop_of_next hdone hrest]
    exact ih hfailed

theorem exists_visit_of_loop_eq_error {cause : Error} (h : v.loop.result = .error cause) :
    ∃ w, Reaches v w ∧ w.reading.result = .error cause := by
  induction v using loop_induction with
  | error v cause' hresult =>
    rw [loop, readLinesAfter_of_error hresult] at h
    obtain rfl := Except.error.inj h
    exact ⟨v, .here v, hresult⟩
  | pending v hresult =>
    rw [loop, readLinesAfter_of_pending hresult] at h
    exact absurd h (by simp)
  | last v hdone hrest =>
    rw [loop_of_end hdone hrest] at h
    exact absurd h (by simp)
  | next v first rest hdone hrest ih =>
    rw [loop_of_next hdone hrest] at h
    obtain ⟨w, hreaches, hw⟩ := ih h
    exact ⟨w, .next hdone hrest hreaches, hw⟩

theorem denotes_of_mem_events {e : Event} (h : e ∈ v.reading.events)
    (hcallback : e.field?.isSome) :
    ∃ line rest, v.line.complete? v.ctx.size.remaining v.input = some (line, rest) ∧
      Denotes v.ctx.sectionPrefix v.ctx.table line e := by
  cases FieldLine.Reader.call_read v.ctx v.line v.input with
  | unfinished _ hx =>
    have hmem : e ∈ callbacks v.reading.events := List.mem_filter.mpr ⟨h, hcallback⟩
    rw [reading, hx.callbacks] at hmem
    exact absurd hmem (by simp)
  | reported line rest e' field hcomplete hdenotes _ _ hx =>
    obtain ⟨notes, hx⟩ := hx
    rw [reading, hx, List.mem_singleton] at h
    subst h
    exact ⟨line, rest, hcomplete, hdenotes⟩
  | tooLarge line rest e' field _ _ _ _ hx =>
    obtain ⟨r', notes, hx⟩ := hx
    rw [reading, hx, List.mem_singleton] at h
    subst h
    exact absurd hcallback (by simp [Event.field?])
  | missing line rest addressing index _ _ _ hx =>
    obtain ⟨r', notes, hx⟩ := hx
    rw [reading, hx] at h
    exact absurd h (by simp)

/-- The visit in which octets are read on from, if there are any. -/
def first? (ctx : Context) (line : FieldLine.Reader) : Bytes → Option Visit
  | [] => none
  | first :: rest =>
    some { ctx, line := if line = .idle then .ofByte first else line, input := first :: rest }

theorem resumeLines_of_first? {ctx : Context} {line : FieldLine.Reader} {input : Bytes}
    (h : first? ctx line input = some v) : resumeLines ctx line input = v.loop := by
  cases input with
  | nil => exact absurd h (by simp [first?])
  | cons first rest =>
    obtain rfl := Option.some.inj h
    by_cases hidle : line = .idle
    · subst hidle
      rw [resumeLines_idle, readLines_cons]
      rfl
    · rw [resumeLines_of_ne_idle hidle (by simp), loop, reading, if_neg hidle]

theorem first?_eq_none_iff {ctx : Context} {line : FieldLine.Reader} {input : Bytes} :
    first? ctx line input = none ↔ input = [] := by
  cases input <;> simp [first?]

end Visit

/-! ## Calls -/

/-- The lines that a call goes on to: the prefix of the section, the line that has begun, and the
octets. There are none if the prefix is incomplete or not accepted. -/
def linesOf? (d : Decoder) (table : TableView) (chunk : Bytes) :
    Option (SectionPrefix × FieldLine.Reader × Bytes) :=
  match d.phase with
  | .lines p line => some (p, line, chunk)
  | .opening reader =>
    let o := reader.read table chunk
    match o.result with
    | .ok (some p) =>
      if table.insertCount < p.requiredInsertCount then none else some (p, .idle, o.rest)
    | _ => none

/-- The first visit of a call. -/
def firstVisit? (d : Decoder) (table : TableView) (chunk : Bytes) : Option Visit :=
  (d.linesOf? table chunk).bind fun (p, line, input) ↦
    Visit.first? { sectionPrefix := p, table, size := d.size } line input

/-- The visits of a call. -/
def Visits (d : Decoder) (table : TableView) (chunk : Bytes) (w : Visit) : Prop :=
  ∃ v, d.firstVisit? table chunk = some v ∧ v.Reaches w

variable {d : Decoder} {table : TableView} {chunk : Bytes} {p : SectionPrefix}

theorem advance_of_linesOf? {line : FieldLine.Reader} {input : Bytes}
    (h : d.linesOf? table chunk = some (p, line, input)) :
    ∃ notes, d.advance table chunk = { d.decodeLines table p line input with notes := notes } := by
  rcases hphase : d.phase with reader | ⟨p', line'⟩
  · rw [linesOf?, hphase] at h
    rcases ho : (reader.read table chunk).result with cause | _ | p'
    · simp [ho] at h
    · simp [ho] at h
    · simp only [ho] at h
      by_cases hblocked : table.insertCount < p'.requiredInsertCount
      · simp [hblocked] at h
      · obtain ⟨rfl, rfl, rfl⟩ : p' = p ∧ Reader.idle = line ∧ _ = input := by
          simpa [hblocked] using h
        simp only [advance, hphase, ho, hblocked, if_false]
        exact ⟨_, rfl⟩
  · obtain ⟨rfl, rfl, rfl⟩ : p' = p ∧ line' = line ∧ chunk = input := by
      simpa [linesOf?, hphase] using h
    rw [advance, hphase]
    exact ⟨_, rfl⟩

/-- A call that does not come to the lines of a section reports nothing and accepts no prefix. -/
theorem advance_of_linesOf?_eq_none (h : d.linesOf? table chunk = none) :
    (d.advance table chunk).events = [] ∧
      (d.advance table chunk).decoder.sectionPrefix? = none := by
  rcases hphase : d.phase with reader | ⟨p, line⟩
  · rw [linesOf?, hphase] at h
    simp only [advance, hphase]
    rcases ho : (reader.read table chunk).result with cause | _ | p
    · exact ⟨rfl, rfl⟩
    · exact ⟨rfl, rfl⟩
    · by_cases hblocked : table.insertCount < p.requiredInsertCount
      · simp [hblocked, sectionPrefix?]
      · simp [ho, hblocked] at h
  · simp [linesOf?, hphase] at h

theorem cause_of_linesOf?_eq_none {cause : Error} (h : d.linesOf? table chunk = none)
    (hcause : (d.advance table chunk).result = .error cause) :
    ∃ reader, d.phase = .opening reader ∧
      ((reader.read table chunk).result = .error cause ∨
        ∃ p, (reader.read table chunk).result = .ok (some p) ∧
          table.insertCount < p.requiredInsertCount ∧ cause = .dynamicTableWouldBlock) := by
  rcases hphase : d.phase with reader | ⟨p, line⟩
  · refine ⟨reader, rfl, ?_⟩
    rw [linesOf?, hphase] at h
    simp only [advance, hphase] at hcause
    rcases ho : (reader.read table chunk).result with cause' | _ | p
    · exact .inl (by simpa [ho] using hcause)
    · exact absurd hcause (by simp [ho])
    · by_cases hblocked : table.insertCount < p.requiredInsertCount
      · exact .inr ⟨p, rfl, hblocked, by simpa [ho, hblocked, eq_comm] using hcause⟩
      · simp [ho, hblocked] at h
  · simp [linesOf?, hphase] at h

/-- A prefix is accepted when as much as it requires has been inserted, and then it stays. -/
theorem accepted_of_sectionPrefix?_advance
    (h : (d.advance table chunk).decoder.sectionPrefix? = some p) :
    d.sectionPrefix? = some p ∨
      d.sectionPrefix? = none ∧ p.requiredInsertCount ≤ table.insertCount := by
  rcases hphase : d.phase with reader | ⟨p', line⟩
  · simp only [advance, hphase] at h
    rcases ho : (reader.read table chunk).result with cause | _ | p'
    · simp [ho, sectionPrefix?] at h
    · simp [ho, sectionPrefix?] at h
    · by_cases hblocked : table.insertCount < p'.requiredInsertCount
      · simp [ho, hblocked, sectionPrefix?] at h
      · obtain rfl : p' = p := by simpa [ho, hblocked, sectionPrefix?, decodeLines] using h
        exact .inr ⟨by simp [sectionPrefix?, hphase], Nat.not_lt.mp hblocked⟩
  · left
    simpa [advance, sectionPrefix?, hphase, decodeLines] using h

theorem sectionPrefix?_advance (h : d.sectionPrefix? = some p) (table : TableView)
    (chunk : Bytes) : (d.advance table chunk).decoder.sectionPrefix? = some p := by
  rcases hphase : d.phase with reader | ⟨p', line⟩
  · simp [sectionPrefix?, hphase] at h
  · simpa [advance, sectionPrefix?, hphase, decodeLines] using h

theorem sectionPrefix?_decode_of_error {cause : Error}
    (h : (d.decode table chunk).result = .error cause) :
    (d.decode table chunk).decoder.sectionPrefix? = none := by
  rw [result_decode] at h
  simp only [decode, h]
  rfl

theorem Visits.ctx {w : Visit} (h : d.Visits table chunk w) :
    (d.advance table chunk).decoder.sectionPrefix? = some w.ctx.sectionPrefix ∧
      w.ctx.table = table := by
  obtain ⟨v, hfirst, hreaches⟩ := h
  obtain ⟨⟨p, line, input⟩, hlines, hfirst⟩ := Option.bind_eq_some_iff.mp hfirst
  obtain ⟨notes, hadvance⟩ := advance_of_linesOf? hlines
  obtain ⟨hopened, htable⟩ := hreaches.ctx
  rw [hadvance, hopened, htable]
  cases input with
  | nil => exact absurd hfirst (by simp [Visit.first?])
  | cons first rest =>
    obtain rfl := Option.some.inj hfirst
    exact ⟨rfl, rfl⟩

theorem advance_of_firstVisit? {v : Visit} (h : d.firstVisit? table chunk = some v) :
    (d.advance table chunk).result = v.loop.result ∧
      (d.advance table chunk).events = v.loop.events := by
  obtain ⟨⟨p, line, input⟩, hlines, hfirst⟩ := Option.bind_eq_some_iff.mp h
  obtain ⟨notes, hadvance⟩ := advance_of_linesOf? hlines
  rw [hadvance, ← Visit.resumeLines_of_first? hfirst]
  exact ⟨rfl, rfl⟩

theorem exists_firstVisit_of_error {line : FieldLine.Reader} {input : Bytes} {cause : Error}
    (hlines : d.linesOf? table chunk = some (p, line, input))
    (h : (d.advance table chunk).result = .error cause) :
    ∃ v, d.firstVisit? table chunk = some v := by
  rcases hvisit : d.firstVisit? table chunk with _ | v
  · rw [firstVisit?, hlines, Option.bind_some, Visit.first?_eq_none_iff] at hvisit
    obtain ⟨notes, hadvance⟩ := advance_of_linesOf? hlines
    rw [hadvance, hvisit] at h
    exact absurd h (by simp [decodeLines, resumeLines_nil])
  · exact ⟨v, rfl⟩

/-- **Events.** Every event of a call is one of a visit. -/
theorem exists_visit_of_mem_events {e : Event} (h : e ∈ (d.decode table chunk).events) :
    ∃ w, d.Visits table chunk w ∧ e ∈ w.reading.events := by
  rw [events_decode] at h
  rcases hlines : d.linesOf? table chunk with _ | ⟨p, line, input⟩
  · rw [(advance_of_linesOf?_eq_none hlines).1] at h
    exact absurd h (by simp)
  rcases hvisit : d.firstVisit? table chunk with _ | v
  · rw [firstVisit?, hlines, Option.bind_some, Visit.first?_eq_none_iff] at hvisit
    obtain ⟨notes, hadvance⟩ := advance_of_linesOf? hlines
    rw [hadvance, hvisit] at h
    simp [decodeLines, resumeLines_nil] at h
  · rw [(advance_of_firstVisit? hvisit).2] at h
    obtain ⟨w, hreaches, hw⟩ := Visit.exists_visit_of_mem_events h
    exact ⟨w, ⟨v, hvisit, hreaches⟩, hw⟩

/-- **Failures.** A call that comes to read in a line fails just for a cause for which one of its
visits fails. -/
theorem result_decode_eq_error_iff {v : Visit} (h : d.firstVisit? table chunk = some v)
    {cause : Error} :
    (d.decode table chunk).result = .error cause ↔
      ∃ w, d.Visits table chunk w ∧ w.reading.result = .error cause := by
  rw [result_decode, (advance_of_firstVisit? h).1]
  constructor
  · intro hfailed
    obtain ⟨w, hreaches, hw⟩ := Visit.exists_visit_of_loop_eq_error hfailed
    exact ⟨w, ⟨v, h, hreaches⟩, hw⟩
  · rintro ⟨w, ⟨v', hv', hreaches⟩, hw⟩
    obtain rfl : v' = v := Option.some.inj (hv'.symm.trans h)
    exact hreaches.result_loop hw

end FieldCompression.Decoder
