import FieldCompression.Proofs.DynamicTable.History
import FieldCompression.Proofs.FieldSection.Visits

/-!
# References to the dynamic table

A reference names an entry by its place in the history of the table, and it is looked up among the
entries that are left. These are the same as long as the entry is there, and when it is gone the
line fails. No line is ever given another entry in its place.
-/

namespace FieldCompression

open FieldLine

/-! ## One chunk

`Dangling` says when a reference leads nowhere: it leaves the range of indices, it goes beyond what
the section declared, or its entry has been evicted. A line fails for its reference just when it is
complete and its reference is dangling. -/

/-! ### What an event refers to -/

/-- The entry that an event refers to. -/
def FieldLine.Event.target? : Event → Option TableIndex
  | indexed index _ | nameReference index .. => some index
  | literalName .. | rejected _ => none

/-- What an event repeats of the entry that it refers to: the field, or only the name. -/
def FieldLine.Event.Repeats (entry : Field) : Event → Prop
  | indexed _ field => field = entry
  | nameReference _ field .. => field.name = entry.name
  | literalName .. | rejected _ => False

/-- An event that refers to an entry repeats what the entry named by its line holds. -/
theorem FieldLine.Denotes.exists_entry {p : SectionPrefix} {table : TableView} {line : FieldLine}
    {e : Event} (h : Denotes p table line e) {addressing : Addressing} {index : Nat}
    (hreference : line.reference? = some (addressing, index)) :
    ∃ i entry, e.target? = some i ∧ Names p.base addressing index i ∧
      Holds table p.requiredInsertCount i entry ∧ e.Repeats entry := by
  cases h with
  | indexed hnames hholds =>
    obtain ⟨rfl, rfl⟩ : _ = addressing ∧ _ = index := by simpa [reference?] using hreference
    exact ⟨_, _, rfl, hnames, hholds, rfl⟩
  | nameReference neverIndexed value hnames hholds =>
    obtain ⟨rfl, rfl⟩ : _ = addressing ∧ _ = index := by simpa [reference?] using hreference
    exact ⟨_, _, rfl, hnames, hholds, rfl⟩
  | literalName neverIndexed name value => exact absurd hreference (by simp [reference?])

theorem FieldLine.exists_denotes {p : SectionPrefix} {table : TableView} {line : FieldLine}
    {addressing : Addressing} {index : Nat} {i : TableIndex} {entry : Field}
    (hreference : line.reference? = some (addressing, index))
    (hnames : Names p.base addressing index i)
    (hholds : Holds table p.requiredInsertCount i entry) : ∃ e, Denotes p table line e := by
  cases line with
  | indexed =>
    obtain ⟨rfl, rfl⟩ : _ = addressing ∧ _ = index := by simpa [reference?] using hreference
    exact ⟨_, .indexed hnames hholds⟩
  | nameReference =>
    obtain ⟨rfl, rfl⟩ : _ = addressing ∧ _ = index := by simpa [reference?] using hreference
    exact ⟨_, .nameReference _ _ hnames hholds⟩
  | literalName => exact absurd hreference (by simp [reference?])

private theorem FieldLine.Denotes.exists_reference {p : SectionPrefix} {table : TableView}
    {line : FieldLine} {e : Event} (h : Denotes p table line e) {i : TableIndex}
    (hentry : e.target? = some i) :
    ∃ addressing index, line.reference? = some (addressing, index) := by
  cases h with
  | indexed => exact ⟨_, _, rfl⟩
  | nameReference => exact ⟨_, _, rfl⟩
  | literalName => exact absurd hentry (by simp [Event.target?])

private theorem FieldLine.Event.isSome_field?_of_target? {e : Event} {i : TableIndex}
    (h : e.target? = some i) : e.field?.isSome := by
  cases e with
  | indexed | nameReference => rfl
  | literalName | rejected => exact absurd h (by simp [target?])

/-! ### Dangling references -/

/-- A reference of a section that leads to no entry of the table. -/
inductive Dangling (p : SectionPrefix) (table : DynamicTable) : Addressing → Nat → Prop
  /-- It counts back beyond the first insertion. -/
  | underflow {index : Nat} (h : p.base ≤ index) : Dangling p table .relative index
  /-- It counts forward beyond the numbers of 64 bits. -/
  | overflow {index : Nat} (h : wordBound ≤ p.base + index) : Dangling p table .postBase index
  /-- It goes to an insertion that the section did not declare. -/
  | undeclared {addressing : Addressing} {index absolute : Nat}
    (hnames : Names p.base addressing index (.dynamic absolute))
    (h : p.requiredInsertCount ≤ absolute) : Dangling p table addressing index
  /-- It goes to an entry that has been evicted. -/
  | evicted {addressing : Addressing} {index absolute : Nat}
    (hnames : Names p.base addressing index (.dynamic absolute))
    (h : absolute < table.evicted) : Dangling p table addressing index

theorem FieldLine.Names.unique {base : Nat} {addressing : Addressing} {index : Nat}
    {i j : TableIndex} (hi : Names base addressing index i) (hj : Names base addressing index j) :
    i = j := by
  cases hi with
  | static => cases hj; rfl
  | relative hi =>
    cases hj with
    | relative hj => exact congrArg _ (by omega)
  | postBase => cases hj; rfl

section Dangling

variable {p : SectionPrefix} {table : DynamicTable} {history : List Field} {line : FieldLine}
  {addressing : Addressing} {index : Nat}

private theorem Dangling.ne_static (h : Dangling p table addressing index) :
    addressing ≠ .static := by
  rintro rfl
  cases h with
  | undeclared hnames => cases hnames
  | evicted hnames => cases hnames

theorem Dangling.not_denotes (h : Dangling p table addressing index)
    (hrequired : p.requiredInsertCount < wordBound)
    (hreference : line.reference? = some (addressing, index)) (e : Event) :
    ¬Denotes p table.view line e := by
  intro hdenotes
  obtain ⟨i, entry, -, hnames, hholds, -⟩ := hdenotes.exists_entry hreference
  cases h with
  | underflow h =>
    cases hnames with
    | relative hbase => omega
  | overflow h =>
    cases hnames with
    | postBase =>
      cases hholds with
      | dynamic hcount => omega
  | undeclared hnames' h =>
    obtain rfl := hnames.unique hnames'
    cases hholds with
    | dynamic hcount => omega
  | evicted hnames' h =>
    obtain rfl := hnames.unique hnames'
    cases hholds with
    | dynamic hcount hget =>
      change table.get? _ = some entry at hget
      rw [DynamicTable.get?, if_neg (Nat.not_le.mpr h)] at hget
      exact absurd hget (by simp)

/-- A line that denotes nothing has a dangling reference, when as much has been inserted as its
section requires. -/
theorem dangling_of_not_denotes (htracks : DynamicTable.Tracks history table)
    (hrequired : p.requiredInsertCount ≤ table.insertCount)
    (hreference : line.reference? = some (addressing, index)) (hstatic : addressing ≠ .static)
    (h : ∀ e, ¬Denotes p table.view line e) : Dangling p table addressing index := by
  -- an index with a place in the history is beyond what is declared, or evicted, or found
  have hplace (absolute : Nat) (hnames : Names p.base addressing index (.dynamic absolute)) :
      Dangling p table addressing index := by
    by_cases hdeclared : p.requiredInsertCount ≤ absolute
    · exact .undeclared hnames hdeclared
    by_cases hevicted : absolute < table.evicted
    · exact .evicted hnames hevicted
    · have hcount : absolute < table.insertCount := by omega
      obtain ⟨entry, hget⟩ := htracks.exists_get? (Nat.not_lt.mp hevicted) hcount
      have hholds : Holds table.view p.requiredInsertCount (.dynamic absolute) entry :=
        .dynamic (Nat.not_le.mp hdeclared) hget
      obtain ⟨e, hdenotes⟩ := exists_denotes hreference hnames hholds
      exact absurd hdenotes (h e)
  cases addressing with
  | static => exact absurd rfl hstatic
  | relative =>
    by_cases hbase : p.base ≤ index
    · exact .underflow hbase
    · exact hplace (p.base - (index + 1)) (.relative (by omega))
  | postBase => exact hplace _ (.postBase index)

end Dangling

namespace Decoder.Visit

variable {v : Visit} {table : DynamicTable} {line : FieldLine} {rest : Bytes}

/-- The visit completes a line whose reference is dangling. -/
def Dangles (v : Visit) (table : DynamicTable) : Prop :=
  ∃ line rest addressing index,
    v.line.complete? v.ctx.size.remaining v.input = some (line, rest) ∧
    line.reference? = some (addressing, index) ∧
    Dangling v.ctx.sectionPrefix table addressing index

/-- The line with the dangling reference is the one that the visit completes. -/
theorem Dangles.of_complete (h : v.Dangles table)
    (hcomplete : v.line.complete? v.ctx.size.remaining v.input = some (line, rest)) :
    ∃ addressing index, line.reference? = some (addressing, index) ∧
      Dangling v.ctx.sectionPrefix table addressing index := by
  obtain ⟨line', rest', addressing, index, hcomplete', hreference, hdangling⟩ := h
  obtain ⟨rfl, rfl⟩ : line = line' ∧ rest = rest' := by simpa [hcomplete] using hcomplete'
  exact ⟨addressing, index, hreference, hdangling⟩

private theorem not_dangles_of_denotes {e : Event}
    (hcomplete : v.line.complete? v.ctx.size.remaining v.input = some (line, rest))
    (hrequired : v.ctx.sectionPrefix.requiredInsertCount < wordBound)
    (hdenotes : Denotes v.ctx.sectionPrefix table.view line e) : ¬v.Dangles table := by
  intro h
  obtain ⟨addressing, index, hreference, hdangling⟩ := h.of_complete hcomplete
  exact hdangling.not_denotes hrequired hreference e hdenotes

/-- **Dangling references.** A visit fails for a reference to the dynamic table just when it
completes a line whose reference is dangling. -/
theorem reading_eq_error_iff {history : List Field} (htracks : DynamicTable.Tracks history table)
    (htable : v.ctx.table = table.view)
    (hrequired : v.ctx.sectionPrefix.requiredInsertCount ≤ table.insertCount)
    (hcount : table.insertCount < 1 <<< 63) :
    v.reading.result = .error .invalidDynamicTableIndex ↔ v.Dangles table := by
  have hword : (1 <<< 63) < wordBound := by decide
  rw [reading]
  cases FieldLine.Reader.call_read v.ctx v.line v.input with
  | unfinished hcomplete hx =>
    constructor
    · intro hfailed
      exact absurd (hx.cause _ hfailed) (by decide)
    · rintro ⟨line, rest, addressing, index, hcomplete', -⟩
      exact absurd (hcomplete.symm.trans hcomplete') (by simp)
  | reported line rest e field hcomplete hdenotes _ _ hx =>
    obtain ⟨notes, hx⟩ := hx
    have hnot := not_dangles_of_denotes hcomplete (by omega) (htable ▸ hdenotes)
    exact ⟨fun hfailed ↦ absurd hfailed (by simp [hx]), fun h ↦ absurd h hnot⟩
  | tooLarge line rest e field hcomplete hdenotes _ _ hx =>
    obtain ⟨r', notes, hx⟩ := hx
    have hnot := not_dangles_of_denotes hcomplete (by omega) (htable ▸ hdenotes)
    exact ⟨fun hfailed ↦ absurd hfailed (by simp [hx]), fun h ↦ absurd h hnot⟩
  | missing line rest addressing index hcomplete hdenotes hreference hx =>
    obtain ⟨r', notes, hx⟩ := hx
    rw [htable] at hdenotes
    rw [hx]
    -- the cause tells a reference to the static table from one to the dynamic table
    have hcause :
        Context.missing addressing = .invalidDynamicTableIndex ↔ addressing ≠ .static := by
      cases addressing <;> simp [Context.missing]
    constructor
    · intro hfailed
      have hstatic := hcause.mp (Except.error.inj hfailed)
      exact ⟨line, rest, addressing, index, hcomplete, hreference,
        dangling_of_not_denotes htracks hrequired hreference hstatic hdenotes⟩
    · intro h
      obtain ⟨addressing', index', hreference', hdangling⟩ := h.of_complete hcomplete
      obtain ⟨rfl, rfl⟩ : addressing = addressing' ∧ index = index' := by
        simpa [hreference] using hreference'
      exact congrArg _ (hcause.mpr hdangling.ne_static)

end Decoder.Visit

/-! ## Sections decoded while the table changes

Between any two chunks of a section there may be insertions, and insertions evict. `Connection`
makes the calls that change a table and the calls that decode sections against it, in any order.
Beside the table and the decoder it keeps what the calls forget: the history of the table, the
prefix that was accepted for the present section and the number of insertions at that time, and
what was reported under it. Nothing that a call does depends on these.

`Sound` holds at the beginning and is kept by every action. It says that each report still repeats
the field at its place in the history, whatever has been evicted since, because the history only
grows at its end. -/

/-- A prefix that was accepted, and the number of insertions at that time. -/
structure Acceptance where
  /-- The prefix. -/
  sectionPrefix : SectionPrefix
  /-- The number of insertions. -/
  insertCount : Nat

/-- An event, and what was accepted for its section. -/
structure Report where
  /-- The event. -/
  event : Event
  /-- The prefix of its section, if there is one. -/
  accepted : Option Acceptance

/-- A table and a decoder, and what has come to pass between them. -/
structure Connection where
  /-- The table. -/
  table : DynamicTable
  /-- The decoder. -/
  decoder : Decoder
  /-- All the fields ever inserted, oldest first. -/
  history : List Field := []
  /-- The prefix of the present section, once it has been accepted. -/
  accepted : Option Acceptance := none
  /-- What was reported. -/
  reports : List Report := []

/-- A new connection under these settings. -/
def Settings.connection (s : Settings) : Connection := { table := s.table, decoder := s.decoder }

namespace Connection

/-- A call on a connection. -/
inductive Action where
  /-- Changes the table. -/
  | change (op : DynamicTable.Operation)
  /-- Decodes a chunk of the present section. -/
  | decode (chunk : Bytes)
  /-- Declares the present section complete. -/
  | finish

/-- What has been accepted for the section to which a chunk belongs, when the call on the chunk
comes to its end. -/
def acceptedAt (c : Connection) (chunk : Bytes) : Option Acceptance :=
  match c.accepted with
  | some a => some a
  | none =>
    (c.decoder.advance c.table.view chunk).decoder.sectionPrefix?.map fun p ↦
      { sectionPrefix := p, insertCount := c.table.insertCount }

/-- Makes a call. A failing chunk gives the present section up. -/
def step (c : Connection) : Action → Connection
  | .change op =>
    { c with table := (c.table.perform op).table, history := c.history ++ c.table.inserted op }
  | .decode chunk =>
    let s := c.decoder.decode c.table.view chunk
    { c with
      decoder := s.decoder
      accepted :=
        match s.result with
        | .ok () => c.acceptedAt chunk
        | .error _ => none
      reports := c.reports ++ s.events.map fun e ↦ { event := e, accepted := c.acceptedAt chunk } }
  | .finish => { c with decoder := c.decoder.finish.decoder, accepted := none }

/-- Makes calls one after the other. -/
def run (c : Connection) (actions : List Action) : Connection := actions.foldl step c

end Connection

/-! ### The invariant -/

/-- What was accepted did not require more than had been inserted. -/
structure Acceptance.Sound (history : List Field) (a : Acceptance) : Prop where
  /-- The section requires no more than there was. -/
  required : a.sectionPrefix.requiredInsertCount ≤ a.insertCount
  /-- There was no more than there is. -/
  inserted : a.insertCount ≤ history.length

/-- A report of an entry of the dynamic table repeats the field at its place in the history, which
its section was allowed to rely on. -/
def Report.Sound (history : List Field) (r : Report) : Prop :=
  ∀ absolute, r.event.target? = some (.dynamic absolute) →
    ∃ a entry, r.accepted = some a ∧ absolute < a.sectionPrefix.requiredInsertCount ∧
      a.sectionPrefix.requiredInsertCount ≤ a.insertCount ∧
      history[absolute]? = some entry ∧ r.event.Repeats entry

theorem Acceptance.Sound.append {history : List Field} {a : Acceptance} (h : a.Sound history)
    (more : List Field) : a.Sound (history ++ more) :=
  ⟨h.required, Nat.le_trans h.inserted (by simp)⟩

theorem Report.Sound.append {history : List Field} {r : Report} (h : r.Sound history)
    (more : List Field) : r.Sound (history ++ more) := by
  intro absolute hentry
  obtain ⟨a, entry, haccepted, hlt, hle, hget, hrepeats⟩ := h absolute hentry
  refine ⟨a, entry, haccepted, hlt, hle, ?_, hrepeats⟩
  obtain ⟨hlength, -⟩ := List.getElem?_eq_some_iff.mp hget
  rw [List.getElem?_append_left hlength, hget]

namespace Connection

/-- What holds of a connection after any calls. -/
structure Sound (c : Connection) : Prop where
  /-- The history is that of the table. -/
  tracks : DynamicTable.Tracks c.history c.table
  /-- The decoder reads the section that was accepted. -/
  sectionPrefix : c.decoder.sectionPrefix? = c.accepted.map Acceptance.sectionPrefix
  /-- It was accepted rightly. -/
  accepted : ∀ a, c.accepted = some a → a.Sound c.history
  /-- So was everything reported. -/
  reports : ∀ r ∈ c.reports, r.Sound c.history

private theorem sound_connection (s : Settings) : s.connection.Sound where
  tracks := DynamicTable.tracks_empty s.maxTableCapacity
  sectionPrefix := rfl
  accepted := by simp [Settings.connection]
  reports := by simp [Settings.connection]

namespace Sound

variable {c : Connection}

theorem change (h : c.Sound) (op : DynamicTable.Operation) : (c.step (.change op)).Sound where
  tracks := h.tracks.perform op
  sectionPrefix := h.sectionPrefix
  accepted a ha := (h.accepted a ha).append _
  reports r hr := (h.reports r hr).append _

/-- Once a call has come to its lines, what it reads them under has been accepted. -/
theorem acceptedAt (h : c.Sound) (chunk : Bytes) :
    (c.decoder.advance c.table.view chunk).decoder.sectionPrefix? =
        (c.acceptedAt chunk).map Acceptance.sectionPrefix ∧
      ∀ a, c.acceptedAt chunk = some a → a.Sound c.history := by
  rcases haccepted : c.accepted with _ | a
  · -- what is accepted is accepted by this very call
    have hnone : c.decoder.sectionPrefix? = none := by
      rw [h.sectionPrefix, haccepted, Option.map_none]
    rcases hopened : (c.decoder.advance c.table.view chunk).decoder.sectionPrefix? with _ | p
    · simp [Connection.acceptedAt, haccepted, hopened]
    · refine ⟨by simp [Connection.acceptedAt, haccepted, hopened], ?_⟩
      intro a ha
      obtain rfl : _ = a := by simpa [Connection.acceptedAt, haccepted, hopened] using ha
      rcases Decoder.accepted_of_sectionPrefix?_advance hopened with hsome | ⟨-, hle⟩
      · exact absurd (hnone.symm.trans hsome) (by simp)
      · exact ⟨hle, Nat.le_of_eq h.tracks.insertCount⟩
  · have hsome : c.decoder.sectionPrefix? = some a.sectionPrefix := by
      rw [h.sectionPrefix, haccepted, Option.map_some]
    have hat : c.acceptedAt chunk = some a := by
      simp [Connection.acceptedAt, haccepted]
    rw [Decoder.sectionPrefix?_advance hsome, hat]
    refine ⟨rfl, ?_⟩
    rintro _ ⟨⟩
    exact h.accepted a haccepted

theorem exists_accepted (h : c.Sound) {chunk : Bytes} {v : Decoder.Visit}
    (hv : c.decoder.Visits c.table.view chunk v) :
    ∃ a, c.acceptedAt chunk = some a ∧ v.ctx.sectionPrefix = a.sectionPrefix ∧
      a.Sound c.history := by
  obtain ⟨hopened, -⟩ := hv.ctx
  obtain ⟨haccepted, hsound⟩ := h.acceptedAt chunk
  rw [hopened] at haccepted
  obtain ⟨a, ha, hsection⟩ := Option.map_eq_some_iff.mp haccepted.symm
  exact ⟨a, ha, hsection.symm, hsound a ha⟩

/-- What a call reports repeats the history. -/
theorem report (h : c.Sound) {chunk : Bytes} {e : Event}
    (he : e ∈ (c.decoder.decode c.table.view chunk).events) :
    Report.Sound c.history { event := e, accepted := c.acceptedAt chunk } := by
  intro absolute hentry
  obtain ⟨v, hv, hmem⟩ := Decoder.exists_visit_of_mem_events he
  obtain ⟨a, ha, hsection, hsound⟩ := h.exists_accepted hv
  obtain ⟨line, rest, -, hdenotes⟩ :=
    Decoder.Visit.denotes_of_mem_events hmem (Event.isSome_field?_of_target? hentry)
  obtain ⟨addressing, index, hreference⟩ := hdenotes.exists_reference hentry
  obtain ⟨i, entry, hentry', -, hholds, hrepeats⟩ := hdenotes.exists_entry hreference
  obtain rfl : i = .dynamic absolute := by simpa [hentry] using hentry'.symm
  rw [hsection, hv.ctx.2] at hholds
  cases hholds with
  | dynamic hlt hget =>
    obtain ⟨-, hplace⟩ := h.tracks.get?_eq_some_iff.mp hget
    exact ⟨a, entry, ha, hlt, hsound.required, hplace, hrepeats⟩

theorem decode (h : c.Sound) (chunk : Bytes) : (c.step (.decode chunk)).Sound := by
  obtain ⟨hopened, haccepted⟩ := h.acceptedAt chunk
  have hreports : ∀ r ∈ (c.step (.decode chunk)).reports, r.Sound c.history := by
    intro r hr
    rcases List.mem_append.mp hr with hr | hr
    · exact h.reports r hr
    · obtain ⟨e, he, rfl⟩ := List.mem_map.mp hr
      exact h.report he
  rcases hresult : (c.decoder.decode c.table.view chunk).result with cause | _
  · refine ⟨h.tracks, ?_, ?_, hreports⟩
    · simp only [step, hresult, Option.map_none]
      exact Decoder.sectionPrefix?_decode_of_error hresult
    · simp [step, hresult]
  · have hadvance := Decoder.result_decode _ _ _ ▸ hresult
    refine ⟨h.tracks, ?_, ?_, hreports⟩
    · simp only [step, hresult]
      rw [Decoder.decoder_decode_of_ok hadvance]
      exact hopened
    · simpa only [step, hresult] using haccepted

theorem finish (h : c.Sound) : (c.step .finish).Sound where
  tracks := h.tracks
  sectionPrefix := rfl
  accepted := by simp [step]
  reports := h.reports

theorem step (h : c.Sound) (action : Action) : (c.step action).Sound := by
  cases action with
  | change op => exact h.change op
  | decode chunk => exact h.decode chunk
  | finish => exact h.finish

theorem run (h : c.Sound) (actions : List Action) : (c.run actions).Sound := by
  induction actions generalizing c with
  | nil => exact h
  | cons action actions ih => exact ih (h.step action)

theorem reading_eq_error_iff (h : c.Sound) (hcount : c.history.length < 1 <<< 63) {chunk : Bytes}
    {v : Decoder.Visit} (hv : c.decoder.Visits c.table.view chunk v) :
    v.reading.result = .error .invalidDynamicTableIndex ↔ v.Dangles c.table := by
  obtain ⟨a, -, hsection, hsound⟩ := h.exists_accepted hv
  have hinserted := h.tracks.insertCount
  refine Decoder.Visit.reading_eq_error_iff h.tracks hv.ctx.2 ?_ (hinserted ▸ hcount)
  rw [hsection, hinserted]
  exact Nat.le_trans hsound.required hsound.inserted

end Sound

end Connection

/-- **References never go astray.** Let a connection make any calls, with fewer than `2 ^ 63`
insertions. Every reported reference to the dynamic table is to an insertion that the accepted
prefix declared, no later than the insertions at that time, and what is reported repeats the field
that was inserted there. And whatever chunk comes next, a line fails for its reference to the
dynamic table just when it is complete and its reference is dangling by then; the call fails with
it. -/
theorem Settings.references (s : Settings) (actions : List Connection.Action)
    (hcount : (s.connection.run actions).history.length < 1 <<< 63) :
    let c := s.connection.run actions
    (∀ r ∈ c.reports, ∀ absolute, r.event.target? = some (.dynamic absolute) →
      ∃ a entry, r.accepted = some a ∧ absolute < a.sectionPrefix.requiredInsertCount ∧
        a.sectionPrefix.requiredInsertCount ≤ a.insertCount ∧
        c.history[absolute]? = some entry ∧ r.event.Repeats entry) ∧
      ∀ chunk v, c.decoder.Visits c.table.view chunk v →
        (v.reading.result = .error .invalidDynamicTableIndex ↔ v.Dangles c.table) ∧
          (v.reading.result = .error .invalidDynamicTableIndex →
            (c.decoder.decode c.table.view chunk).result = .error .invalidDynamicTableIndex) := by
  intro c
  have hsound : c.Sound := (Connection.sound_connection s).run actions
  refine ⟨fun r hr ↦ hsound.reports r hr, ?_⟩
  intro chunk v hv
  refine ⟨hsound.reading_eq_error_iff hcount hv, ?_⟩
  intro hfailed
  obtain ⟨first, hfirst, hreaches⟩ := hv
  exact (Decoder.result_decode_eq_error_iff hfirst).mpr ⟨v, ⟨first, hfirst, hreaches⟩, hfailed⟩

/-- An entry that is reported, then driven out by the next insertion, and then referred to again. -/
theorem Settings.references_evicted :
    let s : Settings := { maxTableCapacity := 40 }
    let c := s.connection.run
      [.change (.setCapacity 40), .change (.insert ⟨[97], [98]⟩), .decode [0x02, 0x00, 0x80],
        .change (.insert ⟨[99], [100]⟩)]
    c.history.length < 1 <<< 63 ∧
      (∃ entry, c.history[0]? = some entry ∧
        (Event.indexed (.dynamic 0) ⟨[97], [98]⟩).Repeats entry) ∧
      (c.decoder.decode c.table.view [0x80]).result = .error .invalidDynamicTableIndex := by
  intro s c
  have hcount : c.history.length < 1 <<< 63 := by
    have hlength : c.history.length = 2 := by cbv
    rw [hlength]
    decide
  obtain ⟨hreports, hvisits⟩ := Settings.references s _ hcount
  refine ⟨hcount, ?_, ?_⟩
  · have hevent : c.reports = [⟨.indexed (.dynamic 0) ⟨[97], [98]⟩, some ⟨⟨1, 1⟩, 1⟩⟩] := by cbv
    obtain ⟨_, entry, -, -, -, hget, hrepeats⟩ :=
      hreports _ (hevent ▸ List.mem_singleton_self _) 0 rfl
    exact ⟨entry, hget, hrepeats⟩
  · have hphase : c.decoder.phase = .lines ⟨1, 1⟩ .idle := by cbv
    have hevicted : 0 < c.table.evicted := by
      have hone : c.table.evicted = 1 := by cbv
      rw [hone]
      decide
    let v : Decoder.Visit :=
      { ctx := { sectionPrefix := ⟨1, 1⟩, table := c.table.view, size := c.decoder.size }
        line := .ofByte 0x80
        input := [0x80] }
    have hv : c.decoder.Visits c.table.view [0x80] v := by
      refine ⟨v, ?_, .here v⟩
      simp [v, Decoder.firstVisit?, Decoder.linesOf?, hphase, Decoder.Visit.first?]
    obtain ⟨hiff, hfails⟩ := hvisits [0x80] v hv
    exact hfails (hiff.mpr ⟨.indexed .relative 0, [], .relative, 0, rfl, rfl,
      .evicted (.relative rfl) hevicted⟩)

end FieldCompression
