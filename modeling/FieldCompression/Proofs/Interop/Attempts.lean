import FieldCompression.Interop.CommandLine
import FieldCompression.Proofs.FieldSection.Refusals

/-!
# Attempts at sections

A session decodes a section when it arrives, and as long as the section is blocked, again whenever
the table has changed. All attempts are made with one decoder, and a blocked one is followed by an
attempt at another section. What an attempt comes to must therefore depend on the table and on the
octets only, and `decoding` is what it comes to with a decoder that has seen nothing.

`Tries` says what trying some sections does to a session that goes on afterwards. Those that are
blocked join the others that wait, in order. All others are decoded to their end, their field lists
are printed, also in order, and nothing else is printed.
-/

namespace FieldCompression

open FieldLine

private theorem Decoder.events_of_wouldBlock {d : Decoder} {table : TableView} {chunk : Bytes}
    (h : (d.decodeSection table chunk).result = .error .dynamicTableWouldBlock) :
    (d.decodeSection table chunk).events = [] := by
  rcases hresult : (d.decode table chunk).result with cause | _
  · simp only [decodeSection, hresult, Except.error.injEq] at h ⊢
    subst h
    rw [result_decode] at hresult
    obtain ⟨-, -, -, -, -, hevents⟩ := exists_blocked hresult
    rw [events_decode, hevents]
  · -- a section that ends too early fails for another cause
    simp only [decodeSection, hresult, finish] at h
    split at h <;> simp at h

namespace Interop

/-! ## Printing -/

/-- What reports print. -/
def printedBy (reports : List Report) : String := "".intercalate (reports.map Report.printed)

/-- The line that shows a field. -/
def fieldText (field : Field) : String :=
  s!"{Text.Utf8.lossy field.name}\t{Text.Utf8.lossy field.value}\n"

/-- The text that shows a field list: its fields, and an empty line. -/
def fieldListText (fields : List Field) : String := "".intercalate (fields.map fieldText) ++ "\n"

theorem intercalate_empty_append (texts more : List String) :
    "".intercalate (texts ++ more) = "".intercalate texts ++ "".intercalate more := by
  rcases texts with _ | ⟨text, texts⟩
  · exact String.empty_append.symm
  rcases more with _ | ⟨next, more⟩
  · rw [List.append_nil]
    exact String.append_empty.symm
  · rw [String.intercalate_append_of_ne_nil (List.cons_ne_nil _ _) (List.cons_ne_nil _ _),
      String.append_empty]

theorem printedBy_append (reports more : List Report) :
    printedBy (reports ++ more) = printedBy reports ++ printedBy more := by
  rw [printedBy, List.map_append, intercalate_empty_append, printedBy, printedBy]

private theorem printedBy_map_event (events : List Event) :
    printedBy (events.map Report.event) = "".intercalate ((fieldsOf events).map fieldText) := by
  induction events with
  | nil => rfl
  | cons e events ih =>
    rw [List.map_cons, ← List.singleton_append, printedBy_append, ih]
    rcases hfield : e.field? with _ | field
    · have hfields : fieldsOf (e :: events) = fieldsOf events := List.filterMap_cons_none hfield
      have hnothing : printedBy [.event e] = "" := by simp [printedBy, Report.printed, hfield]
      rw [hfields, hnothing, String.empty_append]
    · have hfields : fieldsOf (e :: events) = [field] ++ fieldsOf events :=
        List.filterMap_cons_some hfield
      have hline : printedBy [.event e] = "".intercalate ([field].map fieldText) := by
        simp [printedBy, Report.printed, hfield, fieldText]
      rw [hfields, hline, List.map_append, intercalate_empty_append]

/-- The stream of a section whose entries never arrived, if that is what is reported. -/
def Report.neverUnblocked? : Report → Option Nat
  | neverUnblocked stream => some stream
  | _ => none

namespace Session

/-! ## One section -/

/-- What decoding a section comes to with a decoder that has seen nothing. -/
def decoding (settings : Settings) (table : DynamicTable) (r : Record) : Decoder.Section :=
  settings.decoder.decodeSection table.view r.payload

/-- Whether a section is blocked. -/
def blockedBy (settings : Settings) (table : DynamicTable) (r : Record) : Bool :=
  match (decoding settings table r).result with
  | .error .dynamicTableWouldBlock => true
  | _ => false

/-- A section is decoded to its end. -/
def Decodes (settings : Settings) (table : DynamicTable) (r : Record) : Prop :=
  ∃ p, (decoding settings table r).result = .ok p

/-- The text that shows the field list of a section. -/
def sectionText (settings : Settings) (table : DynamicTable) (r : Record) : String :=
  fieldListText (fieldsOf (decoding settings table r).events)

variable {settings : Settings} {table : DynamicTable} {s : Session} {r : Record}

private theorem blockedBy_eq_true_iff :
    blockedBy settings table r = true ↔
      (decoding settings table r).result = .error .dynamicTableWouldBlock := by
  rw [blockedBy]
  split
  · rename_i h
    simp [h]
  · rename_i h
    simpa using h

/-- Whatever an attempt comes to, the decoder is as it was. -/
theorem session_attempt (hs : s.decoder = settings.decoder) : (s.attempt r).session = s := by
  have hdecoder : (s.decoder.decodeSection s.table.view r.payload).decoder = s.decoder := by
    have hends := @Decoder.perform_of_ends s.decoder (.decodeSection s.table.view r.payload) trivial
    rw [Decoder.perform] at hends
    rw [hends, hs]
    rfl
  rw [attempt]
  split
  · rw [hdecoder]
  · rw [hdecoder]

theorem reports_attempt_of_wouldBlock
    (h : (s.attempt r).result = .error .dynamicTableWouldBlock) : (s.attempt r).reports = [] := by
  rw [attempt] at h ⊢
  split at h
  · exact absurd h (by simp)
  · rename_i hresult
    rw [Except.error.inj h] at hresult
    rw [Decoder.events_of_wouldBlock hresult, List.map_nil]

theorem result_attempt_eq_wouldBlock_iff (hs : s.decoder = settings.decoder) :
    (s.attempt r).result = .error .dynamicTableWouldBlock ↔
      blockedBy settings s.table r = true := by
  rw [blockedBy_eq_true_iff, decoding, ← hs, attempt]
  split
  · rename_i h
    simp [h]
  · rename_i h
    simp [h]

/-- An attempt that succeeds prints the field list, and the section was decoded to its end. -/
theorem attempt_of_ok (hs : s.decoder = settings.decoder) (h : (s.attempt r).result = .ok ()) :
    Decodes settings s.table r ∧
      printedBy (s.attempt r).reports = sectionText settings s.table r := by
  rw [attempt] at h ⊢
  split at h
  · rename_i p hresult
    rw [Decodes, sectionText, decoding, ← hs]
    refine ⟨⟨p, hresult⟩, ?_⟩
    rw [printedBy_append, printedBy_map_event, fieldListText]
    rfl
  · exact absurd h (by simp)

private theorem neverUnblocked?_attempt (s : Session) (r : Record) :
    (s.attempt r).reports.filterMap Report.neverUnblocked? = [] := by
  have hevents (events : List Event) :
      (events.map Report.event).filterMap Report.neverUnblocked? = [] := by
    rw [List.filterMap_map]
    exact List.filterMap_eq_nil_iff.mpr fun _ _ ↦ rfl
  rw [attempt]
  split
  · rw [List.filterMap_append, hevents]
    rfl
  · exact hevents _

/-! ## Several sections -/

/-- What trying sections with a session does. -/
structure Tries (settings : Settings) (s : Session) (sections : List Record) (step : Step) :
    Prop where
  /-- Those that are blocked are put aside. -/
  session : step.session =
    { s with blocked := s.blocked ++ sections.filter (blockedBy settings s.table) }
  /-- All others are decoded to their end. -/
  decodes : ∀ r ∈ sections, blockedBy settings s.table r = false → Decodes settings s.table r
  /-- Their field lists are printed, and nothing else. -/
  printed : printedBy step.reports = "".intercalate
    ((sections.filter (!blockedBy settings s.table ·)).map (sectionText settings s.table))
  /-- No section is given up. -/
  kept : step.reports.filterMap Report.neverUnblocked? = []

variable {sections more : List Record} {step next : Step}

theorem Tries.after (h : Tries settings s sections step) {reports : List Report}
    (hprinted : printedBy reports = "")
    (hkept : reports.filterMap Report.neverUnblocked? = []) :
    Tries settings s sections (step.after reports) where
  session := h.session
  decodes := h.decodes
  printed := by rw [Step.after, printedBy_append, hprinted, String.empty_append, h.printed]
  kept := by rw [Step.after, List.filterMap_append, hkept, List.nil_append, h.kept]

/-- Sections may be tried in two parts, one after the other. -/
theorem Tries.append (h : Tries settings s sections step)
    (hnext : Tries settings step.session more next) :
    Tries settings s (sections ++ more) (next.after step.reports) := by
  have htable : step.session.table = s.table := by rw [h.session]
  refine ⟨?_, ?_, ?_, ?_⟩
  · rw [Step.after, hnext.session, htable, h.session, List.filter_append, List.append_assoc]
  · intro r hr hfree
    rcases List.mem_append.mp hr with hr | hr
    · exact h.decodes r hr hfree
    · rw [← htable] at hfree ⊢
      exact hnext.decodes r hr hfree
  · rw [Step.after, printedBy_append, h.printed, hnext.printed, htable, List.filter_append,
      List.map_append, intercalate_empty_append]
  · rw [Step.after, List.filterMap_append, h.kept, List.nil_append, hnext.kept]

private theorem tries_nil (s : Session) :
    Tries settings s [] { result := .ok (), session := s } where
  session := by rw [List.filter_nil, List.append_nil]
  decodes _ h := absurd h List.not_mem_nil
  printed := rfl
  kept := rfl

theorem tries_of_ok (hs : s.decoder = settings.decoder) (h : (s.attempt r).result = .ok ()) :
    Tries settings s [r] (s.attempt r) := by
  have hfree : blockedBy settings s.table r = false := by
    rw [← Bool.not_eq_true, ← result_attempt_eq_wouldBlock_iff hs, h]
    simp
  obtain ⟨hdecodes, hprinted⟩ := attempt_of_ok hs h
  refine ⟨?_, ?_, ?_, neverUnblocked?_attempt s r⟩
  · rw [session_attempt hs, List.filter_cons_of_neg (by simp [hfree]), List.filter_nil,
      List.append_nil]
  · intro q hq _
    rw [List.mem_singleton.mp hq]
    exact hdecodes
  · rw [hprinted, List.filter_cons_of_pos (by simp [hfree])]
    rfl

theorem tries_of_wouldBlock (hs : s.decoder = settings.decoder)
    (h : (s.attempt r).result = .error .dynamicTableWouldBlock) :
    Tries settings s [r] { result := .ok (), session := s.putAside r } := by
  have hblocked := (result_attempt_eq_wouldBlock_iff hs).mp h
  refine ⟨?_, ?_, ?_, rfl⟩
  · rw [List.filter_cons_of_pos hblocked]
    rfl
  · intro q hq hfree
    rw [List.mem_singleton.mp hq, hblocked] at hfree
    exact absurd hfree (by simp)
  · rw [List.filter_cons_of_neg (by simp [hblocked])]
    rfl

/-- Sections are tried again until one of them fails for another cause than that it is blocked. -/
theorem exists_retry_cons (hs : s.decoder = settings.decoder)
    (hok : (s.retry (r :: sections)).result = .ok ()) :
    ∃ first, Tries settings s [r] first ∧
      s.retry (r :: sections) = (first.session.retry sections).after first.reports := by
  rcases hresult : (s.attempt r).result with cause | _
  · obtain rfl : cause = .dynamicTableWouldBlock := by
      rw [retry] at hok
      split at hok <;> simp_all
    refine ⟨_, tries_of_wouldBlock hs hresult, ?_⟩
    rw [retry]
    simp only [hresult, session_attempt hs, reports_attempt_of_wouldBlock hresult]
  · refine ⟨_, tries_of_ok hs hresult, ?_⟩
    rw [retry]
    simp only [hresult]

/-- **Retries.** Sections that are tried again without a failure are sorted out, and those that stay
blocked keep their order. -/
theorem tries_retry (hs : s.decoder = settings.decoder)
    (hok : (s.retry sections).result = .ok ()) :
    Tries settings s sections (s.retry sections) := by
  -- every blocked section changes the session, but neither its decoder nor its table
  induction sections generalizing s with
  | nil => exact tries_nil s
  | cons r sections ih =>
    obtain ⟨first, hfirst, hretry⟩ := exists_retry_cons hs hok
    have hdecoder : first.session.decoder = settings.decoder := by rw [hfirst.session, hs]
    rw [hretry] at hok ⊢
    exact hfirst.append (ih hdecoder hok)

theorem tries_request (hs : s.decoder = settings.decoder) (hok : (s.request r).result = .ok ()) :
    Tries settings s [r] (s.request r) := by
  rw [request] at hok ⊢
  split at hok
  · rename_i hresult
    rw [session_attempt hs, reports_attempt_of_wouldBlock hresult]
    exact (tries_of_wouldBlock hs hresult).after
      (show printedBy [.blocked r.stream] = "" from rfl) rfl
  · exact tries_of_ok hs hok

end Session

end Interop

end FieldCompression
