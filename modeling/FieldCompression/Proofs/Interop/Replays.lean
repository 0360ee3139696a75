import FieldCompression.Proofs.Interop.Attempts

/-!
# What became of the sections

A replay moves sections between three places: the recording, the list of those that wait, and what
has been printed. Two records may be equal, so a section is told apart by its place in the
recording. `Account` says where each of the sections read so far is. `Reaches` are the states from
which a record is read, with what has been read and reported before, and every one of them has an
account.

## What an account rests on

An account says of the waiting sections that the present table still blocks them. This is why a
section that arrives only has to be tried itself: those before it would come to the same as before.
It is also why the order is kept, since every retry begins with all that wait and sorts out some.
-/

namespace FieldCompression.Interop

open FieldLine

/-! ## Sections and the table -/

/-- The sections among some records, each with its place. -/
def arrivals (records : List Record) : List (Record × Nat) :=
  records.zipIdx.filter fun a ↦ a.1.stream ≠ 0

/-- The dynamic table after some records. -/
def tableAfter (settings : Settings) (records : List Record) : DynamicTable :=
  settings.table.run ((records.filter (·.stream = 0)).map fun r ↦ .receive r.payload)

section Concat

variable {records : List Record} {r : Record}

private theorem lt_length_of_mem_arrivals {a : Record × Nat} (h : a ∈ arrivals records) :
    a.2 < records.length :=
  List.snd_lt_of_mem_zipIdx (List.mem_filter.mp h).1

private theorem arrivals_concat_of_control (h : r.stream = 0) :
    arrivals (records ++ [r]) = arrivals records := by
  rw [arrivals, List.zipIdx_append, List.filter_append]
  simp [arrivals, h]

private theorem arrivals_concat_of_section (h : r.stream ≠ 0) :
    arrivals (records ++ [r]) = arrivals records ++ [(r, records.length)] := by
  rw [arrivals, List.zipIdx_append, List.filter_append]
  simp [arrivals, h]

private theorem tableAfter_concat_of_control (settings : Settings) (h : r.stream = 0) :
    tableAfter settings (records ++ [r]) =
      ((tableAfter settings records).receive r.payload).table := by
  rw [tableAfter, List.filter_append, List.map_append, DynamicTable.run, List.foldl_append]
  simp [tableAfter, DynamicTable.run, DynamicTable.perform, h]

private theorem tableAfter_concat_of_section (settings : Settings) (h : r.stream ≠ 0) :
    tableAfter settings (records ++ [r]) = tableAfter settings records := by
  rw [tableAfter, List.filter_append]
  simp [tableAfter, h]

end Concat

/-! ## Accounts -/

/-- The printing of a section. -/
structure Showing where
  /-- The section and its place. -/
  arrival : Record × Nat
  /-- The number of records that had been read. -/
  after : Nat
  /-- The fields that were printed. -/
  fields : List Field

/-- The section had arrived, it was decoded to its end with the table of that time, and the fields
are all that it holds. -/
structure Showing.Complete (settings : Settings) (records : List Record) (x : Showing) : Prop where
  /-- The section had been read. -/
  arrived : x.arrival.2 < x.after
  /-- Not more records had been read than there are. -/
  read : x.after ≤ records.length
  /-- The section was decoded to its end. -/
  decodes : Session.Decodes settings (tableAfter settings (records.take x.after)) x.arrival.1
  /-- The fields are those of the section. -/
  fields : x.fields =
    fieldsOf (Session.decoding settings (tableAfter settings (records.take x.after))
      x.arrival.1).events

/-- What has been printed is not changed by what is read later. -/
theorem Showing.Complete.append {settings : Settings} {records : List Record} {x : Showing}
    (h : x.Complete settings records) (more : List Record) :
    x.Complete settings (records ++ more) := by
  have htake : (records ++ more).take x.after = records.take x.after :=
    List.take_append_of_le_length h.read
  refine ⟨h.arrived, Nat.le_trans h.read ?_, ?_, ?_⟩
  · rw [List.length_append]
    exact Nat.le_add_right _ _
  · rw [htake]
    exact h.decodes
  · rw [htake]
    exact h.fields

namespace Session

/-- Where the sections among some records are. -/
structure Account (settings : Settings) (records : List Record) (reports : List Report)
    (s : Session) (shown : List Showing) (waiting : List (Record × Nat)) : Prop where
  /-- The decoder has nothing left of any section. -/
  decoder : s.decoder = settings.decoder
  /-- The table is that of all instructions read. -/
  table : s.table = tableAfter settings records
  /-- Every section has been shown once or waits once, and not both. -/
  once : (shown.map Showing.arrival ++ waiting).Perm (arrivals records)
  /-- Those that wait do so in the order of their arrival. -/
  ordered : waiting.Sublist (arrivals records)
  /-- They are the blocked sections of the session. -/
  blocked : s.blocked = waiting.map Prod.fst
  /-- Each of them is still blocked. -/
  blocks : ∀ r ∈ s.blocked, (s.attempt r).result = .error .dynamicTableWouldBlock
  /-- Each of the others has been shown with its complete field list. -/
  complete : ∀ x ∈ shown, x.Complete settings records
  /-- Nothing else has been printed. -/
  printed : printedBy reports = "".intercalate (shown.map fun x ↦ fieldListText x.fields)
  /-- No section has been given up. -/
  kept : reports.filterMap Report.neverUnblocked? = []

/-- The states from which a record is read, with the records before it, what was reported, and what
is left of the recording. -/
inductive Reaches (settings : Settings) (recording : Bytes) :
    List Record → List Report → Session → Bytes → Prop
  /-- At first nothing has been read. -/
  | start : Reaches settings recording [] [] (start settings) recording
  /-- A record was replayed without a failure. -/
  | next {records : List Record} {reports : List Report} {s : Session} {input rest : Bytes}
    {r : Record} (h : Reaches settings recording records reports s input)
    (hread : Record.read input = .record r rest) (hok : (s.replay r).result = .ok ()) :
    Reaches settings recording (records ++ [r]) (reports ++ (s.replay r).reports)
      (s.replay r).session rest

variable {settings : Settings} {records : List Record} {reports : List Report} {s : Session}
  {r : Record} {shown : List Showing} {waiting : List (Record × Nat)}

/-! ## One record -/

/-- The printing of a section once some records have been read. -/
def showing (settings : Settings) (records : List Record) (a : Record × Nat) : Showing :=
  ⟨a, records.length, fieldsOf (decoding settings (tableAfter settings records) a.1).events⟩

private theorem complete_showing {a : Record × Nat} (harrived : a ∈ arrivals records)
    (hdecodes : Decodes settings (tableAfter settings records) a.1) :
    (showing settings records a).Complete settings records := by
  have htake : records.take (showing settings records a).after = records := List.take_length
  refine ⟨lt_length_of_mem_arrivals harrived, Nat.le_refl _, ?_, ?_⟩
  · rw [htake]
    exact hdecodes
  · rw [htake]
    rfl

private theorem perm_sort {α : Type} (p : α → Bool) (kept tried : List α) :
    (tried.filter (!p ·) ++ (kept ++ tried.filter p)).Perm (kept ++ tried) := by
  refine List.perm_append_comm.trans ?_
  rw [List.append_assoc]
  exact (List.filter_append_perm p tried).append_left kept

/-- **Sorting out.** What trying some sections does to an account. The record may have brought a new
section, and some of those that waited may be known to be blocked still. -/
theorem Account.sort (h : Account settings records reports s shown waiting) {s' : Session}
    {new kept tried : List (Record × Nat)} {step : Step}
    (hnew : arrivals (records ++ [r]) = arrivals records ++ new)
    (hall : kept ++ tried = waiting ++ new) (hdecoder : s'.decoder = settings.decoder)
    (htable : s'.table = tableAfter settings (records ++ [r]))
    (hblocked : s'.blocked = kept.map Prod.fst)
    (hblocks : ∀ q ∈ s'.blocked, blockedBy settings s'.table q = true)
    (htries : Tries settings s' (tried.map Prod.fst) step) :
    Account settings (records ++ [r]) (reports ++ step.reports) step.session
      (shown ++ (tried.filter (!blockedBy settings s'.table ·.1)).map
        (showing settings (records ++ [r])))
      (kept ++ tried.filter (blockedBy settings s'.table ·.1)) := by
  have hsublist : (kept ++ tried).Sublist (arrivals (records ++ [r])) := by
    rw [hall, hnew]
    exact h.ordered.append_right new
  have honce : (shown.map Showing.arrival ++ (kept ++ tried)).Perm (arrivals (records ++ [r])) := by
    rw [hall, hnew, ← List.append_assoc]
    exact h.once.append_right new
  have hsession : step.session.decoder = settings.decoder := by rw [htries.session, hdecoder]
  refine ⟨hsession, by rw [htries.session, htable], ?_, ?_, ?_, ?_, ?_, ?_, ?_⟩
  · have hplaces (l : List (Record × Nat)) :
        l.map (Showing.arrival ∘ showing settings (records ++ [r])) = l := l.map_id
    rw [List.map_append, List.map_map, hplaces, List.append_assoc]
    exact ((perm_sort _ kept tried).append_left _).trans honce
  · exact (List.filter_sublist.append_left kept).trans hsublist
  · rw [htries.session, hblocked, List.map_append, List.filter_map]
    rfl
  · intro q hq
    rw [result_attempt_eq_wouldBlock_iff hsession]
    rw [htries.session] at hq ⊢
    rcases List.mem_append.mp hq with hq | hq
    · exact hblocks q hq
    · exact (List.mem_filter.mp hq).2
  · intro x hx
    rcases List.mem_append.mp hx with hx | hx
    · exact (h.complete x hx).append [r]
    · obtain ⟨a, ha, rfl⟩ := List.mem_map.mp hx
      obtain ⟨ha, hfree⟩ := List.mem_filter.mp ha
      rw [Bool.not_eq_true'] at hfree
      have hdecodes := htries.decodes a.1 (List.mem_map_of_mem ha) hfree
      rw [htable] at hdecodes
      exact complete_showing (hsublist.subset (List.mem_append_right _ ha)) hdecodes
  · rw [printedBy_append, h.printed, htries.printed, List.map_append, intercalate_empty_append,
      List.filter_map, List.map_map, List.map_map, htable]
    rfl
  · rw [List.filterMap_append, h.kept, htries.kept, List.nil_append]

/-- **One record.** An account is kept up to date by every record that is replayed without a
failure. -/
theorem Account.replay (h : Account settings records reports s shown waiting)
    (hok : (s.replay r).result = .ok ()) :
    ∃ shown' waiting', Account settings (records ++ [r]) (reports ++ (s.replay r).reports)
      (s.replay r).session shown' waiting' := by
  have hreceived : printedBy [.received r.stream r.payload.length] = "" := rfl
  rw [Session.replay] at hok ⊢
  by_cases hstream : r.stream = 0
  · -- all that wait are tried again with another table
    simp only [if_pos hstream] at hok ⊢
    rw [control] at hok ⊢
    rcases hresult : (s.table.receive r.payload).result with cause | _
    · simp [hresult, Step.after] at hok
    simp only [hresult] at hok ⊢
    let s' : Session := ⟨s.decoder, (s.table.receive r.payload).table, []⟩
    have hdecoder : s'.decoder = settings.decoder := h.decoder
    have htable : s'.table = tableAfter settings (records ++ [r]) := by
      rw [tableAfter_concat_of_control settings hstream, ← h.table]
    have hnew : arrivals (records ++ [r]) = arrivals records ++ [] := by
      rw [arrivals_concat_of_control hstream, List.append_nil]
    have hall : [] ++ waiting = waiting ++ [] := (List.append_nil waiting).symm
    have htries : Tries settings s' (waiting.map Prod.fst) (s'.retry s.blocked) :=
      h.blocked ▸ tries_retry hdecoder hok
    exact ⟨_, _, h.sort hnew hall hdecoder htable rfl (fun _ hq ↦ absurd hq List.not_mem_nil)
      (htries.after hreceived rfl)⟩
  · -- what blocked the others still does
    simp only [if_neg hstream] at hok ⊢
    refine ⟨_, _, h.sort (arrivals_concat_of_section hstream) rfl h.decoder ?_ h.blocked ?_
      ((tries_request h.decoder hok).after hreceived rfl)⟩
    · rw [tableAfter_concat_of_section settings hstream, ← h.table]
    · exact fun q hq ↦ (result_attempt_eq_wouldBlock_iff h.decoder).mp (h.blocks q hq)

section Run

variable {recording input rest : Bytes}

theorem run_of_ended (hread : Record.read input = .ended) :
    s.run input = ⟨none, s, s.blocked.map fun r ↦ .neverUnblocked r.stream⟩ := by
  rw [run]
  split <;> simp_all

theorem run_of_truncated (hread : Record.read input = .truncated) :
    s.run input = ⟨some .truncated, s, []⟩ := by
  rw [run]
  split <;> simp_all

theorem failure?_run_of_failed {cause : Error} (hread : Record.read input = .record r rest)
    (hresult : (s.replay r).result = .error cause) :
    (s.run input).failure? = some (.decoding cause) := by
  rw [run]
  split
  · simp_all
  · simp_all
  · rename_i h
    obtain ⟨rfl, rfl⟩ := Record.Front.record.inj (hread.symm.trans h)
    simp only [hresult]

theorem run_of_record (hread : Record.read input = .record r rest)
    (hok : (s.replay r).result = .ok ()) :
    s.run input =
      { (s.replay r).session.run rest with
        reports := (s.replay r).reports ++ ((s.replay r).session.run rest).reports } := by
  rw [run]
  split
  · simp_all
  · simp_all
  · rename_i h
    obtain ⟨rfl, rfl⟩ := Record.Front.record.inj (hread.symm.trans h)
    simp only [hok]

theorem run_of_reaches (h : Reaches settings recording records reports s input) :
    (start settings).run recording =
      { s.run input with reports := reports ++ (s.run input).reports } := by
  induction h with
  | start => rfl
  | next _ hread hok ih => rw [ih, run_of_record hread hok, List.append_assoc]

end Run

/-! ## The result -/

end Session

end FieldCompression.Interop
