import FieldCompression.Proofs.DynamicTable.Reachable
import FieldCompression.Proofs.Fragmentation.Failures
import FieldCompression.Proofs.Reuse.Calls
import FieldCompression.Proofs.Roundtrip.Lines

/-!
# Sections that are refused

A section is refused for good when it is too large, and the caller is told. It is refused for the
time being when it relies on insertions that have not been made, and then its octets are to be
decoded again.
-/

namespace FieldCompression

open FieldLine

/-! ## What is rejected

A section can become too large in three ways: a string says so by its length, a string turns out so
when it is decoded, or a field does not fit when it is delivered. The first two can happen in the
name or in the value of a line, and in the call that began the line or in a later one. Whichever it
is, the caller is told once, last of all, and by the line at fault.

A call passes complete lines until it comes to one that is not complete, or fails. `Visit.Passes`
lists the lines that it has passed on its way to another. Each of them has reported one field, and
what the call reports is what they have reported and then what the last line reports. -/

namespace Decoder

namespace Visit

/-- The complete lines on the way from a visit to a later one, in order. -/
inductive Passes : Visit → List Visit → Visit → Prop
  /-- There are none before the visit itself. -/
  | here (v : Visit) : Passes v [] v
  /-- The line is complete, and octets are left for the next. -/
  | next {v w : Visit} {first : UInt8} {rest : Bytes} {between : List Visit}
    (hdone : v.reading.result = .ok (some ())) (hrest : v.reading.rest = first :: rest)
    (h : Passes (v.following first rest) between w) : Passes v (v :: between) w

variable {v w : Visit} {between : List Visit}

private theorem events_of_done (h : v.reading.result = .ok (some ())) :
    ∃ e field, v.reading.events = [e] ∧ e.field? = some field := by
  obtain ⟨rest, e, field, notes, hfield, -, hread⟩ := FieldLine.Reader.exists_read_eq_of_done h
  exact ⟨e, field, by rw [reading, hread], hfield⟩

theorem events_of_tooLarge (h : v.reading.result = .error .headerListTooLarge) :
    v.reading.events = [.rejected .headerListTooLarge] := by
  have hevents : v.reading.events = callbacks v.reading.events ++ notices v.reading.result :=
    FieldLine.Reader.events_read v.ctx v.line v.input
  have hsilent : callbacks v.reading.events = [] :=
    (FieldLine.Reader.callbacks_read_of_ne_done (h ▸ by simp)).1
  rw [hevents, hsilent, h, notices_tooLarge, List.nil_append]

theorem Passes.reported (h : v.Passes between w) :
    ∀ u ∈ between, ∃ e field, u.reading.events = [e] ∧ e.field? = some field := by
  induction h with
  | here v => exact fun u hu ↦ absurd hu List.not_mem_nil
  | next hdone _ _ ih =>
    intro u hu
    rcases List.mem_cons.mp hu with rfl | hu
    · exact events_of_done hdone
    · exact ih u hu

theorem Passes.events_loop (h : v.Passes between w) :
    v.loop.events = (between.flatMap fun u ↦ u.reading.events) ++ w.loop.events := by
  induction h with
  | here v => rfl
  | next hdone hrest _ ih =>
    rw [loop_of_next hdone hrest, List.flatMap_cons, List.append_assoc, ← ih]
    rfl

/-- A loop that fails has passed complete lines, and then one has failed. -/
theorem exists_passes_of_loop_eq_error {cause : Error} (h : v.loop.result = .error cause) :
    ∃ between w, v.Passes between w ∧ w.reading.result = .error cause := by
  induction v using loop_induction with
  | error v cause' hresult =>
    rw [loop, readLinesAfter_of_error hresult] at h
    obtain rfl := Except.error.inj h
    exact ⟨[], v, .here v, hresult⟩
  | pending v hresult =>
    rw [loop, readLinesAfter_of_pending hresult] at h
    exact absurd h (by simp)
  | last v hdone hrest =>
    rw [loop_of_end hdone hrest] at h
    exact absurd h (by simp)
  | next v first rest hdone hrest ih =>
    rw [loop_of_next hdone hrest] at h
    obtain ⟨between, w, hpasses, hw⟩ := ih h
    exact ⟨v :: between, w, .next hdone hrest hpasses, hw⟩

/-- **Lines.** A loop that fails for the size reports the fields of the lines before the one at
fault, and then that it was rejected. -/
theorem exists_passes_of_loop_eq_tooLarge (h : v.loop.result = .error .headerListTooLarge) :
    ∃ between w, v.Passes between w ∧ w.reading.result = .error .headerListTooLarge ∧
      v.loop.events =
        (between.flatMap fun u ↦ u.reading.events) ++ [.rejected .headerListTooLarge] := by
  obtain ⟨between, w, hpasses, hw⟩ := exists_passes_of_loop_eq_error h
  have hlast : w.loop.events = w.reading.events := by rw [loop, readLinesAfter_of_error hw]
  exact ⟨between, w, hpasses, hw, by rw [hpasses.events_loop, hlast, events_of_tooLarge hw]⟩

end Visit

/-! ### Calls -/

variable {d : Decoder} {table : TableView} {chunk : Bytes}

theorem result_decode_eq_tooLarge_iff :
    (d.decode table chunk).result = .error .headerListTooLarge ↔
      ∃ cause, .rejected cause ∈ (d.decode table chunk).events := by
  rw [result_decode, events_decode, events_advance]
  constructor
  · intro h
    rw [h, notices_tooLarge]
    exact ⟨.headerListTooLarge, List.mem_append_right _ (List.mem_singleton_self _)⟩
  · rintro ⟨cause, hmem⟩
    rcases List.mem_append.mp hmem with hfield | hnotice
    · -- what reports a field is not a rejection
      exact absurd (List.mem_filter.mp hfield).2 (by simp [Event.field?])
    · rcases hresult : (d.advance table chunk).result with cause' | _
      · by_cases hlarge : cause' = .headerListTooLarge
        · rw [hlarge]
        · rw [hresult, notices_of_ne hlarge] at hnotice
          exact absurd hnotice List.not_mem_nil
      · rw [hresult, notices_ok] at hnotice
        exact absurd hnotice List.not_mem_nil

private theorem exists_firstVisit_of_tooLarge
    (h : (d.advance table chunk).result = .error .headerListTooLarge) :
    ∃ v, d.firstVisit? table chunk = some v := by
  rcases hlines : d.linesOf? table chunk with _ | ⟨p, line, input⟩
  · exact absurd rfl (ne_tooLarge_of_linesOf?_eq_none hlines h)
  · exact exists_firstVisit_of_error hlines h

/-- **Rejections.** A call of a decoder fails because the section is too large just if it reports
that something was rejected. In that case it has passed some lines, each of which reported one
field, and has come to a line that failed and reported nothing but the rejection; and it has
reported those fields, and then the rejection. -/
theorem decode_rejections (d : Decoder) (table : TableView) (chunk : Bytes) :
    let x := d.decode table chunk
    (x.result = .error .headerListTooLarge ↔ ∃ cause, .rejected cause ∈ x.events) ∧
      (x.result = .error .headerListTooLarge →
        ∃ v between w, d.firstVisit? table chunk = some v ∧ v.Passes between w ∧
          (∀ u ∈ between, ∃ e field, u.reading.events = [e] ∧ e.field? = some field) ∧
          w.reading.result = .error .headerListTooLarge ∧
          w.reading.events = [.rejected .headerListTooLarge] ∧
          x.events =
            (between.flatMap fun u ↦ u.reading.events) ++ [.rejected .headerListTooLarge]) := by
  intro x
  refine ⟨result_decode_eq_tooLarge_iff, ?_⟩
  intro hlarge
  have hadvance := (result_decode d table chunk).symm.trans hlarge
  obtain ⟨v, hv⟩ := exists_firstVisit_of_tooLarge hadvance
  obtain ⟨hresult, hevents⟩ := advance_of_firstVisit? hv
  obtain ⟨between, w, hpasses, hw, hloop⟩ :=
    Visit.exists_passes_of_loop_eq_tooLarge (hresult.symm.trans hadvance)
  refine ⟨v, between, w, hv, hpasses, hpasses.reported, hw, Visit.events_of_tooLarge hw, ?_⟩
  rw [← hloop, ← hevents]
  exact events_decode d table chunk

/-- Two fields of size 34, of which the limit lets the first through. The second is rejected when
the length of its name has been read. -/
example :
    let table : TableView := { get? := fun _ ↦ none, insertCount := 0, maxEntries := 0 }
    let x := (start 34).decode table [0x00, 0x00, 0x21, 0x61, 0x01, 0x62, 0x21]
    x.events = [.literalName ⟨[0x61], [0x62]⟩ false false false, .rejected .headerListTooLarge] ∧
      x.result = .error .headerListTooLarge := by
  cbv

end Decoder

/-! ## Blocked sections

A section that relies on insertions that have not been made is refused, and its octets are to be
decoded again when they have. Its Required Insert Count is sent as a remainder, so it is
reconstructed a second time, from a table with other numbers. That must give the same count.

It does as long as the entry that the section relies on last is live. Then not more than that entry
and what has been inserted since is in the table, and what is in a table is at most its greatest
number of entries. So the count is still in the range of counts that its remainder stands for. -/

/-! ### The count -/

namespace DynamicTable

variable {history : List Field} {t : DynamicTable} {count : Nat}

/-- A count whose last entry is live is one that its remainder stands for. -/
theorem Tracks.inRange (h : Tracks history t) (hcount : 0 < count) (hle : count ≤ t.insertCount)
    (hlive : (t.get? (count - 1)).isSome) :
    SectionPrefix.InRange t.maxEntries t.insertCount count := by
  have hkept : t.evicted ≤ count - 1 := by
    have hne : t.get? (count - 1) ≠ none := Option.isSome_iff_ne_none.mp hlive
    rw [ne_eq, h.get?_eq_none_iff, Decidable.not_not] at hne
    exact hne.1
  have hsum := h.insertCount_eq
  have hentries := h.length_entries_le
  exact ⟨by omega, by omega⟩

theorem maxEntries_run (t : DynamicTable) (ops : List Operation) :
    (t.run ops).maxEntries = t.maxEntries := by
  rw [maxEntries, maxEntries, t.maxCapacity_run]

/-- A prefix that a table has read is read again from a later table, if what it relies on has been
inserted and the last of that is live. -/
theorem Tracks.read_run (h : Tracks history t) {p : SectionPrefix} {input : Bytes}
    (hread : (SectionPrefix.Reader.fresh.read t.view input).result = .ok (some p))
    (hcount : 0 < p.requiredInsertCount) (ops : List Operation)
    (hle : p.requiredInsertCount ≤ (t.run ops).insertCount)
    (hlive : ((t.run ops).get? (p.requiredInsertCount - 1)).isSome) :
    SectionPrefix.Reader.fresh.read (t.run ops).view input =
      SectionPrefix.Reader.fresh.read t.view input := by
  refine SectionPrefix.Reader.read_fresh_of_reconstruct hread ?_
  have hrange := (h.run ops).inRange hcount hle hlive
  have hmax : t.view.maxEntries = (t.run ops).view.maxEntries := (t.maxEntries_run ops).symm
  rw [hmax]
  exact SectionPrefix.reconstruct_encodeInsertCount (.inr hrange)

end DynamicTable

namespace Decoder

/-! ### What blocks a section -/

variable {d : Decoder} {table : TableView} {p : SectionPrefix}

private theorem Visit.result_reading_ne_wouldBlock (v : Visit) :
    v.reading.result ≠ .error .dynamicTableWouldBlock := by
  intro h
  cases FieldLine.Reader.call_read v.ctx v.line v.input with
  | unfinished _ hx => exact absurd (hx.cause _ h) (by decide)
  | reported line rest e field _ _ _ _ hx =>
    obtain ⟨notes, hx⟩ := hx
    exact absurd h (by simp [reading, hx])
  | tooLarge line rest e field _ _ _ _ hx =>
    obtain ⟨r', notes, hx⟩ := hx
    exact absurd h (by simp [reading, hx])
  | missing line rest addressing index _ _ _ hx =>
    obtain ⟨r', notes, hx⟩ := hx
    rw [reading, hx] at h
    cases addressing <;> exact absurd h (by simp [Context.missing])

theorem result_resumeLines_ne_wouldBlock (ctx : Context) (line : FieldLine.Reader)
    (input : Bytes) : (resumeLines ctx line input).result ≠ .error .dynamicTableWouldBlock := by
  cases input with
  | nil =>
    rw [resumeLines_nil]
    simp
  | cons first rest =>
    rw [Visit.resumeLines_of_first? rfl]
    intro h
    obtain ⟨w, -, hw⟩ := Visit.exists_visit_of_loop_eq_error h
    exact w.result_reading_ne_wouldBlock hw

/-- Only a prefix blocks a section, and it does so before any line is read. -/
theorem exists_blocked {chunk : Bytes}
    (h : (d.advance table chunk).result = .error .dynamicTableWouldBlock) :
    ∃ reader p, d.phase = .opening reader ∧
      (reader.read table chunk).result = .ok (some p) ∧
      table.insertCount < p.requiredInsertCount ∧ (d.advance table chunk).events = [] := by
  rcases hlines : d.linesOf? table chunk with _ | ⟨p, line, input⟩
  · obtain ⟨reader, hphase, hread | ⟨p, hread, hblocked, -⟩⟩ := cause_of_linesOf?_eq_none hlines h
    · exact absurd (SectionPrefix.Reader.cause_read hread) (by decide)
    · exact ⟨reader, p, hphase, hread, hblocked, (advance_of_linesOf?_eq_none hlines).1⟩
  · obtain ⟨notes, hadvance⟩ := advance_of_linesOf? hlines
    rw [hadvance] at h
    exact absurd h (result_resumeLines_ne_wouldBlock _ line input)

/-- However its chunks are cut, a section is blocked if one call on all of them is. -/
theorem result_run_start_eq_wouldBlock_iff {limit : Nat} {chunks : List Bytes} :
    ((start limit).run table chunks).result = .error .dynamicTableWouldBlock ↔
      ((start limit).advance table chunks.flatten).result = .error .dynamicTableWouldBlock := by
  rcases result_run_start limit table chunks with heq | ⟨hlarge, hcode, -⟩
  · rw [heq]
  · rw [hlarge, hcode]
    simp

private theorem decoder_run_of_failed {chunks : List Bytes}
    (h : Failed (d.run table chunks).result) :
    (d.run table chunks).decoder = start d.size.limit := by
  induction chunks generalizing d with
  | nil => exact absurd h (by simp [run])
  | cons chunk chunks ih =>
    rcases hfirst : (d.advance table chunk).result with cause | _
    · rw [run_of_error hfirst]
      exact decoder_decode_of_failed (by rw [result_decode, hfirst]; exact failed_error _)
    · rw [run_of_ok hfirst] at h ⊢
      exact (ih h).trans (by rw [limit_advance])

/-! ### What opens a section -/

/-- One of the chunks completes the prefix, and the prefix is accepted. What the lines come to that
follow in the same chunk is left open. -/
inductive Opens (table : TableView) (p : SectionPrefix) : Decoder → List Bytes → Prop
  /-- The next chunk completes the prefix. -/
  | here {d : Decoder} {chunk : Bytes} {chunks : List Bytes} (hbefore : d.sectionPrefix? = none)
    (hafter : (d.advance table chunk).decoder.sectionPrefix? = some p) :
    Opens table p d (chunk :: chunks)
  /-- The next chunk ends within the prefix. -/
  | later {d : Decoder} {chunk : Bytes} {chunks : List Bytes}
    (hok : (d.advance table chunk).result = .ok ())
    (h : Opens table p (d.advance table chunk).decoder chunks) : Opens table p d (chunk :: chunks)

/-- **Acceptance.** A section opens with the prefix that its octets hold, if the table has what that
requires. -/
theorem opens_of_read {reader : SectionPrefix.Reader} {chunks : List Bytes}
    (hphase : d.phase = .opening reader) (hpending : (reader.read table []).result = .ok none)
    (hread : (reader.read table chunks.flatten).result = .ok (some p))
    (hcount : p.requiredInsertCount ≤ table.insertCount) : Opens table p d chunks := by
  induction chunks generalizing d reader with
  | nil =>
    rw [List.flatten_nil, hpending] at hread
    exact absurd hread (by simp)
  | cons chunk chunks ih =>
    rw [List.flatten_cons, reader.read_append] at hread
    rcases ho : (reader.read table chunk).result with cause | _ | p'
    · simp [Outcome.resume, ho] at hread
    · simp only [Outcome.resume, ho] at hread
      have hnil := (SectionPrefix.Reader.resumable_read table).read_nil ho
      refine .later (by simp [advance, hphase, ho]) ?_
      exact ih (by simp [advance, hphase, ho]) (by rw [hnil]) hread
    · obtain rfl : p' = p := by simpa [Outcome.resume, ho] using hread
      refine .here (by simp [sectionPrefix?, hphase]) ?_
      simp [advance, hphase, ho, Nat.not_lt.mpr hcount, decodeLines, sectionPrefix?]

private theorem result_run_start_ne_wouldBlock {limit : Nat} {chunks : List Bytes}
    (hread : (SectionPrefix.Reader.fresh.read table chunks.flatten).result = .ok (some p))
    (hcount : p.requiredInsertCount ≤ table.insertCount) :
    ((start limit).run table chunks).result ≠ .error .dynamicTableWouldBlock := by
  intro h
  obtain ⟨reader, p', hphase, hread', hblocked, -⟩ :=
    exists_blocked (result_run_start_eq_wouldBlock_iff.mp h)
  obtain rfl : SectionPrefix.Reader.fresh = reader := by simpa [start] using hphase
  obtain rfl : p' = p := by simpa [hread] using hread'.symm
  exact absurd hcount (Nat.not_le.mpr hblocked)

end Decoder

/-- **Retrying a blocked section.** Suppose that the chunks of a section are decoded until that
fails because the table is behind. Then nothing was reported, the decoder has seen nothing, and the
octets hold a prefix that requires more than has been inserted. Whatever is then done to the table:
once what the prefix requires has been inserted, and as long as the last of that is live, decoding
the same octets again, cut in the same way or in another, accepts the same prefix and is not
blocked. -/
theorem Settings.retry_blocked (s : Settings) (ops : List DynamicTable.Operation)
    (chunks : List Bytes)
    (hblocked : (s.decoder.run (s.table.run ops).view chunks).result =
      .error .dynamicTableWouldBlock) :
    let t := s.table.run ops
    let d := (s.decoder.run t.view chunks).decoder
    (s.decoder.run t.view chunks).events = [] ∧ d = s.decoder ∧
      ∃ p, (SectionPrefix.Reader.fresh.read t.view chunks.flatten).result = .ok (some p) ∧
        t.insertCount < p.requiredInsertCount ∧
        ∀ (ops' : List DynamicTable.Operation) (chunks' : List Bytes),
          p.requiredInsertCount ≤ (t.run ops').insertCount →
          ((t.run ops').get? (p.requiredInsertCount - 1)).isSome →
          chunks'.flatten = chunks.flatten →
          Decoder.Opens (t.run ops').view p d chunks' ∧
            (d.run (t.run ops').view chunks').result ≠ .error .dynamicTableWouldBlock := by
  intro t d
  have htracks : DynamicTable.Tracks _ t := (DynamicTable.tracks_empty s.maxTableCapacity).run ops
  have hstart : d = s.decoder :=
    Decoder.decoder_run_of_failed (hblocked ▸ failed_error .dynamicTableWouldBlock)
  obtain ⟨reader, p, hphase, hread, hcount, hevents⟩ :=
    Decoder.exists_blocked (Decoder.result_run_start_eq_wouldBlock_iff.mp hblocked)
  obtain rfl : SectionPrefix.Reader.fresh = reader := by simpa [Decoder.start] using hphase
  refine ⟨?_, hstart, p, hread, hcount, ?_⟩
  · have hrun := Decoder.events_run t.view s.decoder chunks
    rw [Settings.decoder, Decoder.callbacks_run_start, hevents] at hrun
    rw [Settings.decoder, hrun]
    rw [Settings.decoder] at hblocked
    rw [hblocked]
    rfl
  · intro ops' chunks' hle hlive hflatten
    have hagain : (SectionPrefix.Reader.fresh.read (t.run ops').view chunks'.flatten).result =
        .ok (some p) := by
      rw [hflatten, htracks.read_run hread (Nat.zero_lt_of_lt hcount) ops' hle hlive, hread]
    rw [hstart]
    exact ⟨Decoder.opens_of_read rfl rfl hagain hle,
      Decoder.result_run_start_ne_wouldBlock hagain hle⟩

/-- A section that is blocked for want of an insertion, and decoded octet by octet when two have
been made. -/
theorem Settings.retry_blocked_two_insertions :
    let s : Settings := { maxTableCapacity := 68 }
    let t := s.table.run [.setCapacity 68]
    let t' := t.run [.insert ⟨[97], [98]⟩, .insert ⟨[99], [100]⟩]
    (s.decoder.run t.view [[0x02, 0x00, 0x80]]).result = .error .dynamicTableWouldBlock ∧
      Decoder.Opens t'.view ⟨1, 1⟩ (s.decoder.run t.view [[0x02, 0x00, 0x80]]).decoder
        [[0x02], [0x00], [0x80]] := by
  intro s t t'
  have hblocked : (s.decoder.run t.view [[0x02, 0x00, 0x80]]).result =
      .error .dynamicTableWouldBlock := by cbv
  obtain ⟨-, -, p, hread, -, hretry⟩ := s.retry_blocked _ _ hblocked
  have hp : (SectionPrefix.Reader.fresh.read t.view [[0x02, 0x00, 0x80]].flatten).result =
      .ok (some ⟨1, 1⟩) := by cbv
  obtain rfl : p = ⟨1, 1⟩ := by simpa using hread.symm.trans hp
  have hcount : t'.insertCount = 2 := by cbv
  have hlive : t'.get? 0 = some ⟨[97], [98]⟩ := by cbv
  have hopens := hretry [.insert ⟨[97], [98]⟩, .insert ⟨[99], [100]⟩] [[0x02], [0x00], [0x80]]
    (Nat.le_of_lt (hcount ▸ Nat.one_lt_two)) (Option.isSome_of_eq_some hlive) rfl
  exact ⟨hblocked, hopens.1⟩

end FieldCompression
