import FieldCompression.Proofs.Interop.Replays

/-!
# How far a recording is replayed

A recording is a sequence of records, and it may have been cut off while it was written. So any
octets are the forms of some records and then a part of one more, the tail, and there is one way
only to see them like this (`Record.exists_splits`, `Record.Splits.unique`). Unless a record fails,
a replay processes these records, in order, and then it is the tail that decides how it ends.

## The tail

A tail of eight octets or more has the number of a stream, so the record that it begins is known to
be there and to be cut off. A shorter tail is passed over, as if the recording ended before it. It
need not be empty, and so a recording that was cut off within the number of a stream is replayed
without a failure (`shortened_recording`).
-/

namespace FieldCompression.Interop

/-! ## Numbers -/

theorem bigEndian_concat (octets : Bytes) (octet : UInt8) :
    bigEndian (octets ++ [octet]) = bigEndian octets * 256 + octet.toNat := by
  rw [bigEndian, List.foldl_append]
  rfl

theorem bigEndianOctets_succ (count value : Nat) :
    bigEndianOctets (count + 1) value =
      bigEndianOctets count (value / 256) ++ [UInt8.ofNat value] := by
  induction count with
  | zero => rfl
  | succ count ih =>
    have hshift : value >>> (8 * (count + 1)) = (value / 256) >>> (8 * count) :=
      calc value >>> (8 * (count + 1))
        _ = value >>> (8 + 8 * count) := by rw [Nat.mul_succ, Nat.add_comm]
        _ = value >>> 8 >>> (8 * count) := Nat.shiftRight_add value 8 _
        _ = (value / 256) >>> (8 * count) := by rw [show value >>> 8 = value / 256 by omega]
    rw [bigEndianOctets, ih, hshift, bigEndianOctets, List.cons_append]

theorem length_bigEndianOctets (count value : Nat) :
    (bigEndianOctets count value).length = count := by
  induction count with
  | zero => rfl
  | succ count ih => rw [bigEndianOctets, List.length_cons, ih]

theorem one_shiftLeft_eight_mul_succ (count : Nat) :
    1 <<< (8 * (count + 1)) = 1 <<< (8 * count) * 256 := by
  rw [Nat.mul_succ, Nat.shiftLeft_add]
  exact Nat.shiftLeft_eq _ 8

theorem bigEndian_bigEndianOctets {count value : Nat} (h : value < 1 <<< (8 * count)) :
    bigEndian (bigEndianOctets count value) = value := by
  induction count generalizing value with
  | zero =>
    obtain rfl : value = 0 := Nat.lt_one_iff.mp h
    rfl
  | succ count ih =>
    rw [one_shiftLeft_eight_mul_succ] at h
    rw [bigEndianOctets_succ, bigEndian_concat, ih (by omega), UInt8.toNat_ofNat']
    omega

/-- Octets have a number that is not too great for them, and they are the octets of that number. -/
theorem bigEndianOctets_bigEndian (octets : Bytes) :
    bigEndian octets < 1 <<< (8 * octets.length) ∧
      bigEndianOctets octets.length (bigEndian octets) = octets := by
  induction hlength : octets.length generalizing octets with
  | zero =>
    obtain rfl := List.length_eq_zero_iff.mp hlength
    exact ⟨by decide, rfl⟩
  | succ count ih =>
    obtain rfl | ⟨octets, last, rfl⟩ := List.eq_nil_or_concat octets
    · exact absurd hlength (by simp)
    rw [List.concat_eq_append] at hlength ⊢
    have hlast := last.toNat_lt
    obtain ⟨hlt, hoctets⟩ := ih octets (by simpa using hlength)
    rw [bigEndian_concat, one_shiftLeft_eight_mul_succ, bigEndianOctets_succ]
    refine ⟨by omega, ?_⟩
    rw [show (bigEndian octets * 256 + last.toNat) / 256 = bigEndian octets by omega, hoctets]
    congr 2
    rw [← UInt8.toNat_inj, UInt8.toNat_ofNat']
    omega

/-! ## Records -/

namespace Record

/-- A record that has a form: its numbers are not too great for their octets. -/
structure Fits (r : Record) : Prop where
  /-- The stream has a number of 8 octets. -/
  stream : r.stream < 1 <<< (8 * 8)
  /-- The length is a number of 4 octets. -/
  length : r.payload.length < 1 <<< (8 * 4)

variable {r : Record} {recording rest tail : Bytes} {records : List Record}

theorem read_append {stream count : Bytes} (hstream : stream.length = 8) (hcount : count.length = 4)
    (body : Bytes) :
    read (stream ++ (count ++ body)) =
      if body.length < bigEndian count then .truncated
      else
        .record ⟨bigEndian stream, body.take (bigEndian count)⟩ (body.drop (bigEndian count)) := by
  have hlong : ¬(stream ++ (count ++ body)).length < 8 := by
    rw [List.length_append]
    omega
  have hmore : ¬(count ++ body).length < 4 := by
    rw [List.length_append]
    omega
  rw [read, if_neg hlong, List.take_left' hstream, List.drop_left' hstream]
  simp only [if_neg hmore, List.take_left' hcount, List.drop_left' hcount]

theorem exists_numbers (h : 12 ≤ recording.length) :
    ∃ stream count body, recording = stream ++ (count ++ body) ∧ stream.length = 8 ∧
      count.length = 4 := by
  refine ⟨recording.take 8, (recording.drop 8).take 4, (recording.drop 8).drop 4, ?_, ?_, ?_⟩
  · rw [List.take_append_drop, List.take_append_drop]
  · rw [List.length_take]
    omega
  · rw [List.length_take, List.length_drop]
    omega

theorem read_eq_ended_iff : read recording = .ended ↔ recording.length < 8 := by
  constructor
  · intro h
    rw [read] at h
    split at h
    · assumption
    · dsimp only at h
      split at h
      · exact absurd h (by simp)
      · split at h <;> exact absurd h (by simp)
  · intro h
    rw [read, if_pos h]

private theorem read_eq_truncated (hstream : 8 ≤ recording.length)
    (hcount : recording.length < 12) : read recording = .truncated := by
  have hshort : (recording.drop 8).length < 4 := by
    rw [List.length_drop]
    omega
  rw [read, if_neg (Nat.not_lt.mpr hstream)]
  exact if_pos hshort

theorem read_encode (h : r.Fits) (rest : Bytes) : read (r.encode ++ rest) = .record r rest := by
  have hstream := length_bigEndianOctets 8 r.stream
  have hcount := length_bigEndianOctets 4 r.payload.length
  rw [encode, List.append_assoc, List.append_assoc, read_append hstream hcount,
    bigEndian_bigEndianOctets h.stream, bigEndian_bigEndianOctets h.length, if_neg (by simp),
    List.take_left, List.drop_left]

theorem eq_encode_of_read (h : read recording = .record r rest) :
    r.Fits ∧ recording = r.encode ++ rest := by
  have hlong : 12 ≤ recording.length := by
    rw [← Nat.not_lt]
    intro hshort
    rcases Nat.lt_or_ge recording.length 8 with hstream | hstream
    · exact absurd ((read_eq_ended_iff.mpr hstream).symm.trans h) (by simp)
    · exact absurd ((read_eq_truncated hstream hshort).symm.trans h) (by simp)
  obtain ⟨stream, count, body, rfl, hstream, hcount⟩ := exists_numbers hlong
  rw [read_append hstream hcount] at h
  split at h
  · exact absurd h (by simp)
  rename_i hbody
  obtain ⟨rfl, rfl⟩ := Front.record.inj h
  have hlength : (body.take (bigEndian count)).length = bigEndian count := by
    rw [List.length_take]
    omega
  obtain ⟨hstreamFits, hstreamOctets⟩ := bigEndianOctets_bigEndian stream
  obtain ⟨hcountFits, hcountOctets⟩ := bigEndianOctets_bigEndian count
  rw [hstream] at hstreamFits hstreamOctets
  rw [hcount] at hcountFits hcountOctets
  refine ⟨⟨hstreamFits, by rwa [hlength]⟩, ?_⟩
  rw [encode, hlength, hstreamOctets, hcountOctets, List.append_assoc, List.append_assoc,
    List.take_append_drop]

/-! ### Records that are cut off -/

/-- The beginning of a record that is not all of it. -/
def CutOff (tail : Bytes) : Prop :=
  ∃ r : Record, r.Fits ∧ ∃ missing, missing ≠ [] ∧ r.encode = tail ++ missing

theorem CutOff.not_record (h : CutOff tail) (r : Record) (rest : Bytes) :
    read tail ≠ .record r rest := by
  obtain ⟨whole, hwhole, missing, hmissing, htail⟩ := h
  intro hread
  obtain ⟨hr, rfl⟩ := eq_encode_of_read hread
  -- what is missing would be left after a record that is all there
  have hall := read_encode hwhole []
  rw [List.append_nil, htail, List.append_assoc, read_encode hr] at hall
  obtain ⟨-, hnil⟩ := Front.record.inj hall
  exact hmissing (List.append_eq_nil_iff.mp hnil).2

/-- If the numbers are there, and not more octets than there should be, some octets complete the
record. -/
theorem exists_missing {stream count body : Bytes} (hstream : stream.length = 8)
    (hcount : count.length = 4) (hbody : body.length ≤ bigEndian count) :
    ∃ r missing, missing.length = bigEndian count - body.length ∧
      read (stream ++ (count ++ body) ++ missing) = .record r [] := by
  let missing : Bytes := List.replicate (bigEndian count - body.length) 0
  have hmissing : missing.length = bigEndian count - body.length := List.length_replicate
  have hlength : (body ++ missing).length = bigEndian count := by
    rw [List.length_append, hmissing]
    omega
  refine ⟨⟨bigEndian stream, body ++ missing⟩, missing, hmissing, ?_⟩
  rw [List.append_assoc, List.append_assoc, read_append hstream hcount, if_neg (by omega),
    List.take_of_length_le (by omega), List.drop_of_length_le (by omega)]

private theorem cutOff_of_completion {missing : Bytes} (hmissing : missing ≠ [])
    (h : read (tail ++ missing) = .record r []) : CutOff tail := by
  obtain ⟨hr, hencode⟩ := eq_encode_of_read h
  rw [List.append_nil] at hencode
  exact ⟨r, hr, missing, hmissing, hencode.symm⟩

private theorem cutOff_of_not_record (h : ∀ r rest, read tail ≠ .record r rest) : CutOff tail := by
  rcases Nat.lt_or_ge tail.length 12 with hshort | hlong
  · -- zeros complete the numbers
    let zeros : Bytes := List.replicate (12 - tail.length) 0
    have hzeros : zeros.length = 12 - tail.length := List.length_replicate
    have hnumbers : (tail ++ zeros).length = 12 := by
      rw [List.length_append, hzeros]
      omega
    obtain ⟨stream, count, body, hfront, hstream, hcount⟩ :=
      exists_numbers (Nat.le_of_eq hnumbers.symm)
    have hbody : body.length ≤ bigEndian count := by
      rw [hfront, List.length_append, List.length_append] at hnumbers
      omega
    obtain ⟨r, missing, -, hread⟩ := exists_missing hstream hcount hbody
    rw [← hfront, List.append_assoc] at hread
    refine cutOff_of_completion ?_ hread
    intro hnil
    rw [(List.append_eq_nil_iff.mp hnil).1, List.length_nil] at hzeros
    omega
  · obtain ⟨stream, count, body, rfl, hstream, hcount⟩ := exists_numbers hlong
    have hbody : body.length < bigEndian count := by
      rw [← Nat.not_le]
      intro hall
      exact h _ _ ((read_append hstream hcount body).trans (if_neg (Nat.not_lt.mpr hall)))
    obtain ⟨r, missing, hmissing, hread⟩ := exists_missing hstream hcount (Nat.le_of_lt hbody)
    refine cutOff_of_completion ?_ hread
    rw [← List.length_pos_iff]
    omega

/-! ### Recordings -/

/-- A recording is the forms of some records, one after the other, and the tail, which is the
beginning of one more. -/
structure Splits (recording : Bytes) (records : List Record) (tail : Bytes) : Prop where
  /-- The records have forms. -/
  fits : ∀ r ∈ records, r.Fits
  /-- The recording is these forms and the tail. -/
  whole : recording = records.flatMap encode ++ tail
  /-- The tail is not all of a record. -/
  cutOff : CutOff tail

theorem splits_nil (h : CutOff tail) : Splits tail [] tail :=
  ⟨fun _ hr ↦ absurd hr List.not_mem_nil, rfl, h⟩

theorem Splits.cons (h : Splits rest records tail) (hr : r.Fits) :
    Splits (r.encode ++ rest) (r :: records) tail := by
  refine ⟨?_, ?_, h.cutOff⟩
  · rintro q (_ | ⟨_, hq⟩)
    · exact hr
    · exact h.fits q hq
  · rw [List.flatMap_cons, List.append_assoc, ← h.whole]

theorem Splits.read_cons (h : Splits recording (r :: records) tail) :
    ∃ rest, read recording = .record r rest ∧ Splits rest records tail := by
  refine ⟨records.flatMap encode ++ tail, ?_, ?_, rfl, h.cutOff⟩
  · rw [h.whole, List.flatMap_cons, List.append_assoc]
    exact read_encode (h.fits r List.mem_cons_self) _
  · intro q hq
    exact h.fits q (List.mem_cons_of_mem r hq)

theorem exists_splits (recording : Bytes) : ∃ records tail, Splits recording records tail := by
  induction hlength : recording.length using Nat.strongRecOn generalizing recording with
  | ind n ih =>
    by_cases hread : ∃ r rest, read recording = .record r rest
    · obtain ⟨r, rest, hread⟩ := hread
      obtain ⟨hr, heq⟩ := eq_encode_of_read hread
      obtain ⟨records, tail, hsplits⟩ := ih _ (hlength ▸ length_rest_of_read hread) rest rfl
      rw [heq]
      exact ⟨r :: records, tail, hsplits.cons hr⟩
    · refine ⟨[], recording, splits_nil (cutOff_of_not_record ?_)⟩
      intro r rest h
      exact hread ⟨r, rest, h⟩

theorem Splits.unique {records' : List Record} {tail' : Bytes} (h : Splits recording records tail)
    (h' : Splits recording records' tail') : records' = records ∧ tail' = tail := by
  induction records generalizing recording records' with
  | nil =>
    obtain _ | ⟨r', records'⟩ := records'
    · exact ⟨rfl, h'.whole.symm.trans h.whole⟩
    · obtain ⟨rest, hread, -⟩ := h'.read_cons
      rw [h.whole] at hread
      exact absurd hread (h.cutOff.not_record _ _)
  | cons r records ih =>
    obtain ⟨rest, hread, hrest⟩ := h.read_cons
    obtain _ | ⟨r', records'⟩ := records'
    · rw [h'.whole] at hread
      exact absurd hread (h'.cutOff.not_record _ _)
    · obtain ⟨rest', hread', hrest'⟩ := h'.read_cons
      obtain ⟨rfl, rfl⟩ := Front.record.inj (hread.symm.trans hread')
      obtain ⟨rfl, rfl⟩ := ih hrest hrest'
      exact ⟨rfl, rfl⟩

end Record

/-! ## Replays -/

namespace Session

open Record (Splits CutOff)

variable {settings : Settings} {records more : List Record} {reports : List Report} {s : Session}
  {recording input tail : Bytes}

/-- A replay gets to the tail, unless a record fails. -/
theorem reaches_or_failed (h : Reaches settings recording records reports s input)
    (hsplits : Splits input more tail) :
    (∃ reports' s', Reaches settings recording (records ++ more) reports' s' tail) ∨
      ∃ cause, (s.run input).failure? = some (.decoding cause) := by
  induction more generalizing records reports s input with
  | nil =>
    obtain rfl : input = tail := hsplits.whole
    rw [List.append_nil]
    exact .inl ⟨reports, s, h⟩
  | cons r more ih =>
    obtain ⟨rest, hread, hrest⟩ := hsplits.read_cons
    rcases hresult : (s.replay r).result with cause | _
    · exact .inr ⟨cause, failure?_run_of_failed hread hresult⟩
    · rw [List.append_cons, run_of_record hread hresult]
      exact ih (h.next hread hresult) hrest

theorem run_of_cutOff (s : Session) (h : CutOff tail) :
    s.run tail =
      if tail.length < 8 then ⟨none, s, s.blocked.map fun r ↦ .neverUnblocked r.stream⟩
      else ⟨some .truncated, s, []⟩ := by
  split
  · rename_i hshort
    exact run_of_ended (Record.read_eq_ended_iff.mpr hshort)
  · rename_i hlong
    refine run_of_truncated ?_
    rcases hread : Record.read tail with ⟨r, rest⟩ | _ | _
    · exact absurd hread (h.not_record r rest)
    · exact absurd (Record.read_eq_ended_iff.mp hread) hlong
    · rfl

end Session

theorem code_showRun (verbosity : Verbosity) (run : Session.Run) :
    (showRun verbosity run).code = 0 ↔ run.failure? = none := by
  rw [showRun]
  rcases run.failure? with _ | failure
  · simp
  · simp [Result.failed]

/-! ## The result -/

/-- **Recordings that are cut off.** Any recording is the forms of some records and a tail that is
the beginning of one more, in one way only. Unless one of these records fails, a replay processes
them, in order and no others. Then it ends without a failure if the tail has fewer than eight
octets, and otherwise the failure is that the recording ends too early, after everything that the
records gave. -/
theorem replayed_to_tail (verbosity : Verbosity) (capacity : Nat) (recording : Bytes) :
    let settings := settingsFor capacity
    let run := (Session.start settings).run recording
    let result := replayFile verbosity capacity (some recording)
    (∀ cause, run.failure? ≠ some (.decoding cause)) →
      ∃ records tail, Record.Splits recording records tail ∧
        (∀ records' tail', Record.Splits recording records' tail' →
          records' = records ∧ tail' = tail) ∧
        ∃ reports, Session.Reaches settings recording records reports run.session tail ∧
          (result.code = 0 ↔ tail.length < 8) ∧
          (8 ≤ tail.length →
            result = .failed Failure.truncated.text (printedBy reports)
              (reports.filterMap (Report.logLine? verbosity))) := by
  intro settings run result hfine
  obtain ⟨records, tail, hsplits⟩ := Record.exists_splits recording
  refine ⟨records, tail, hsplits, fun _ _ h ↦ hsplits.unique h, ?_⟩
  obtain ⟨reports, s, hreaches⟩ | ⟨cause, hcause⟩ := Session.reaches_or_failed .start hsplits
  · rw [List.nil_append] at hreaches
    have hrun : run = { s.run tail with reports := reports ++ (s.run tail).reports } :=
      Session.run_of_reaches hreaches
    have hend := s.run_of_cutOff hsplits.cutOff
    have hresult : result = showRun verbosity run := rfl
    refine ⟨reports, ?_, ?_, ?_⟩
    · have hsession : run.session = s := by
        rw [hrun, hend]
        split <;> rfl
      rwa [hsession]
    · rw [hresult, code_showRun, hrun, hend]
      split <;> simp_all
    · intro hlong
      rw [hresult, hrun, hend, if_neg (Nat.not_lt.mpr hlong), List.append_nil]
      rfl
  · exact absurd hcause (hfine cause)

/-- A recording of one record and of the number of a stream, without a length. -/
theorem replayed_to_tail_stream_number :
    let settings := settingsFor 4096
    let recording := Record.encode ⟨0, []⟩ ++ List.replicate 8 0
    let run := (Session.start settings).run recording
    (∀ cause, run.failure? ≠ some (.decoding cause)) ∧
      ∃ reports, Session.Reaches settings recording [⟨0, []⟩] reports run.session
          (List.replicate 8 0) ∧
        replayFile none 4096 (some recording) =
          .failed Failure.truncated.text (printedBy reports)
            (reports.filterMap (Report.logLine? none)) := by
  intro settings recording run
  have hfailure : ((Session.start (settingsFor 4096)).run
      (Record.encode ⟨0, []⟩ ++ List.replicate 8 0)).failure? = some .truncated := by cbv
  have hfine (cause : Error) : run.failure? ≠ some (.decoding cause) := by
    intro h
    exact absurd (hfailure.symm.trans h) (by simp)
  have hempty : Record.Fits ⟨0, []⟩ := ⟨by decide, by decide⟩
  have hcut : Record.CutOff (List.replicate 8 0) :=
    ⟨⟨0, []⟩, hempty, List.replicate 4 0, by decide, by decide⟩
  obtain ⟨records, tail, -, hunique, reports, hreaches, -, hlong⟩ :=
    replayed_to_tail none 4096 recording hfine
  obtain ⟨rfl, rfl⟩ := hunique _ _ ((Record.splits_nil hcut).cons hempty)
  exact ⟨hfine, reports, hreaches, hlong (by decide)⟩

/-- A recording that was cut off within the number of a stream is replayed without a failure. -/
theorem shortened_recording :
    let recording := Record.encode ⟨0, []⟩ ++ [0, 0, 0]
    let run := (Session.start (settingsFor 4096)).run recording
    (∀ cause, run.failure? ≠ some (.decoding cause)) ∧
      (replayFile none 4096 (some recording)).code = 0 ∧
      ¬∃ records : List Record, (∀ r ∈ records, r.Fits) ∧
        recording = records.flatMap Record.encode := by
  intro recording run
  have hfailure : ((Session.start (settingsFor 4096)).run
      (Record.encode ⟨0, []⟩ ++ [0, 0, 0])).failure? = none := by cbv
  refine ⟨?_, (code_showRun _ _).mpr hfailure, ?_⟩
  · intro cause h
    exact absurd (hfailure.symm.trans h) (by simp)
  · rintro ⟨records, hfits, hrecording⟩
    have hempty : Record.Fits ⟨0, []⟩ := ⟨by decide, by decide⟩
    have hcut : Record.CutOff [0, 0, 0] :=
      ⟨⟨0, []⟩, hempty, List.replicate 9 0, by decide, by decide⟩
    have hnone : Record.CutOff [] := ⟨⟨0, []⟩, hempty, List.replicate 12 0, by decide, by decide⟩
    -- there would be two ways to see the recording
    have hall : Record.Splits recording records [] := ⟨hfits, by rwa [List.append_nil], hnone⟩
    obtain ⟨-, htail⟩ := hall.unique ((Record.splits_nil hcut).cons hempty)
    exact absurd htail (by simp)

end FieldCompression.Interop
