import FieldCompression.Proofs.Fragmentation.Items

/-!
# What reading a prefix can come to

A prefix is refused for one of three causes, and being blocked is not among them: whether a section
must wait is decided after its prefix has been read.

A prefix that is accepted was spelled by the two numbers that encode it. So the only thing in which
reading it depends on the table is the reconstruction of the count: another table that reconstructs
the same count from the encoding reads the same prefix.
-/

namespace FieldCompression.SectionPrefix

/-! ## Causes -/

theorem reconstruct_eq_error {encoded maxEntries insertCount : Nat} {cause : Error}
    (h : reconstruct encoded maxEntries insertCount = .error cause) :
    cause = .invalidDynamicTableIndex := by
  have hnonzero {count : Nat} (h : nonzero count = .error cause) :
      cause = .invalidDynamicTableIndex := by
    rw [nonzero] at h
    split at h
    · exact (Except.error.inj h).symm
    · exact absurd h (by simp)
  simp only [reconstruct] at h
  split at h
  · exact absurd h (by simp)
  split at h
  · exact (Except.error.inj h).symm
  split at h
  · exact hnonzero h
  split at h
  · exact (Except.error.inj h).symm
  · exact hnonzero h

theorem baseOf_eq_error {count delta : Nat} {negative : Bool} {cause : Error}
    (h : baseOf count negative delta = .error cause) : cause = .invalidDynamicTableIndex := by
  rw [baseOf] at h
  split at h
  · split at h
    · exact absurd h (by simp)
    · exact (Except.error.inj h).symm
  · split at h
    · exact absurd h (by simp)
    · exact (Except.error.inj h).symm

namespace Reader

theorem cause_readDelta {count : Nat} {negative : Bool} {int : PrefixedInteger.Reader}
    {input : Bytes} {cause : Error}
    (h : (readDelta count negative int input).result = .error cause) :
    cause ∈ [.integerOverflow, .invalidState, .invalidDynamicTableIndex] := by
  simp only [readDelta] at h
  rcases hint : (int.read input).result with cause' | _ | distance
  · obtain rfl : cause' = cause := by simpa [hint] using h
    rcases PrefixedInteger.Reader.cause_read hint with rfl | rfl <;> decide
  · simp [hint] at h
  · simp only [hint] at h
    rcases hbase : baseOf count negative distance with cause' | base
    · obtain rfl : cause' = cause := by simpa [hbase] using h
      rw [baseOf_eq_error hbase]
      decide
    · simp [hbase] at h

private theorem cause_readSign {count : Nat} {input : Bytes} {cause : Error}
    (h : (readSign count input).result = .error cause) :
    cause ∈ [.integerOverflow, .invalidState, .invalidDynamicTableIndex] := by
  cases input with
  | nil => exact absurd h (by simp [readSign])
  | cons byte rest => exact cause_readDelta h

theorem cause_read {r : Reader} {table : TableView} {input : Bytes} {cause : Error}
    (h : (r.read table input).result = .error cause) :
    cause ∈ [.integerOverflow, .invalidState, .invalidDynamicTableIndex] := by
  cases r with
  | insertCount int =>
    simp only [read] at h
    rcases hint : (int.read input).result with cause' | _ | encoded
    · obtain rfl : cause' = cause := by simpa [hint] using h
      rcases PrefixedInteger.Reader.cause_read hint with rfl | rfl <;> decide
    · simp [hint] at h
    · simp only [hint] at h
      rcases hcount : reconstruct encoded table.maxEntries table.insertCount with cause' | count
      · obtain rfl : cause' = cause := by simpa [hcount] using h
        rw [reconstruct_eq_error hcount]
        decide
      · simp only [hcount] at h
        exact cause_readSign h
  | sign count => exact cause_readSign h
  | delta count negative int => exact cause_readDelta h
  | done value => exact absurd h (by simp [read])

end Reader

/-! ## The number that was sent -/

theorem nonzero_eq_ok_iff {count count' : Nat} :
    nonzero count = .ok count' ↔ count' = count ∧ count ≠ 0 := by
  rw [nonzero]
  split
  · simp [*]
  · simp [*, eq_comm]

/-- **Counts written back.** A count is only reconstructed from its own encoding. -/
theorem eq_encodeInsertCount_of_reconstruct {encoded maxEntries insertCount count : Nat}
    (h : reconstruct encoded maxEntries insertCount = .ok count) :
    encoded = encodeInsertCount maxEntries count := by
  simp only [reconstruct] at h
  split at h
  · rename_i hzero
    obtain rfl := Except.ok.inj h
    rw [hzero]
    rfl
  rename_i hsent
  split at h
  · exact absurd h (by simp)
  rename_i hrange
  -- what is left when whole ranges are taken off is the encoding less one
  obtain ⟨k, hk, hcount⟩ : ∃ k, count = encoded - 1 + k * fullRange maxEntries ∧ count ≠ 0 := by
    split at h
    · obtain ⟨rfl, hne⟩ := nonzero_eq_ok_iff.mp h
      refine ⟨maxValue maxEntries insertCount / fullRange maxEntries, ?_, hne⟩
      rw [candidate]
      omega
    split at h
    · exact absurd h (by simp)
    · rename_i hbeyond
      obtain ⟨rfl, hne⟩ := nonzero_eq_ok_iff.mp h
      refine ⟨maxValue maxEntries insertCount / fullRange maxEntries - 1, ?_, hne⟩
      rw [candidate] at hbeyond ⊢
      generalize maxValue maxEntries insertCount / fullRange maxEntries = q at hbeyond ⊢
      cases q with
      | zero => omega
      | succ q =>
        rw [Nat.succ_mul, Nat.add_sub_cancel]
        omega
  rw [encodeInsertCount, if_neg hcount, hk, Nat.add_mul_mod_self_right,
    Nat.mod_eq_of_lt (by omega)]
  omega

namespace Reader

variable {table : TableView} {count : Nat} {negative : Bool} {int : PrefixedInteger.Reader}
  {input : Bytes} {p : SectionPrefix}

private theorem readDelta_eq_some (h : (readDelta count negative int input).result = .ok (some p)) :
    p.requiredInsertCount = count ∧
      (readDelta count negative int input).rest = (int.read input).rest ∧
      ∃ distance, (int.read input).result = .ok (some distance) ∧
        baseOf count negative distance = .ok p.base := by
  simp only [readDelta] at h ⊢
  rcases hint : (int.read input).result with cause | _ | distance
  · simp [hint] at h
  · simp [hint] at h
  · simp only [hint] at h
    rcases hbase : baseOf count negative distance with cause | base
    · simp [hbase] at h
    · obtain rfl : _ = p := by simpa [hbase] using h
      simp [hbase]

theorem readSign_eq_some (h : (readSign count input).result = .ok (some p)) :
    ∃ byte rest, input = byte :: rest ∧ p.requiredInsertCount = count ∧
      (readSign count input).rest = ((PrefixedInteger.Reader.start 7).read input).rest ∧
      ∃ distance, ((PrefixedInteger.Reader.start 7).read input).result = .ok (some distance) ∧
        baseOf count (flagAt byte 7) distance = .ok p.base := by
  cases input with
  | nil => exact absurd h (by simp [readSign])
  | cons byte rest => exact ⟨byte, rest, rfl, readDelta_eq_some h⟩

/-- What a prefix was read from: the encoded count, and the sign and the distance after it. -/
theorem read_fresh_eq_some (h : (fresh.read table input).result = .ok (some p)) :
    ∃ encoded, ((PrefixedInteger.Reader.start 8).read input).result = .ok (some encoded) ∧
      reconstruct encoded table.maxEntries table.insertCount = .ok p.requiredInsertCount ∧
      fresh.read table input =
        readSign p.requiredInsertCount ((PrefixedInteger.Reader.start 8).read input).rest := by
  simp only [fresh, read] at h ⊢
  rcases hint : ((PrefixedInteger.Reader.start 8).read input).result with cause | _ | encoded
  · simp [hint] at h
  · simp [hint] at h
  · simp only [hint] at h
    rcases hcount : reconstruct encoded table.maxEntries table.insertCount with cause | count
    · simp [hcount] at h
    · simp only [hcount] at h
      obtain ⟨_, _, _, hsame, -⟩ := readSign_eq_some h
      refine ⟨encoded, rfl, ?_, ?_⟩
      · rw [hcount, hsame]
      · simp only [hcount, hsame]

/-- **Prefixes read again.** A table that reconstructs the same count reads the same prefix. -/
theorem read_fresh_of_reconstruct {table' : TableView}
    (h : (fresh.read table input).result = .ok (some p))
    (hcount : reconstruct (encodeInsertCount table.maxEntries p.requiredInsertCount)
      table'.maxEntries table'.insertCount = .ok p.requiredInsertCount) :
    fresh.read table' input = fresh.read table input := by
  obtain ⟨encoded, hint, hfirst, hread⟩ := read_fresh_eq_some h
  rw [← eq_encodeInsertCount_of_reconstruct hfirst] at hcount
  rw [hread]
  simp only [fresh, read, hint, hcount]

end Reader

end FieldCompression.SectionPrefix
