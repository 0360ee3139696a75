import FieldCompression.Proofs.Integers.Readings

/-!
# Which prefixes are read

What reading the prefix of a section comes to is stated by the octets and the two numbers of the
table that it depends on: the first integer must stand for a count, and the second must lead from
that count to a Base that is a number of 64 bits.
-/

namespace FieldCompression.SectionPrefix

/-! ## Which insert counts are reconstructed

A Required Insert Count other than zero is sent as a remainder, so an encoding stands for every
count that has the remainder, and only the number of insertions tells them apart. `StandsFor` says
which of them is meant: the one in a range that has as many counts as there are remainders. It is
said without the steps by which `reconstruct` looks for it, and finding it and there being one are
the same.

The steps multiply, divide, add and subtract numbers that were sent by the peer. In machine words
each of these could be without a result. `reconstructInWords` makes the steps one at a time, and as
long as the number of insertions is three times the greatest number of entries away from what a word
can hold, every step has a result. -/

variable {encoded maxEntries insertCount count : Nat}

/-! ### The count that is meant -/

/-- The count that an encoding stands for. Only zero is sent as zero; any other count is in range,
and the encoding less one is its remainder. -/
def StandsFor (maxEntries insertCount encoded count : Nat) : Prop :=
  if encoded = 0 then count = 0
  else 0 < count ∧ InRange maxEntries insertCount count ∧
    count % (2 * maxEntries) + 1 = encoded

theorem standsFor_zero_iff : StandsFor maxEntries insertCount 0 count ↔ count = 0 := by
  rw [StandsFor, if_pos rfl]

theorem standsFor_iff_of_pos (h : 0 < encoded) :
    StandsFor maxEntries insertCount encoded count ↔
      0 < count ∧ InRange maxEntries insertCount count ∧
        count % (2 * maxEntries) + 1 = encoded := by
  rw [StandsFor, if_neg (Nat.pos_iff_ne_zero.mp h)]

private theorem standsFor_encodeInsertCount (h : count = 0 ∨ InRange maxEntries insertCount count) :
    StandsFor maxEntries insertCount (encodeInsertCount maxEntries count) count := by
  by_cases hzero : count = 0
  · subst hzero
    exact standsFor_zero_iff.mpr rfl
  · rw [encodeInsertCount, if_neg hzero, standsFor_iff_of_pos (Nat.succ_pos _), fullRange,
      Nat.mul_comm maxEntries]
    exact ⟨Nat.pos_of_ne_zero hzero, h.resolve_left hzero, rfl⟩

theorem StandsFor.eq_encodeInsertCount (h : StandsFor maxEntries insertCount encoded count) :
    encoded = encodeInsertCount maxEntries count := by
  rw [encodeInsertCount, fullRange, Nat.mul_comm maxEntries]
  rcases Nat.eq_zero_or_pos encoded with rfl | hsent
  · rw [standsFor_zero_iff.mp h, if_pos rfl]
  · obtain ⟨hpos, -, hmod⟩ := (standsFor_iff_of_pos hsent).mp h
    rw [if_neg (Nat.pos_iff_ne_zero.mp hpos), hmod]

theorem StandsFor.inRange (h : StandsFor maxEntries insertCount encoded count) :
    count = 0 ∨ InRange maxEntries insertCount count := by
  rcases Nat.eq_zero_or_pos encoded with rfl | hsent
  · exact .inl (standsFor_zero_iff.mp h)
  · exact .inr ((standsFor_iff_of_pos hsent).mp h).2.1

/-! ### Finding it -/

/-- The greatest possible count is less than one modulus beyond the multiple that the search starts
from. -/
theorem maxValue_lt (hrange : 0 < fullRange maxEntries) :
    maxValue maxEntries insertCount <
      maxValue maxEntries insertCount / fullRange maxEntries * fullRange maxEntries +
        fullRange maxEntries :=
  Nat.lt_div_mul_add hrange

theorem inRange_of_reconstruct (h : reconstruct encoded maxEntries insertCount = .ok count) :
    count = 0 ∨ InRange maxEntries insertCount count := by
  simp only [reconstruct] at h
  split at h
  · exact .inl (Except.ok.inj h).symm
  rename_i hsent
  split at h
  · exact absurd h (by simp)
  rename_i hrange
  have hlow := Nat.div_mul_le_self (maxValue maxEntries insertCount) (fullRange maxEntries)
  have hhigh := @maxValue_lt maxEntries insertCount (by omega)
  rw [candidate] at h
  rw [InRange]
  -- the first candidate lies less than one modulus below the greatest possible count, or above it;
  -- in the second case one modulus is taken off
  split at h
  · obtain ⟨rfl, -⟩ := nonzero_eq_ok_iff.mp h
    rw [maxValue, fullRange] at *
    omega
  split at h
  · exact absurd h (by simp)
  · obtain ⟨rfl, -⟩ := nonzero_eq_ok_iff.mp h
    rw [maxValue, fullRange] at *
    omega

/-- **What is found is what is meant**, and it is found if there is such a count. -/
theorem reconstruct_eq_ok_iff :
    reconstruct encoded maxEntries insertCount = .ok count ↔
      StandsFor maxEntries insertCount encoded count := by
  constructor
  · intro h
    rw [eq_encodeInsertCount_of_reconstruct h]
    exact standsFor_encodeInsertCount (inRange_of_reconstruct h)
  · intro h
    rw [h.eq_encodeInsertCount]
    exact reconstruct_encodeInsertCount h.inRange

theorem reconstruct_eq_error_iff :
    reconstruct encoded maxEntries insertCount = .error .invalidDynamicTableIndex ↔
      ∀ count, ¬StandsFor maxEntries insertCount encoded count := by
  simp only [← reconstruct_eq_ok_iff]
  rcases h : reconstruct encoded maxEntries insertCount with cause | count
  · simp [reconstruct_eq_error h]
  · simp

theorem StandsFor.unique {count' : Nat} (h : StandsFor maxEntries insertCount encoded count)
    (h' : StandsFor maxEntries insertCount encoded count') : count = count' :=
  Except.ok.inj ((reconstruct_eq_ok_iff.mpr h).symm.trans (reconstruct_eq_ok_iff.mpr h'))

/-! ### In machine words -/

/-- Reconstructs a count step by step in words of 64 bits; nothing if a step has no result. -/
def reconstructInWords (encoded maxEntries insertCount : Nat) : Option (Except Error Nat) :=
  if encoded = 0 then some (.ok 0)
  else do
    let range ← Word.mul? 64 maxEntries 2
    if range < encoded then some (.error .invalidDynamicTableIndex)
    else do
      let greatest ← Word.add? 64 insertCount maxEntries
      let wraps ← Word.div? greatest range
      let wrapped ← Word.mul? 64 wraps range
      let beyond ← Word.add? 64 wrapped encoded
      let count ← Word.sub? beyond 1
      if count ≤ greatest then some (nonzero count)
      else if count ≤ range then some (.error .invalidDynamicTableIndex)
      else do
        let earlier ← Word.sub? count range
        some (nonzero earlier)

/-- **Words suffice.** Every step has a result, and they come to the count or to the error. -/
theorem reconstructInWords_eq (hword : insertCount + 3 * maxEntries < wordBound) (encoded : Nat) :
    reconstructInWords encoded maxEntries insertCount =
      some (reconstruct encoded maxEntries insertCount) := by
  rw [reconstructInWords, reconstruct]
  by_cases hsent : encoded = 0
  · rw [if_pos hsent, if_pos hsent]
  rw [if_neg hsent, if_neg hsent, Word.mul?_of_lt (by omega), Option.bind_eq_bind,
    Option.bind_some, ← fullRange]
  by_cases hrange : fullRange maxEntries < encoded
  · rw [if_pos hrange, if_pos hrange]
  have hlow := Nat.div_mul_le_self (maxValue maxEntries insertCount) (fullRange maxEntries)
  have hgreatest : maxValue maxEntries insertCount < wordBound := by
    rw [maxValue]
    omega
  have hbeyond : maxValue maxEntries insertCount / fullRange maxEntries * fullRange maxEntries +
      encoded < wordBound := by
    rw [maxValue, fullRange] at *
    omega
  rw [if_neg hrange, if_neg hrange, Word.add?_of_lt hgreatest, Option.bind_some, ← maxValue,
    Word.div?_of_pos (by omega), Option.bind_some, Word.mul?_of_lt (by omega), Option.bind_some,
    Word.add?_of_lt hbeyond, Option.bind_some, Word.sub?_of_le (by omega), Option.bind_some,
    ← candidate]
  by_cases hfirst : candidate encoded maxEntries insertCount ≤ maxValue maxEntries insertCount
  · simp only [if_pos hfirst]
  by_cases hnone : candidate encoded maxEntries insertCount ≤ fullRange maxEntries
  · simp only [if_neg hfirst, if_pos hnone]
  · simp only [if_neg hfirst, if_neg hnone]
    rw [Word.sub?_of_le (by omega), Option.bind_some]

/-! ### The result -/

/-- **Required Insert Counts reconstructed exactly.** Zero is read as zero. What is read from any
other encoding is the one count in range that has the remainder, if there is one, and otherwise the
encoding is refused, as it always is by a table that can hold no entry. No step that leads there
lacks a result in words of 64 bits. So every count in range survives being encoded. -/
theorem reconstruct_exact (hword : insertCount + 3 * maxEntries < wordBound) (encoded : Nat) :
    let read := reconstruct encoded maxEntries insertCount
    reconstructInWords encoded maxEntries insertCount = some read ∧
      (encoded = 0 → read = .ok 0) ∧
      (∀ count, read = .ok count ↔ StandsFor maxEntries insertCount encoded count) ∧
      (∀ count count', StandsFor maxEntries insertCount encoded count →
        StandsFor maxEntries insertCount encoded count' → count = count') ∧
      (read = .error .invalidDynamicTableIndex ↔
        ∀ count, ¬StandsFor maxEntries insertCount encoded count) ∧
      (maxEntries = 0 → 0 < encoded → read = .error .invalidDynamicTableIndex) ∧
      ∀ count, 0 < count → InRange maxEntries insertCount count →
        reconstructInWords (encodeInsertCount maxEntries count) maxEntries insertCount =
          some (.ok count) := by
  intro read
  refine ⟨reconstructInWords_eq hword encoded, ?_, fun _ ↦ reconstruct_eq_ok_iff,
    fun _ _ h h' ↦ h.unique h', reconstruct_eq_error_iff, ?_, ?_⟩
  · rintro rfl
    exact reconstruct_eq_ok_iff.mpr (standsFor_zero_iff.mpr rfl)
  · rintro rfl hsent
    refine reconstruct_eq_error_iff.mpr fun count h ↦ ?_
    -- the range of counts is empty
    obtain ⟨-, ⟨hlow, hhigh⟩, -⟩ := (standsFor_iff_of_pos hsent).mp h
    omega
  · intro count _ hrange
    rw [reconstructInWords_eq hword, reconstruct_encodeInsertCount (.inr hrange)]

/-- The greatest count that can be meant, after as many insertions as a word has room for beside it.
-/
theorem reconstruct_exact_greatest :
    (wordBound - 10) + 3 * 3 < wordBound ∧
      reconstruct 4 3 (wordBound - 10) = .ok (wordBound - 7) ∧
      reconstructInWords 4 3 (wordBound - 10) = some (.ok (wordBound - 7)) := by
  have hword : (wordBound - 10) + 3 * 3 < wordBound := by decide
  obtain ⟨hwords, -, hmeant, -⟩ := reconstruct_exact hword 4
  have hread : reconstruct 4 3 (wordBound - 10) = .ok (wordBound - 7) :=
    (hmeant _).mpr ((standsFor_iff_of_pos (by decide)).mpr
      ⟨by decide, ⟨by decide, by decide⟩, by decide⟩)
  exact ⟨hword, hread, hwords.trans (congrArg some hread)⟩

/-! ## Reading a prefix

`Holds`, `Misleads`, `Overflows` and `Lacks` say what the front of an input can be. Every input is
one of them, and it determines how reading ends, whatever the cuts.

A count is looked for as soon as its integer is complete, so an encoding that stands for no count is
refused also where nothing follows it. -/

/-! ### The Base -/

/-- The Base at a distance from a count, computed as an integer. -/
def IsBase (count : Nat) (negative : Bool) (delta base : Nat) : Prop :=
  (base : Int) = (if negative then (count : Int) - delta - 1 else (count : Int) + delta) ∧
    base < wordBound

theorem baseOf_eq_ok_iff {count delta base : Nat} {negative : Bool} (hcount : count < wordBound) :
    baseOf count negative delta = .ok base ↔ IsBase count negative delta base := by
  rw [baseOf, IsBase]
  cases negative with
  | true =>
    simp only [if_true]
    split
    · rw [Except.ok.injEq]
      omega
    · simp only [reduceCtorEq, false_iff]
      omega
  | false =>
    simp only [Bool.false_eq_true, if_false]
    split
    · rw [Except.ok.injEq]
      omega
    · simp only [reduceCtorEq, false_iff]
      omega

private theorem baseOf_eq_error_iff {count delta : Nat} {negative : Bool}
    (hcount : count < wordBound) :
    baseOf count negative delta = .error .invalidDynamicTableIndex ↔
      ∀ base, ¬IsBase count negative delta base := by
  simp only [← baseOf_eq_ok_iff hcount]
  rcases h : baseOf count negative delta with cause | base
  · simp [baseOf_eq_error h]
  · simp

/-! ### The front of an input -/

section Front

variable (table : TableView)

/-- The input begins with an integer that stands for a count, and `middle` is what follows. -/
def Counts (input : Bytes) (count : Nat) (middle : Bytes) : Prop :=
  ∃ encoded, PrefixedInteger.Holds 8 input encoded middle ∧
    StandsFor table.maxEntries table.insertCount encoded count

/-- The input begins with a prefix, and `rest` is what follows. -/
inductive Holds : Bytes → SectionPrefix → Bytes → Prop
  /-- After a count there are the sign and the distance of a Base. -/
  | base {input tail rest : Bytes} {byte : UInt8} {count delta base : Nat}
    (hcount : Counts table input count (byte :: tail))
    (hdelta : PrefixedInteger.Holds 7 (byte :: tail) delta rest)
    (hbase : IsBase count (flagAt byte 7) delta base) : Holds input ⟨count, base⟩ rest

/-- The input begins with integers that cannot be a prefix, for this table. -/
inductive Misleads : Bytes → Prop
  /-- The first stands for no count. -/
  | count {input middle : Bytes} {encoded : Nat}
    (hencoded : PrefixedInteger.Holds 8 input encoded middle)
    (hnone : ∀ count, ¬StandsFor table.maxEntries table.insertCount encoded count) : Misleads input
  /-- The second leads to no Base. -/
  | base {input tail rest : Bytes} {byte : UInt8} {count delta : Nat}
    (hcount : Counts table input count (byte :: tail))
    (hdelta : PrefixedInteger.Holds 7 (byte :: tail) delta rest)
    (hnone : ∀ base, ¬IsBase count (flagAt byte 7) delta base) : Misleads input

/-- One of the integers overflows. -/
inductive Overflows : Bytes → Prop
  /-- The first does. -/
  | count {input rest : Bytes} (hencoded : PrefixedInteger.Overflows 8 input rest) :
    Overflows input
  /-- The second does. -/
  | delta {input middle rest : Bytes} {count : Nat} (hcount : Counts table input count middle)
    (hdelta : PrefixedInteger.Overflows 7 middle rest) : Overflows input

/-- The input ends before the prefix does. -/
inductive Lacks : Bytes → Prop
  /-- It ends before the first integer does. -/
  | count {input : Bytes} (hencoded : PrefixedInteger.Lacks 8 input) : Lacks input
  /-- It ends before the second integer does, or before it begins. -/
  | delta {input middle : Bytes} {count : Nat} (hcount : Counts table input count middle)
    (hdelta : PrefixedInteger.Lacks 7 middle) : Lacks input

/-- **Four cases.** Every input is of one of the four kinds. -/
theorem exists_front (input : Bytes) :
    (∃ p rest, Holds table input p rest) ∨ Misleads table input ∨ Overflows table input ∨
      Lacks table input := by
  rcases PrefixedInteger.holds_or_overflows_or_lacks (Nat.le_refl 8) input with
    ⟨encoded, middle, hencoded⟩ | ⟨rest, hencoded⟩ | hencoded
  · by_cases hmeant : ∃ count, StandsFor table.maxEntries table.insertCount encoded count
    · obtain ⟨count, hstands⟩ := hmeant
      have hcount : Counts table input count middle := ⟨encoded, hencoded, hstands⟩
      have hbits : 7 ≤ 8 := by decide
      rcases PrefixedInteger.holds_or_overflows_or_lacks hbits middle with
        ⟨delta, rest, hdelta⟩ | ⟨rest, hdelta⟩ | hdelta
      · obtain ⟨byte, tail, rfl⟩ : ∃ byte tail, middle = byte :: tail := by
          cases hdelta <;> exact ⟨_, _, rfl⟩
        by_cases hbase : ∃ base, IsBase count (flagAt byte 7) delta base
        · obtain ⟨base, hbase⟩ := hbase
          exact .inl ⟨_, _, .base hcount hdelta hbase⟩
        · exact .inr (.inl (.base hcount hdelta fun base h ↦ hbase ⟨base, h⟩))
      · exact .inr (.inr (.inl (.delta hcount hdelta)))
      · exact .inr (.inr (.inr (.delta hcount hdelta)))
    · exact .inr (.inl (.count hencoded fun count h ↦ hmeant ⟨count, h⟩))
  · exact .inr (.inr (.inl (.count hencoded)))
  · exact .inr (.inr (.inr (.count hencoded)))

end Front

/-! ### Reading -/

namespace Reader

variable {table : TableView} {input rest : Bytes} {p : SectionPrefix}

theorem read_of_counts {count : Nat} {middle : Bytes} (h : Counts table input count middle) :
    fresh.read table input = readSign count middle := by
  obtain ⟨encoded, hencoded, hstands⟩ := h
  simp only [fresh, read, PrefixedInteger.Reader.read_of_holds hencoded,
    reconstruct_eq_ok_iff.mpr hstands]

theorem lt_of_counts (hword : table.insertCount + 3 * table.maxEntries < wordBound) {count : Nat}
    {middle : Bytes} (h : Counts table input count middle) : count < wordBound := by
  obtain ⟨encoded, -, hstands⟩ := h
  rcases hstands.inRange with rfl | ⟨-, hle⟩
  · decide
  · omega

theorem read_of_holds (hword : table.insertCount + 3 * table.maxEntries < wordBound)
    (h : Holds table input p rest) : fresh.read table input = ⟨.ok (some p), .done p, rest⟩ := by
  cases h with
  | base hcount hdelta hbase =>
    rw [read_of_counts hcount]
    simp only [readSign, readDelta, PrefixedInteger.Reader.read_of_holds hdelta,
      (baseOf_eq_ok_iff (lt_of_counts hword hcount)).mpr hbase]

theorem read_of_misleads (hword : table.insertCount + 3 * table.maxEntries < wordBound)
    (h : Misleads table input) :
    (fresh.read table input).result = .error .invalidDynamicTableIndex := by
  cases h with
  | count hencoded hnone =>
    simp only [fresh, read, PrefixedInteger.Reader.read_of_holds hencoded,
      reconstruct_eq_error_iff.mpr hnone]
  | base hcount hdelta hnone =>
    rw [read_of_counts hcount]
    simp only [readSign, readDelta, PrefixedInteger.Reader.read_of_holds hdelta,
      (baseOf_eq_error_iff (lt_of_counts hword hcount)).mpr hnone]

theorem read_of_overflows (h : Overflows table input) :
    (fresh.read table input).result = .error .integerOverflow := by
  cases h with
  | count hencoded =>
    obtain ⟨value, shift, hread⟩ := PrefixedInteger.Reader.read_of_overflows hencoded
    simp only [fresh, read, hread]
  | delta hcount hdelta =>
    rw [read_of_counts hcount]
    obtain ⟨value, shift, hread⟩ := PrefixedInteger.Reader.read_of_overflows hdelta
    cases hdelta
    simp only [readSign, readDelta, hread]

theorem read_of_lacks (h : Lacks table input) : (fresh.read table input).result = .ok none := by
  cases h with
  | count hencoded =>
    obtain ⟨r, hread⟩ := PrefixedInteger.Reader.read_of_lacks hencoded
    simp only [fresh, read, hread]
  | delta hcount hdelta =>
    rw [read_of_counts hcount]
    obtain ⟨r, hread⟩ := PrefixedInteger.Reader.read_of_lacks hdelta
    cases hdelta with
    | nothing => rfl
    | digits => simp only [readSign, readDelta, hread]

/-- What reading comes to agrees with the front of the input. -/
inductive Accords (table : TableView) (input : Bytes) : Outcome Reader SectionPrefix → Prop
  /-- A prefix was read. -/
  | holds {p : SectionPrefix} {rest : Bytes} (h : Holds table input p rest) :
    Accords table input ⟨.ok (some p), .done p, rest⟩
  /-- The integers were refused. -/
  | misleads (h : Misleads table input) (state : Reader) (rest : Bytes) :
    Accords table input ⟨.error .invalidDynamicTableIndex, state, rest⟩
  /-- The digits of an integer were refused. -/
  | overflows (h : Overflows table input) (state : Reader) (rest : Bytes) :
    Accords table input ⟨.error .integerOverflow, state, rest⟩
  /-- More octets are wanted. -/
  | lacks (h : Lacks table input) (state : Reader) (rest : Bytes) :
    Accords table input ⟨.ok none, state, rest⟩

theorem accords_read (hword : table.insertCount + 3 * table.maxEntries < wordBound)
    (input : Bytes) : Accords table input (fresh.read table input) := by
  rcases exists_front table input with ⟨p, rest, h⟩ | h | h | h
  · rw [read_of_holds hword h]
    exact .holds h
  · have hread := Accords.misleads h (fresh.read table input).state (fresh.read table input).rest
    rwa [← read_of_misleads hword h] at hread
  · have hread := Accords.overflows h (fresh.read table input).state (fresh.read table input).rest
    rwa [← read_of_overflows h] at hread
  · have hread := Accords.lacks h (fresh.read table input).state (fresh.read table input).rest
    rwa [← read_of_lacks h] at hread

section Accords

variable {o : Outcome Reader SectionPrefix} (ho : Accords table input o)

include ho

theorem Accords.holds_of_ok (h : o.result = .ok (some p)) : Holds table input p o.rest := by
  cases ho with
  | holds hcase =>
    obtain rfl := Option.some.inj (Except.ok.inj h)
    exact hcase
  | misleads | overflows | lacks => exact absurd h (by simp)

theorem Accords.misleads_or_overflows_of_error {cause : Error} (h : o.result = .error cause) :
    cause = .invalidDynamicTableIndex ∧ Misleads table input ∨
      cause = .integerOverflow ∧ Overflows table input := by
  cases ho with
  | misleads hcase => exact .inl ⟨(Except.error.inj h).symm, hcase⟩
  | overflows hcase => exact .inr ⟨(Except.error.inj h).symm, hcase⟩
  | holds | lacks => exact absurd h (by simp)

private theorem Accords.lacks_of_pending (h : o.result = .ok none) : Lacks table input := by
  cases ho with
  | lacks hcase => exact hcase
  | holds | misleads | overflows => exact absurd h (by simp)

end Accords

/-! ### The result -/

section Exact

variable (hword : table.insertCount + 3 * table.maxEntries < wordBound)

include hword

theorem read_eq_some_iff :
    (fresh.read table input).result = .ok (some p) ∧ (fresh.read table input).rest = rest ↔
      Holds table input p rest := by
  constructor
  · rintro ⟨hresult, rfl⟩
    exact (accords_read hword input).holds_of_ok hresult
  · intro h
    rw [read_of_holds hword h]
    exact ⟨rfl, rfl⟩

theorem result_read_eq_invalid_iff :
    (fresh.read table input).result = .error .invalidDynamicTableIndex ↔ Misleads table input := by
  refine ⟨fun h ↦ ?_, read_of_misleads hword⟩
  rcases (accords_read hword input).misleads_or_overflows_of_error h with ⟨-, hcase⟩ | ⟨hcause, -⟩
  · exact hcase
  · exact absurd hcause (by decide)

theorem result_read_eq_overflow_iff :
    (fresh.read table input).result = .error .integerOverflow ↔ Overflows table input := by
  refine ⟨fun h ↦ ?_, read_of_overflows⟩
  rcases (accords_read hword input).misleads_or_overflows_of_error h with ⟨hcause, -⟩ | ⟨-, hcase⟩
  · exact absurd hcause (by decide)
  · exact hcase

theorem read_encode_of_inRange (hcount : p.requiredInsertCount = 0 ∨
      InRange table.maxEntries table.insertCount p.requiredInsertCount)
    (hbase : p.base < wordBound) (rest : Bytes) :
    fresh.read table (p.encode table.maxEntries ++ rest) = ⟨.ok (some p), .done p, rest⟩ := by
  refine read_encode hcount ?_ hbase rest
  rcases hcount with hzero | ⟨hlow, hhigh⟩
  · rw [hzero]
    decide
  · omega

end Exact

/-- **Prefixes read exactly.** However the octets are cut into chunks, a prefix is read just if they
begin with one, and then what follows it is left, and the reader gives the prefix. The other ends
are as exact: integers that lead to no count or to no Base, an integer that overflows, and octets
that end too early, all of which have then been taken. So a prefix that can be sent for the table is
read back, wherever it is cut. -/
theorem prefix_exact (hword : table.insertCount + 3 * table.maxEntries < wordBound)
    (chunks : List Bytes) :
    let o := Outcome.readChunks (read table) fresh chunks
    (∀ p rest, o.result = .ok (some p) ∧ o.rest = rest ↔ Holds table chunks.flatten p rest) ∧
      (∀ p, o.result = .ok (some p) → o.state.get = p) ∧
      (o.result = .error .invalidDynamicTableIndex ↔ Misleads table chunks.flatten) ∧
      (o.result = .error .integerOverflow ↔ Overflows table chunks.flatten) ∧
      (∀ cause, o.result = .error cause →
        cause = .invalidDynamicTableIndex ∨ cause = .integerOverflow) ∧
      (o.result = .ok none ↔ Lacks table chunks.flatten) ∧
      (o.result = .ok none → o.rest = []) ∧
      ∀ p rest, p.requiredInsertCount = 0 ∨
          InRange table.maxEntries table.insertCount p.requiredInsertCount →
        p.base < wordBound → chunks.flatten = p.encode table.maxEntries ++ rest →
        o.result = .ok (some p) ∧ o.state.get = p ∧ o.rest = rest := by
  intro o
  have ho : o = fresh.read table chunks.flatten :=
    (resumable_read table).readChunks_eq rfl chunks
  rw [ho]
  have haccords := accords_read hword chunks.flatten
  refine ⟨fun _ _ ↦ read_eq_some_iff hword, ?_, result_read_eq_invalid_iff hword,
    result_read_eq_overflow_iff hword, ?_, ⟨haccords.lacks_of_pending, read_of_lacks⟩,
    pending_read, ?_⟩
  · intro p hresult
    rw [read_of_holds hword (haccords.holds_of_ok hresult)]
    rfl
  · intro cause h
    exact (haccords.misleads_or_overflows_of_error h).imp And.left And.left
  · intro p rest hcount hbase hflatten
    rw [hflatten, read_encode_of_inRange hword hcount hbase]
    exact ⟨rfl, rfl, rfl⟩

/-- A count of eight after ten insertions into a table that can have three entries, with a Base of
five, cut between the integers, and an octet after the prefix; and a distance that leads below zero.
-/
theorem prefix_exact_wrapped :
    let table : TableView := ⟨fun _ ↦ none, 10, 3⟩
    let chunks : List Bytes := [[0x03], [], [0x82, 0xff]]
    let below : List Bytes := [[0x03, 0x88]]
    table.insertCount + 3 * table.maxEntries < wordBound ∧
      ((Outcome.readChunks (read table) fresh chunks).result = .ok (some ⟨8, 5⟩) ∧
        (Outcome.readChunks (read table) fresh chunks).rest = [0xff]) ∧
      (Outcome.readChunks (read table) fresh below).result =
        .error .invalidDynamicTableIndex := by
  intro table chunks below
  have hword : table.insertCount + 3 * table.maxEntries < wordBound := by decide
  have hcounts (middle : Bytes) : Counts table (0x03 :: middle) 8 middle :=
    ⟨3, .short (by decide), (standsFor_iff_of_pos (by decide)).mpr
      ⟨by decide, ⟨by decide, by decide⟩, by decide⟩⟩
  have hholds : Holds table chunks.flatten ⟨8, 5⟩ [0xff] :=
    .base (hcounts [0x82, 0xff]) (.short (by decide)) ⟨by decide, by decide⟩
  have hmisleads : Misleads table below.flatten := by
    refine .base (hcounts [0x88]) (.short (by decide)) ?_
    rintro base ⟨hbase, -⟩
    have hsign : flagAt 0x88 7 = true := rfl
    have hdistance : (0x88 : UInt8).toNat % (1 <<< 7) = 8 := rfl
    rw [if_pos hsign, hdistance] at hbase
    omega
  exact ⟨hword, ((prefix_exact hword chunks).1 _ _).mpr hholds,
    (prefix_exact hword below).2.2.1.mpr hmisleads⟩

end Reader

end FieldCompression.SectionPrefix
