import FieldCompression.Proofs.FieldLine.Stages
import FieldCompression.Proofs.Huffman.Encodings

/-!
# Integers, strings, prefixes and lines read back

What `encode` writes, `read` reads, and nothing beyond it. Each item is stated with arbitrary
octets after it, so that the statements compose to lines and sections, and with what its reader
requires: a number must have 64 bits, and the content of a string must be within the reader's
limit.
-/

namespace FieldCompression

/-! ## Integers and strings

An integer shares its first byte with a pattern or a flag, `high` below, that is written above the
`bits` bits of its prefix. The two do not disturb each other as long as they fit in one octet, which
is `(high + 1) <<< bits ≤ 256` throughout. -/

namespace PrefixedInteger

/-! ### Shifts -/

theorem shiftLeft_eq_mul (n bits : Nat) : n <<< bits = n * (1 <<< bits) := by
  rw [Nat.shiftLeft_eq, Nat.one_shiftLeft]

theorem one_shiftLeft_pos (bits : Nat) : 0 < 1 <<< bits := by
  rw [Nat.one_shiftLeft]
  exact Nat.two_pow_pos bits

theorem greatestIn_lt (bits : Nat) : greatestIn bits < 1 <<< bits :=
  Nat.sub_lt (one_shiftLeft_pos bits) Nat.one_pos

theorem shiftLeft_add_seven (n bits : Nat) : n <<< (bits + 7) = (n * 128) <<< bits := by
  rw [Nat.shiftLeft_add, Nat.shiftLeft_eq, Nat.shiftLeft_eq, Nat.shiftLeft_eq, Nat.mul_right_comm]

theorem digits_shiftLeft (n bits : Nat) :
    (n % 128) <<< bits + (n / 128) <<< (bits + 7) = n <<< bits := by
  rw [shiftLeft_add_seven, shiftLeft_eq_mul, shiftLeft_eq_mul (n / 128 * 128), ← Nat.add_mul,
    Nat.mul_comm (n / 128), Nat.mod_add_div, ← shiftLeft_eq_mul]

private theorem shift_le_of_lt {n bits : Nat} (hn : 0 < n) (h : n <<< bits < wordBound) :
    bits ≤ 63 := by
  have hle : 1 <<< bits ≤ n <<< bits := by
    rw [shiftLeft_eq_mul n]
    exact Nat.le_mul_of_pos_left _ hn
  have hlt : 1 <<< bits < 1 <<< 64 := Nat.lt_of_le_of_lt hle h
  rw [Nat.one_shiftLeft, Nat.one_shiftLeft, Nat.pow_lt_pow_iff_right (by omega)] at hlt
  omega

/-! ### The first byte -/

section First

variable {bits high x : Nat}

theorem toNat_first (hhigh : (high + 1) <<< bits ≤ 256) (hx : x < 1 <<< bits) :
    (UInt8.ofNat (high <<< bits + x)).toNat = high <<< bits + x := by
  rw [shiftLeft_eq_mul, Nat.add_mul, ← shiftLeft_eq_mul] at hhigh
  rw [UInt8.toNat_ofNat', Nat.mod_eq_of_lt]
  omega

theorem first_mod (hhigh : (high + 1) <<< bits ≤ 256) (hx : x < 1 <<< bits) :
    (UInt8.ofNat (high <<< bits + x)).toNat % (1 <<< bits) = x := by
  rw [toNat_first hhigh hx, shiftLeft_eq_mul, Nat.mul_add_mod_self_right, Nat.mod_eq_of_lt hx]

theorem flagAt_first (hhigh : (high + 1) <<< bits ≤ 256) (hx : x < 1 <<< bits) :
    flagAt (UInt8.ofNat (high <<< bits + x)) bits = decide (high % 2 = 1) := by
  rw [flagAt, toNat_first hhigh hx, Nat.shiftRight_eq_div_pow, ← Nat.one_shiftLeft,
    shiftLeft_eq_mul, Nat.mul_comm, Nat.mul_add_div (one_shiftLeft_pos bits),
    Nat.div_eq_of_lt hx, Nat.add_zero]

theorem exists_encode_eq_cons (bits high v : Nat) :
    ∃ x rest, x < 1 <<< bits ∧ encode bits high v = UInt8.ofNat (high <<< bits + x) :: rest := by
  rw [encode]
  split
  · rename_i hv
    exact ⟨v, [], Nat.lt_trans hv (greatestIn_lt bits), rfl⟩
  · exact ⟨greatestIn bits, _, greatestIn_lt bits, rfl⟩

/-- The first byte of the encoding of a number shows what it shares that byte with. -/
theorem exists_first (hhigh : (high + 1) <<< bits ≤ 256) (v : Nat) :
    ∃ first rest, encode bits high v = first :: rest ∧ high <<< bits ≤ first.toNat ∧
      first.toNat < (high + 1) <<< bits ∧ flagAt first bits = decide (high % 2 = 1) := by
  obtain ⟨x, rest, hx, hencode⟩ := exists_encode_eq_cons bits high v
  refine ⟨_, rest, hencode, ?_, ?_, flagAt_first hhigh hx⟩
  · rw [toNat_first hhigh hx]
    exact Nat.le_add_right _ _
  · rw [toNat_first hhigh hx, shiftLeft_eq_mul (high + 1), Nat.add_mul, ← shiftLeft_eq_mul]
    omega

end First

/-! ### Integers -/

/-- The digits of a number give it back, when they count from `shift` bits on. -/
theorem readContinuation_encodeContinuation {value shift v : Nat} (hshift : shift = 0 ∨ 0 < v)
    (hbound : value + v <<< shift < wordBound) (rest : Bytes) :
    Reader.readContinuation value shift (encodeContinuation v ++ rest) =
      ⟨.ok (some (value + v <<< shift)), .done (value + v <<< shift), rest⟩ := by
  -- a digit that is not zero cannot have been shifted out of 64 bits
  have hshort : ¬63 < shift := by
    rcases hshift with rfl | hv
    · omega
    · have := shift_le_of_lt hv (Nat.lt_of_le_of_lt (Nat.le_add_left _ value) hbound)
      omega
  induction v using Nat.strongRecOn generalizing value shift with
  | ind v ih =>
    rw [encodeContinuation]
    split
    · rename_i hlast
      have hbyte : (UInt8.ofNat v).toNat = v := by
        rw [UInt8.toNat_ofNat', Nat.mod_eq_of_lt (by omega)]
      rw [List.cons_append, List.nil_append, Reader.readContinuation, hbyte,
        Nat.mod_eq_of_lt hlast, if_neg (by omega), if_pos hlast]
    · rename_i hmore
      have hbyte : (UInt8.ofNat (v % 128 + 128)).toNat = v % 128 + 128 := by
        rw [UInt8.toNat_ofNat', Nat.mod_eq_of_lt (by omega)]
      have hdigit : (v % 128 + 128) % 128 = v % 128 := by omega
      have hsum := digits_shiftLeft v shift
      have hpos : 0 < v / 128 := by omega
      have hbound' : value + (v % 128) <<< shift + (v / 128) <<< (shift + 7) < wordBound := by
        omega
      have hdigits : ¬(63 < shift ∨ wordBound ≤ value + (v % 128) <<< shift) :=
        not_or.mpr ⟨hshort, Nat.not_le.mpr (Nat.lt_of_le_of_lt (Nat.le_add_right _ _) hbound')⟩
      have hshort' := shift_le_of_lt hpos (Nat.lt_of_le_of_lt (Nat.le_add_left _ _) hbound')
      rw [List.cons_append, Reader.readContinuation, hbyte, hdigit, if_neg hdigits,
        if_neg (by omega), ih _ (by omega) (.inr hpos) hbound' (by omega), Nat.add_assoc, hsum]

/-- **Integers read back.** -/
theorem read_encode {bits high v : Nat} (hhigh : (high + 1) <<< bits ≤ 256) (hv : v < wordBound)
    (rest : Bytes) :
    (Reader.start bits).read (encode bits high v ++ rest) = ⟨.ok (some v), .done v, rest⟩ := by
  rw [encode]
  split
  · rename_i hsmall
    rw [List.cons_append, List.nil_append, Reader.read,
      first_mod hhigh (Nat.lt_trans hsmall (greatestIn_lt bits)), if_pos hsmall]
  · have hsum : greatestIn bits + (v - greatestIn bits) <<< 0 = v := by
      rw [Nat.shiftLeft_zero]
      omega
    rw [List.cons_append, Reader.read, first_mod hhigh (greatestIn_lt bits),
      if_neg (Nat.lt_irrefl _), readContinuation_encodeContinuation (.inl rfl) (by omega), hsum]

end PrefixedInteger

/-! ### Strings -/

namespace StringLiteral

/-- A payload is refused unread only if its content would be too long. -/
theorem length_payload_le (s : StringLiteral) :
    s.payload.length ≤ if s.huffman then s.content.length * maxExpansion else s.content.length := by
  rw [payload]
  split
  · obtain ⟨d, hfinal, hdecode⟩ := Huffman.Decoder.decode_encode s.content
    have haccepted : (Huffman.Decoder.decode {} (Huffman.encode s.content)).accepted = true := by
      rw [hdecode]
    have hle := Huffman.Decoder.length_le_of_accepted haccepted (by rw [hdecode]; exact hfinal)
    simp only [hdecode] at hle
    rw [maxExpansion]
    omega
  · exact Nat.le_refl _

namespace Reader

theorem expand_payload {r : Reader} {s : StringLiteral} (hhuffman : r.huffman = s.huffman) :
    ∃ d : Huffman.Decoder, (s.huffman = true → d.isFinal = true) ∧
      r.expand {} s.payload = ⟨s.content, d, true⟩ := by
  rw [expand, payload, hhuffman]
  split
  · obtain ⟨d, hfinal, hdecode⟩ := Huffman.Decoder.decode_encode s.content
    exact ⟨d, fun _ ↦ hfinal, hdecode⟩
  · rename_i hraw
    exact ⟨{}, fun h ↦ absurd h hraw, rfl⟩

theorem min_length_append (a b : Bytes) : min a.length (a ++ b).length = a.length := by
  rw [List.length_append]
  omega

theorem readPayload_payload {r : Reader} (s : StringLiteral) (hhuffman : r.huffman = s.huffman)
    (hlimit : s.content.length ≤ r.limit) (rest : Bytes) :
    r.readPayload s.payload.length 0 {} (s.payload ++ rest) =
      { result := .ok (some ()), state := { r with phase := .done }, rest
        output := s.content } := by
  obtain ⟨d, hfinal, hexpand⟩ := expand_payload hhuffman
  have hnot : ¬(s.huffman && !d.isFinal) = true := by
    cases h : s.huffman
    · simp
    · simp [hfinal h]
  simp only [readPayload, min_length_append, List.take_left, List.drop_left, hexpand, hhuffman,
    Nat.zero_add, Nat.not_lt.mpr hlimit, if_false, Nat.lt_irrefl, hnot, Bool.not_true,
    Bool.false_eq_true]

theorem first_le {bits high : Nat} (hhigh : (high * 2 + 2) <<< bits ≤ 256) (huffman : Bool) :
    (high * 2 + huffman.toNat + 1) <<< bits ≤ 256 := by
  have hflag : huffman.toNat ≤ 1 := huffman.toNat_le
  rw [PrefixedInteger.shiftLeft_eq_mul] at hhigh ⊢
  exact Nat.le_trans (Nat.mul_le_mul_right _ (by omega)) hhigh

/-- The flag says how the payload is read, and the length comes next. -/
theorem read_flag {r : Reader} {bits high : Nat} (hphase : r.phase = .flag bits)
    (hhigh : (high * 2 + 2) <<< bits ≤ 256) (s : StringLiteral) (rest : Bytes) :
    r.read (s.encode bits high ++ rest) =
      { r with huffman := s.huffman }.readLength (.start bits)
        (PrefixedInteger.encode bits (high * 2 + s.huffman.toNat) s.payload.length ++
          (s.payload ++ rest)) := by
  obtain ⟨first, tail, hencode, -, -, hfirst⟩ :=
    PrefixedInteger.exists_first (first_le hhigh s.huffman) s.payload.length
  have hflag : flagAt first bits = s.huffman := by
    rw [hfirst]
    cases s.huffman <;> simp
  obtain ⟨phase, huffman, limit⟩ := r
  subst hphase
  rw [encode, List.append_assoc, hencode, read, List.cons_append]
  simp only [hflag]

/-- **Strings read back.** -/
theorem read_encode {r : Reader} {bits high : Nat} (hphase : r.phase = .flag bits)
    (hhigh : (high * 2 + 2) <<< bits ≤ 256) (s : StringLiteral)
    (hlength : s.payload.length < wordBound) (hlimit : s.content.length ≤ r.limit) (rest : Bytes) :
    r.read (s.encode bits high ++ rest) =
      { result := .ok (some ()), state := { r with phase := .done, huffman := s.huffman }, rest
        output := s.content } := by
  have hread := PrefixedInteger.read_encode (first_le hhigh s.huffman) hlength (s.payload ++ rest)
  have hshort : ¬({ r with huffman := s.huffman } : Reader).payloadLimit < s.payload.length := by
    refine Nat.not_lt.mpr (Nat.le_trans s.length_payload_le ?_)
    simp only [payloadLimit]
    split
    · exact Nat.mul_le_mul_right _ hlimit
    · exact hlimit
  rw [read_flag hphase hhigh]
  simp only [readLength, hread, hshort, if_false]
  exact readPayload_payload (r := { r with huffman := s.huffman }) s rfl hlimit rest

end Reader

end StringLiteral

/-! ## Prefixes

A Required Insert Count survives being sent as a remainder as long as it differs from the number of
insertions by at most the greatest number of entries. `InRange` is that range. It has twice as many
elements as the table can have entries, so a remainder occurs in it once, and `reconstruct` finds
where: it looks beyond the greatest multiple of the modulus that the greatest count in range can
reach, and if what it finds there is out of range, it was one modulus too far. -/

namespace SectionPrefix

/-! ### The Required Insert Count -/

/-- The counts that a remainder can stand for, after `insertCount` insertions. -/
def InRange (maxEntries insertCount count : Nat) : Prop :=
  insertCount < count + maxEntries ∧ count ≤ insertCount + maxEntries

section InsertCount

variable {maxEntries insertCount count : Nat}

/-- The greatest possible count is in the same multiple of the modulus as the count, or in the one
after it. -/
theorem maxValue_div (h : InRange maxEntries insertCount count) :
    maxValue maxEntries insertCount / fullRange maxEntries = count / fullRange maxEntries ∨
      maxValue maxEntries insertCount / fullRange maxEntries =
        count / fullRange maxEntries + 1 := by
  have hpos : 0 < fullRange maxEntries := by
    have := h.1
    have := h.2
    rw [fullRange]
    omega
  have hlow : count / fullRange maxEntries ≤
      maxValue maxEntries insertCount / fullRange maxEntries := Nat.div_le_div_right h.2
  have hhigh : maxValue maxEntries insertCount / fullRange maxEntries ≤
      (count + fullRange maxEntries) / fullRange maxEntries := by
    refine Nat.div_le_div_right ?_
    have := h.1
    rw [maxValue, fullRange]
    omega
  rw [Nat.add_div_right count hpos] at hhigh
  omega

/-- **Required Insert Counts read back.** -/
theorem reconstruct_encodeInsertCount
    (h : count = 0 ∨ InRange maxEntries insertCount count) :
    reconstruct (encodeInsertCount maxEntries count) maxEntries insertCount = .ok count := by
  by_cases hzero : count = 0
  · subst hzero
    rfl
  have hrange := h.resolve_left hzero
  have hpos : 0 < fullRange maxEntries := by
    have := hrange.1
    have := hrange.2
    rw [fullRange]
    omega
  have hmod := Nat.mod_lt count hpos
  have hsplit := Nat.div_add_mod' count (fullRange maxEntries)
  rw [encodeInsertCount, if_neg hzero, reconstruct, if_neg (by omega), if_neg (by omega)]
  have hfrom : maxValue maxEntries insertCount < count + fullRange maxEntries := by
    have := hrange.1
    rw [maxValue, fullRange]
    omega
  have hupto : count ≤ maxValue maxEntries insertCount := hrange.2
  -- the candidate is the count, or one modulus too great
  rcases maxValue_div hrange with hsame | hnext
  · have hcandidate :
        candidate (count % fullRange maxEntries + 1) maxEntries insertCount = count := by
      rw [candidate, hsame]
      omega
    rw [hcandidate, if_pos hupto, nonzero, if_neg hzero]
  · have hcandidate : candidate (count % fullRange maxEntries + 1) maxEntries insertCount =
        count + fullRange maxEntries := by
      rw [candidate, hnext, Nat.add_mul]
      omega
    rw [hcandidate, if_neg (by omega), if_neg (by omega), Nat.add_sub_cancel, nonzero,
      if_neg hzero]

private theorem encodeInsertCount_le (maxEntries count : Nat) :
    encodeInsertCount maxEntries count ≤ count + 1 := by
  rw [encodeInsertCount]
  split
  · exact Nat.zero_le _
  · exact Nat.succ_le_succ (Nat.mod_le _ _)

end InsertCount

/-! ### The Base -/

namespace Reader

theorem readSign_encode {count base : Nat} (hcount : count < wordBound) (hbase : base < wordBound)
    (rest : Bytes) :
    readSign count
        ((if count ≤ base then PrefixedInteger.encode 7 0 (base - count)
          else PrefixedInteger.encode 7 1 (count - base - 1)) ++ rest) =
      ⟨.ok (some ⟨count, base⟩), done ⟨count, base⟩, rest⟩ := by
  have hsign (high v : Nat) (hhigh : high ≤ 1) (hv : v < wordBound)
      (hbaseOf : baseOf count (decide (high % 2 = 1)) v = .ok base) :
      readSign count (PrefixedInteger.encode 7 high v ++ rest) =
        ⟨.ok (some ⟨count, base⟩), done ⟨count, base⟩, rest⟩ := by
    have hfirst : (high + 1) <<< 7 ≤ 256 := by omega
    have hread := PrefixedInteger.read_encode hfirst hv rest
    obtain ⟨x, tail, hx, hencode⟩ := PrefixedInteger.exists_encode_eq_cons 7 high v
    rw [hencode, List.cons_append] at hread ⊢
    simp only [readSign, readDelta, PrefixedInteger.flagAt_first hfirst hx, hread, hbaseOf]
  split
  · refine hsign 0 _ (by omega) (by omega) ?_
    have hsum : count + (base - count) = base := by omega
    simp [baseOf, hsum, hbase]
  · have hle : count - base - 1 + 1 ≤ count := by omega
    have hsum : count - (count - base - 1 + 1) = base := by omega
    refine hsign 1 _ (by omega) (by omega) ?_
    simp [baseOf, hsum, hle]

/-- **Prefixes read back.** -/
theorem read_encode {table : TableView} {p : SectionPrefix}
    (hcount : p.requiredInsertCount = 0 ∨
      InRange table.maxEntries table.insertCount p.requiredInsertCount)
    (hword : p.requiredInsertCount + 1 < wordBound) (hbase : p.base < wordBound) (rest : Bytes) :
    fresh.read table (p.encode table.maxEntries ++ rest) = ⟨.ok (some p), done p, rest⟩ := by
  have hencoded := encodeInsertCount_le table.maxEntries p.requiredInsertCount
  rw [encode, List.append_assoc, fresh, read,
    PrefixedInteger.read_encode (by decide) (Nat.lt_of_le_of_lt hencoded hword)]
  simp only [reconstruct_encodeInsertCount hcount]
  exact readSign_encode (by omega) hbase rest

end Reader

end SectionPrefix

/-! ## Lines

The first byte of a line decides which reader it gets, and the five forms share that byte with an
index or the flag of a string, in five different ways. `ofByte_…` goes through them. Everything
after the first byte is put together from integers and strings. -/

namespace FieldLine

/-- The strings in a line. -/
def strings : FieldLine → List StringLiteral
  | indexed _ _ => []
  | nameReference _ _ _ value => [value]
  | literalName _ name value => [name, value]

/-- What a reader requires of a line when the section may still hold `remaining` octets: numbers of
64 bits, and strings that are not too long. -/
def Readable (remaining : Nat) : FieldLine → Prop
  | indexed _ index => index < wordBound
  | nameReference _ _ index value =>
    index < wordBound ∧ value.payload.length < wordBound ∧ value.content.length ≤ remaining
  | literalName _ name value =>
    name.payload.length < wordBound ∧ value.payload.length < wordBound ∧
      name.content.length + value.content.length ≤ remaining

namespace Reader

/-! ### The first byte -/

private theorem ofByte_indexed_static :
    ∀ x < 64, ofByte (UInt8.ofNat (0b11 <<< 6 + x)) = entryIndex .static (.start 6) := by
  decide

private theorem ofByte_indexed_relative :
    ∀ x < 64, ofByte (UInt8.ofNat (0b10 <<< 6 + x)) = entryIndex .relative (.start 6) := by
  decide

private theorem ofByte_indexed_postBase :
    ∀ x < 16, ofByte (UInt8.ofNat (0b0001 <<< 4 + x)) = entryIndex .postBase (.start 4) := by
  decide

private theorem ofByte_nameReference_static :
    ∀ (neverIndexed : Bool), ∀ x < 16,
      ofByte (UInt8.ofNat ((0b0101 + 2 * neverIndexed.toNat) <<< 4 + x)) =
        nameIndex .static neverIndexed (.start 4) := by
  decide

private theorem ofByte_nameReference_relative :
    ∀ (neverIndexed : Bool), ∀ x < 16,
      ofByte (UInt8.ofNat ((0b0100 + 2 * neverIndexed.toNat) <<< 4 + x)) =
        nameIndex .relative neverIndexed (.start 4) := by
  decide

private theorem ofByte_nameReference_postBase :
    ∀ (neverIndexed : Bool), ∀ x < 8,
      ofByte (UInt8.ofNat (neverIndexed.toNat <<< 3 + x)) =
        nameIndex .postBase neverIndexed (.start 3) := by
  decide

private theorem ofByte_literalName :
    ∀ (neverIndexed huffman : Bool), ∀ x < 8,
      ofByte (UInt8.ofNat (((0b0010 + neverIndexed.toNat) * 2 + huffman.toNat) <<< 3 + x)) =
        literalName neverIndexed (.start 3) [] := by
  decide

/-! ### The items of a line -/

theorem index?_encode {bits high v : Nat} (hhigh : (high + 1) <<< bits ≤ 256)
    (hv : v < wordBound) (rest : Bytes) :
    index? (.start bits) (PrefixedInteger.encode bits high v ++ rest) = some (v, rest) := by
  rw [index?, PrefixedInteger.read_encode hhigh hv]

theorem text?_encode {r : StringLiteral.Reader} {bits high : Nat} (hphase : r.phase = .flag bits)
    (hhigh : (high * 2 + 2) <<< bits ≤ 256) {s : StringLiteral}
    (hlength : s.payload.length < wordBound) (hlimit : s.content.length ≤ r.limit) (rest : Bytes) :
    text? r [] (s.encode bits high ++ rest) = some (s, rest) := by
  rw [text?, StringLiteral.Reader.read_encode hphase hhigh s hlength hlimit]
  rfl

theorem text?_value {limit : Nat} {value : StringLiteral}
    (hlength : value.payload.length < wordBound) (hlimit : value.content.length ≤ limit)
    (rest : Bytes) :
    text? (valueReader limit) [] (value.encode 7 0 ++ rest) = some (value, rest) :=
  text?_encode rfl (by decide) hlength hlimit rest

/-! ### Whole lines -/

section Lines

variable {bits high index remaining : Nat} {addressing : Addressing} {neverIndexed : Bool}

private theorem complete?_indexed (hbyte : ∀ x < 1 <<< bits,
      ofByte (UInt8.ofNat (high <<< bits + x)) = entryIndex addressing (.start bits))
    (hhigh : (high + 1) <<< bits ≤ 256) (hindex : index < wordBound) :
    ∃ first rest, PrefixedInteger.encode bits high index = first :: rest ∧
      ∀ more, (ofByte first).complete? remaining (PrefixedInteger.encode bits high index ++ more) =
        some (.indexed addressing index, more) := by
  obtain ⟨x, rest, hx, hencode⟩ := PrefixedInteger.exists_encode_eq_cons bits high index
  refine ⟨_, rest, hencode, fun more ↦ ?_⟩
  rw [hbyte x hx, complete?, index?_encode hhigh hindex, Option.map_some]

private theorem complete?_nameReference {value : StringLiteral} (hbyte : ∀ x < 1 <<< bits,
      ofByte (UInt8.ofNat (high <<< bits + x)) = nameIndex addressing neverIndexed (.start bits))
    (hhigh : (high + 1) <<< bits ≤ 256)
    (h : Readable remaining (.nameReference addressing neverIndexed index value)) :
    ∃ first rest, PrefixedInteger.encode bits high index ++ value.encode 7 0 = first :: rest ∧
      ∀ more, (ofByte first).complete? remaining
          (PrefixedInteger.encode bits high index ++ value.encode 7 0 ++ more) =
        some (.nameReference addressing neverIndexed index value, more) := by
  obtain ⟨hindex, hlength, hlimit⟩ := h
  obtain ⟨x, rest, hx, hencode⟩ := PrefixedInteger.exists_encode_eq_cons bits high index
  refine ⟨_, rest ++ value.encode 7 0, by rw [hencode]; rfl, fun more ↦ ?_⟩
  rw [hbyte x hx, complete?, List.append_assoc, index?_encode hhigh hindex, Option.bind_some]
  simp only [text?_value hlength hlimit, Option.map_some]

private theorem complete?_literalName {name value : StringLiteral}
    (h : Readable remaining (.literalName neverIndexed name value)) :
    ∃ first rest, (FieldLine.literalName neverIndexed name value).encode = first :: rest ∧
      ∀ more, (ofByte first).complete? remaining
          ((FieldLine.literalName neverIndexed name value).encode ++ more) =
        some (.literalName neverIndexed name value, more) := by
  obtain ⟨hname, hvalue, hlimit⟩ := h
  obtain ⟨x, rest, hx, hencode⟩ := PrefixedInteger.exists_encode_eq_cons 3
    ((0b0010 + neverIndexed.toNat) * 2 + name.huffman.toNat) name.payload.length
  have hhigh : ((0b0010 + neverIndexed.toNat) * 2 + 2) <<< 3 ≤ 256 := by
    have : neverIndexed.toNat ≤ 1 := neverIndexed.toNat_le
    omega
  refine ⟨UInt8.ofNat (((0b0010 + neverIndexed.toNat) * 2 + name.huffman.toNat) <<< 3 + x),
    rest ++ name.payload ++ value.encode 7 0, ?_, fun more ↦ ?_⟩
  · rw [FieldLine.encode, StringLiteral.encode, hencode]
    rfl
  · have hreader : ((StringLiteral.Reader.start 3).withLimit remaining).phase = .flag 3 := rfl
    have hread := text?_encode hreader hhigh hname
      (Nat.le_trans (Nat.le_add_right _ _) hlimit) (value.encode 7 0 ++ more)
    rw [ofByte_literalName neverIndexed name.huffman x hx, complete?, FieldLine.encode,
      List.append_assoc, hread, Option.bind_some]
    simp only [text?_value hvalue (Nat.le_sub_of_add_le' hlimit), Option.map_some]

end Lines

/-- **Lines read back.** A line is what the reader for its first byte makes of its encoding. -/
theorem complete?_encode {remaining : Nat} {line : FieldLine} (h : Readable remaining line) :
    ∃ first rest, line.encode = first :: rest ∧
      ∀ more, (ofByte first).complete? remaining (line.encode ++ more) = some (line, more) := by
  rcases line with ⟨_ | _ | _, index⟩ | ⟨_ | _ | _, neverIndexed, index, value⟩ |
    ⟨neverIndexed, name, value⟩
  · exact complete?_indexed ofByte_indexed_static (by decide) h
  · exact complete?_indexed ofByte_indexed_relative (by decide) h
  · exact complete?_indexed ofByte_indexed_postBase (by decide) h
  · exact complete?_nameReference (ofByte_nameReference_static neverIndexed)
      (by cases neverIndexed <;> decide) h
  · exact complete?_nameReference (ofByte_nameReference_relative neverIndexed)
      (by cases neverIndexed <;> decide) h
  · exact complete?_nameReference (ofByte_nameReference_postBase neverIndexed)
      (by cases neverIndexed <;> decide) h
  · exact complete?_literalName h

end Reader

end FieldLine

end FieldCompression
