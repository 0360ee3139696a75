import FieldCompression.FieldSection

/-!
# What the octets of a section spell

Encoders differ in one thing only: how they spell integers. The digits that follow a full prefix
may end in any number of zeros, which stand for nothing. `PrefixedInteger.Spells` are all ways to
spell an integer, and the one that `PrefixedInteger.encode` writes is the `Shortest` of them.

A section is a list of *parts*, each an integer or a string, and `Spelled` says which octets spell
a list of parts. It is the grammar of field sections: everything but the spelling of integers is
determined by the parts. The octets of each integer are kept, so that what is said of the integers
of a section can be said of them.
-/

namespace FieldCompression

namespace PrefixedInteger

/-! ## Integers -/

/-- Octets that spell a number in base 128, least significant digit first, with the high bit set on
all but the last. -/
inductive Digits : Nat → Bytes → Prop
  /-- The last digit. -/
  | last {digit : Nat} (h : digit < 128) : Digits digit [UInt8.ofNat digit]
  /-- A digit before others. -/
  | more {digit v : Nat} {digits : Bytes} (h : digit < 128) (hdigits : Digits v digits) :
    Digits (digit + 128 * v) (UInt8.ofNat (digit + 128) :: digits)

/-- Octets that spell a number with a prefix of `bits` bits, below the bits of `high` in the first
octet. -/
inductive Spells (bits high : Nat) : Nat → Bytes → Prop
  /-- The prefix holds the number. -/
  | short {v : Nat} (h : v < greatestIn bits) :
    Spells bits high v [UInt8.ofNat (high <<< bits + v)]
  /-- The prefix is full, and digits follow. -/
  | long {v : Nat} {digits : Bytes} (h : Digits v digits) :
    Spells bits high (greatestIn bits + v)
      (UInt8.ofNat (high <<< bits + greatestIn bits) :: digits)

/-- The octets of an integer hold no more digits than they need: the last digit is not zero, unless
it is the only one. -/
def Shortest (octets : Bytes) : Prop := 2 < octets.length → octets.getLast? ≠ some 0

instance (octets : Bytes) : Decidable (Shortest octets) := inferInstanceAs (Decidable (_ → _))

/-! ### Digits -/

theorem digits_encodeContinuation (v : Nat) : Digits v (encodeContinuation v) := by
  induction v using Nat.strongRecOn with
  | ind v ih =>
    rw [encodeContinuation]
    split
    · rename_i hlast
      exact .last hlast
    · have hmore := Digits.more (Nat.mod_lt v (by decide)) (ih (v / 128) (by omega))
      rwa [Nat.mod_add_div] at hmore

theorem Digits.ne_nil {v : Nat} {digits : Bytes} (h : Digits v digits) : digits ≠ [] := by
  cases h <;> simp

theorem Digits.getLast?_cons {v : Nat} {digits : Bytes} (h : Digits v digits) (byte : UInt8) :
    (byte :: digits).getLast? = digits.getLast? := by
  obtain ⟨first, rest, rfl⟩ := List.exists_cons_of_ne_nil h.ne_nil
  exact List.getLast?_cons_cons

private theorem Digits.getLast?_of_zero {digits : Bytes} (h : Digits 0 digits) :
    digits.getLast? = some 0 := by
  generalize hv : 0 = v at h
  induction h with
  | last h =>
    subst hv
    rfl
  | more h hdigits ih =>
    rw [hdigits.getLast?_cons]
    exact ih (by omega)

private theorem eq_zero_of_getLast?_encodeContinuation {v : Nat}
    (h : (encodeContinuation v).getLast? = some 0) : v = 0 := by
  induction v using Nat.strongRecOn with
  | ind v ih =>
    rw [encodeContinuation] at h
    split at h
    · have hbyte : UInt8.ofNat v = 0 := by simpa using h
      have := congrArg UInt8.toNat hbyte
      rw [UInt8.toNat_ofNat'] at this
      have hzero : v % 2 ^ 8 = 0 := this
      omega
    · rw [(digits_encodeContinuation _).getLast?_cons] at h
      have := ih (v / 128) (by omega) h
      omega

/-- Digits of which the last is not superfluous are those that are written. -/
theorem Digits.eq_encodeContinuation {v : Nat} {digits : Bytes} (h : Digits v digits)
    (hshort : 1 < digits.length → digits.getLast? ≠ some 0) : digits = encodeContinuation v := by
  induction h with
  | last h => rw [encodeContinuation, if_pos h]
  | @more digit v digits h hdigits ih =>
    have hlast : digits.getLast? ≠ some 0 := by
      rw [← hdigits.getLast?_cons]
      exact hshort (Nat.succ_lt_succ (List.length_pos_iff.mpr hdigits.ne_nil))
    have hpos : v ≠ 0 := by
      rintro rfl
      exact hlast hdigits.getLast?_of_zero
    rw [encodeContinuation, if_neg (by omega), ih fun _ ↦ hlast]
    congr 2 <;> omega

/-- Digits end where they say that they end. -/
theorem Digits.eq_of_append {v v' : Nat} {a b x y : Bytes} (ha : Digits v a) (hb : Digits v' b)
    (h : a ++ x = b ++ y) : a = b ∧ x = y := by
  have hne {n m : Nat} (hn : n < 128) (hm : m < 128) : UInt8.ofNat n ≠ UInt8.ofNat (m + 128) := by
    intro heq
    have := congrArg UInt8.toNat heq
    rw [UInt8.toNat_ofNat', UInt8.toNat_ofNat'] at this
    omega
  induction ha generalizing v' b with
  | last ha =>
    cases hb with
    | last hb =>
      obtain ⟨hbyte, hrest⟩ := List.cons.inj h
      exact ⟨by rw [hbyte], hrest⟩
    | more hb _ => exact absurd (List.cons.inj h).1 (hne ha hb)
  | more ha _ ih =>
    cases hb with
    | last hb => exact absurd (List.cons.inj h).1.symm (hne hb ha)
    | more hb hdigits =>
      obtain ⟨hbyte, htail⟩ := List.cons.inj h
      obtain ⟨rfl, hrest⟩ := ih hdigits htail
      exact ⟨by rw [hbyte], hrest⟩

/-! ### Whole integers -/

variable {bits high v : Nat} {octets : Bytes}

theorem spells_encode (bits high v : Nat) : Spells bits high v (encode bits high v) := by
  rw [encode]
  split
  · rename_i hv
    exact .short hv
  · have hlong : Spells bits high (greatestIn bits + (v - greatestIn bits)) _ :=
      .long (digits_encodeContinuation (v - greatestIn bits))
    rwa [Nat.add_sub_cancel' (by omega)] at hlong

theorem Spells.eq_encode (h : Spells bits high v octets) (hshort : Shortest octets) :
    octets = encode bits high v := by
  cases h with
  | short h => rw [encode, if_pos h]
  | long h =>
    have hdigits := h.eq_encodeContinuation fun hlength ↦ by
      rw [← h.getLast?_cons]
      exact hshort (Nat.succ_lt_succ hlength)
    rw [encode, if_neg (by omega), Nat.add_sub_cancel_left, ← hdigits]

theorem shortest_encode (bits high v : Nat) : Shortest (encode bits high v) := by
  rw [encode]
  split
  · exact fun hlength ↦ absurd hlength (by simp)
  · intro hlength hlast
    rw [(digits_encodeContinuation _).getLast?_cons] at hlast
    rw [eq_zero_of_getLast?_encodeContinuation hlast, encodeContinuation] at hlength
    exact absurd hlength (by simp)

/-- Two spellings of a number, each with something after it, end at the same place. -/
theorem Spells.eq_of_append {a b x y : Bytes} (ha : Spells bits high v a)
    (hb : Spells bits high v b) (h : a ++ x = b ++ y) : a = b ∧ x = y := by
  cases ha with
  | short ha =>
    cases hb with
    | short hb => exact ⟨rfl, (List.cons.inj h).2⟩
    | long hb => omega
  | long ha =>
    generalize hv : greatestIn bits + _ = v at hb
    cases hb with
    | short hb => omega
    | long hb =>
      obtain ⟨hdigits, hrest⟩ := ha.eq_of_append hb (List.cons.inj h).2
      exact ⟨by rw [hdigits], hrest⟩

end PrefixedInteger

/-! ## Parts -/

/-- A part of a section, which starts in the low bits of an octet. -/
inductive Part where
  /-- An integer with a prefix of `bits` bits, below the bits of `high`. -/
  | integer (bits high value : Nat)
  /-- A string whose length has a prefix of `bits` bits, below its flag and the bits of `high`. -/
  | string (bits high : Nat) (content : StringLiteral)

/-- The encoding of a part. -/
def Part.encode : Part → Bytes
  | integer bits high v => PrefixedInteger.encode bits high v
  | string bits high s => s.encode bits high

/-- The parts of a field line. -/
def FieldLine.parts : FieldLine → List Part
  | indexed .static index => [.integer 6 0b11 index]
  | indexed .relative index => [.integer 6 0b10 index]
  | indexed .postBase index => [.integer 4 0b0001 index]
  | nameReference .static neverIndexed index value =>
    [.integer 4 (0b0101 + 2 * neverIndexed.toNat) index, .string 7 0 value]
  | nameReference .relative neverIndexed index value =>
    [.integer 4 (0b0100 + 2 * neverIndexed.toNat) index, .string 7 0 value]
  | nameReference .postBase neverIndexed index value =>
    [.integer 3 neverIndexed.toNat index, .string 7 0 value]
  | literalName neverIndexed name value =>
    [.string 3 (0b0010 + neverIndexed.toNat) name, .string 7 0 value]

/-- The parts of a prefix, for a table with the given greatest number of entries. -/
def SectionPrefix.parts (maxEntries : Nat) (p : SectionPrefix) : List Part :=
  [.integer 8 0 (encodeInsertCount maxEntries p.requiredInsertCount),
    if p.requiredInsertCount ≤ p.base then .integer 7 0 (p.base - p.requiredInsertCount)
    else .integer 7 1 (p.requiredInsertCount - p.base - 1)]

/-- The parts of a section. -/
def sectionParts (maxEntries : Nat) (p : SectionPrefix) (lines : List FieldLine) : List Part :=
  p.parts maxEntries ++ lines.flatMap FieldLine.parts

theorem FieldLine.encode_eq_flatMap (line : FieldLine) :
    line.encode = line.parts.flatMap Part.encode := by
  rcases line with ⟨_ | _ | _, index⟩ | ⟨_ | _ | _, neverIndexed, index, value⟩ |
    ⟨neverIndexed, name, value⟩ <;> simp [encode, parts, Part.encode]

theorem SectionPrefix.encode_eq_flatMap (maxEntries : Nat) (p : SectionPrefix) :
    p.encode maxEntries = (p.parts maxEntries).flatMap Part.encode := by
  rw [encode, parts]
  split <;> simp [Part.encode]

theorem encodeSection_eq_flatMap (maxEntries : Nat) (p : SectionPrefix)
    (lines : List FieldLine) :
    encodeSection maxEntries p lines = (sectionParts maxEntries p lines).flatMap Part.encode := by
  have hlines : FieldLine.encode = fun line ↦ line.parts.flatMap Part.encode :=
    funext FieldLine.encode_eq_flatMap
  rw [encodeSection, sectionParts, List.flatMap_append, SectionPrefix.encode_eq_flatMap, hlines,
    List.flatMap_assoc]

/-! ## Lists of parts -/

/-- Octets that spell a list of parts, and the octets of each integer among them, in order. -/
inductive Spelled : (parts : List Part) → (integers : List Bytes) → (octets : Bytes) → Prop
  /-- No parts. -/
  | nil : Spelled [] [] []
  /-- An integer before other parts. -/
  | integer {bits high v : Nat} {octets : Bytes} {parts : List Part} {integers : List Bytes}
    {rest : Bytes} (h : PrefixedInteger.Spells bits high v octets)
    (hrest : Spelled parts integers rest) :
    Spelled (.integer bits high v :: parts) (octets :: integers) (octets ++ rest)
  /-- A string before other parts: the integer is its length, below its flag. -/
  | string {bits high : Nat} {s : StringLiteral} {octets : Bytes} {parts : List Part}
    {integers : List Bytes} {rest : Bytes}
    (h : PrefixedInteger.Spells bits (high * 2 + s.huffman.toNat) s.payload.length octets)
    (hrest : Spelled parts integers rest) :
    Spelled (.string bits high s :: parts) (octets :: integers) (octets ++ (s.payload ++ rest))

namespace Spelled

variable {parts parts' : List Part} {integers integers' : List Bytes} {octets octets' : Bytes}

theorem append (h : Spelled parts integers octets) (h' : Spelled parts' integers' octets') :
    Spelled (parts ++ parts') (integers ++ integers') (octets ++ octets') := by
  induction h with
  | nil => exact h'
  | integer h _ ih =>
    rw [List.append_assoc]
    exact .integer h ih
  | string h _ ih =>
    rw [List.append_assoc, List.append_assoc]
    exact .string h ih

theorem of_append (h : Spelled (parts ++ parts') integers octets) :
    ∃ found found' a b, integers = found ++ found' ∧ octets = a ++ b ∧ Spelled parts found a ∧
      Spelled parts' found' b := by
  induction parts generalizing integers octets with
  | nil => exact ⟨[], integers, [], octets, rfl, rfl, .nil, h⟩
  | cons part parts ih =>
    rw [List.cons_append] at h
    cases h with
    | integer h hrest =>
      obtain ⟨found, found', a, b, rfl, rfl, ha, hb⟩ := ih hrest
      exact ⟨_, found', _, b, rfl, (List.append_assoc ..).symm, .integer h ha, hb⟩
    | string h hrest =>
      obtain ⟨found, found', a, b, rfl, rfl, ha, hb⟩ := ih hrest
      refine ⟨_, found', _, b, rfl, ?_, .string h ha, hb⟩
      rw [List.append_assoc, List.append_assoc]

/-- **Shortest spellings.** The octets are the encoding of the parts just if every integer among
them is spelled as short as it can be. -/
theorem shortest_iff (h : Spelled parts integers octets) :
    (∀ octets ∈ integers, PrefixedInteger.Shortest octets) ↔
      parts.flatMap Part.encode = octets := by
  induction h with
  | nil => simp
  | @integer bits high v octets parts integers rest h hrest ih =>
    rw [List.forall_mem_cons, ih, List.flatMap_cons, Part.encode]
    constructor
    · rintro ⟨hshort, hparts⟩
      rw [hparts, h.eq_encode hshort]
    · intro heq
      obtain ⟨rfl, hparts⟩ := (PrefixedInteger.spells_encode bits high v).eq_of_append h heq
      exact ⟨PrefixedInteger.shortest_encode bits high v, hparts⟩
  | @string bits high s octets parts integers rest h hrest ih =>
    rw [List.forall_mem_cons, ih, List.flatMap_cons, Part.encode, StringLiteral.encode,
      List.append_assoc]
    constructor
    · rintro ⟨hshort, hparts⟩
      rw [hparts, h.eq_encode hshort]
    · intro heq
      obtain ⟨rfl, hparts⟩ := (PrefixedInteger.spells_encode _ _ _).eq_of_append h heq
      exact ⟨PrefixedInteger.shortest_encode _ _ _, List.append_cancel_left hparts⟩

end Spelled

end FieldCompression
