import FieldCompression.Proofs.Grammar.Spellings
import FieldCompression.Proofs.Roundtrip.Lines

/-!
# The integers of a section

Which octets of a section are integers can be seen without decoding it. The first octet of a line
tells its form, a full prefix tells that digits follow, a clear high bit tells that they end, and
the length of a string tells how many octets to pass over. `sectionIntegers` finds the integers in
this way, and `Minimal` says that none of them has a digit too many.

On octets that spell a list of parts it finds the integers of those parts. So the grammar is
unambiguous as far as integers are concerned, and to speak of the integers of a section one need
not say which parts it is taken to have.
-/

namespace FieldCompression

namespace PrefixedInteger

/-! ## One integer -/

/-- The digits at the front. -/
def takeDigits : Bytes → Bytes
  | [] => []
  | byte :: rest => if byte.toNat < 128 then [byte] else byte :: takeDigits rest

/-- The integer at the front, with a prefix of `bits` bits. -/
def takeInteger (bits : Nat) : Bytes → Bytes
  | [] => []
  | first :: rest =>
    if first.toNat % (1 <<< bits) < greatestIn bits then [first] else first :: takeDigits rest

/-- The number that some digits spell. -/
def digitsValue : Bytes → Nat
  | [] => 0
  | byte :: rest => byte.toNat % 128 + 128 * digitsValue rest

/-- The number that an integer spells, with a prefix of `bits` bits. -/
def valueOf (bits : Nat) : Bytes → Nat
  | [] => 0
  | first :: rest => first.toNat % (1 <<< bits) + digitsValue rest

private theorem Digits.takeDigits_append {v : Nat} {digits : Bytes} (h : Digits v digits)
    (rest : Bytes) : takeDigits (digits ++ rest) = digits := by
  induction h with
  | @last digit h =>
    have hbyte : (UInt8.ofNat digit).toNat = digit :=
      UInt8.toNat_ofNat_of_lt' (Nat.lt_trans h (by decide))
    rw [List.cons_append, takeDigits, hbyte, if_pos h]
  | @more digit v digits h _ ih =>
    have hbyte : (UInt8.ofNat (digit + 128)).toNat = digit + 128 :=
      UInt8.toNat_ofNat_of_lt' (Nat.add_lt_add_right h 128)
    rw [List.cons_append, takeDigits, hbyte, if_neg (by omega), ih]

private theorem Digits.digitsValue_eq {v : Nat} {digits : Bytes} (h : Digits v digits) :
    digitsValue digits = v := by
  induction h with
  | @last digit h =>
    have hbyte : (UInt8.ofNat digit).toNat = digit :=
      UInt8.toNat_ofNat_of_lt' (Nat.lt_trans h (by decide))
    rw [digitsValue, digitsValue, hbyte]
    omega
  | @more digit v digits h _ ih =>
    have hbyte : (UInt8.ofNat (digit + 128)).toNat = digit + 128 :=
      UInt8.toNat_ofNat_of_lt' (Nat.add_lt_add_right h 128)
    rw [digitsValue, hbyte, ih]
    omega

section Spells

variable {bits high v : Nat} {octets : Bytes} (hhigh : (high + 1) <<< bits ≤ 256)
  (h : Spells bits high v octets)

include hhigh h

theorem Spells.takeInteger_append (rest : Bytes) : takeInteger bits (octets ++ rest) = octets := by
  cases h with
  | short h =>
    rw [List.cons_append, takeInteger, first_mod hhigh (Nat.lt_trans h (greatestIn_lt bits)),
      if_pos h]
  | long h =>
    rw [List.cons_append, takeInteger, first_mod hhigh (greatestIn_lt bits),
      if_neg (Nat.lt_irrefl _), h.takeDigits_append]

theorem Spells.valueOf_eq : valueOf bits octets = v := by
  cases h with
  | short h =>
    rw [valueOf, first_mod hhigh (Nat.lt_trans h (greatestIn_lt bits)), digitsValue, Nat.add_zero]
  | long h => rw [valueOf, first_mod hhigh (greatestIn_lt bits), h.digitsValue_eq]

theorem Spells.exists_first : ∃ first rest, octets = first :: rest ∧ high <<< bits ≤ first.toNat ∧
    first.toNat < (high + 1) <<< bits := by
  have hbound {x : Nat} (hx : x < 1 <<< bits) :
      high <<< bits + x < (high + 1) <<< bits := by
    rw [shiftLeft_eq_mul (high + 1), Nat.add_mul, ← shiftLeft_eq_mul]
    omega
  cases h with
  | short h =>
    have hx := Nat.lt_trans h (greatestIn_lt bits)
    refine ⟨_, _, rfl, ?_⟩
    rw [toNat_first hhigh hx]
    exact ⟨Nat.le_add_right _ _, hbound hx⟩
  | long h =>
    have hx := greatestIn_lt bits
    refine ⟨_, _, rfl, ?_⟩
    rw [toNat_first hhigh hx]
    exact ⟨Nat.le_add_right _ _, hbound hx⟩

end Spells

end PrefixedInteger

/-! ## The integers of some parts -/

/-- What must be known of a part to find its integer, and the next part after it. -/
structure Slot where
  /-- The number of bits in the prefix of the integer. -/
  bits : Nat
  /-- Whether the integer is the length of octets that follow it. -/
  isLength : Bool
deriving DecidableEq, Repr

namespace Slot

/-- The integer of the part at the front. -/
def integer (slot : Slot) (input : Bytes) : Bytes := PrefixedInteger.takeInteger slot.bits input

/-- How many octets the part at the front has. -/
def extent (slot : Slot) (input : Bytes) : Nat :=
  (slot.integer input).length +
    if slot.isLength then PrefixedInteger.valueOf slot.bits (slot.integer input) else 0

/-- The integers of the parts at the front. -/
def integersOf : List Slot → Bytes → List Bytes
  | [], _ => []
  | slot :: slots, input => slot.integer input :: integersOf slots (input.drop (slot.extent input))

/-- What follows the parts at the front. -/
def restOf : List Slot → Bytes → Bytes
  | [], input => input
  | slot :: slots, input => restOf slots (input.drop (slot.extent input))

/-- The parts of a line, by its first octet. -/
def ofLine (first : UInt8) : List Slot :=
  if 0b10000000 ≤ first.toNat then [⟨6, false⟩]
  else if 0b01000000 ≤ first.toNat then [⟨4, false⟩, ⟨7, true⟩]
  else if 0b00100000 ≤ first.toNat then [⟨3, true⟩, ⟨7, true⟩]
  else if 0b00010000 ≤ first.toNat then [⟨4, false⟩]
  else [⟨3, false⟩, ⟨7, true⟩]

/-- The parts of a prefix. -/
def ofPrefix : List Slot := [⟨8, false⟩, ⟨7, false⟩]

private theorem length_restOf_le (slots : List Slot) (input : Bytes) :
    (restOf slots input).length ≤ input.length := by
  induction slots generalizing input with
  | nil => exact Nat.le_refl _
  | cons slot slots ih =>
    refine Nat.le_trans (ih _) ?_
    rw [List.length_drop]
    exact Nat.sub_le _ _

private theorem extent_pos (slot : Slot) (first : UInt8) (rest : Bytes) :
    0 < slot.extent (first :: rest) := by
  have : 0 < (slot.integer (first :: rest)).length := by
    rw [integer, PrefixedInteger.takeInteger]
    split <;> simp
  rw [extent]
  omega

private theorem length_restOf_ofLine_lt (first : UInt8) (rest : Bytes) :
    (restOf (ofLine first) (first :: rest)).length < (first :: rest).length := by
  obtain ⟨slot, slots, hslots⟩ : ∃ slot slots, ofLine first = slot :: slots := by
    rw [ofLine]
    repeat' split
    all_goals exact ⟨_, _, rfl⟩
  have hpos := slot.extent_pos first rest
  have hle := length_restOf_le slots ((first :: rest).drop (slot.extent (first :: rest)))
  rw [List.length_drop] at hle
  rw [hslots, restOf]
  have : 0 < (first :: rest).length := Nat.succ_pos _
  omega

end Slot

/-- The integers of lines. -/
def linesIntegers : Bytes → List Bytes
  | [] => []
  | first :: rest =>
    Slot.integersOf (Slot.ofLine first) (first :: rest) ++
      linesIntegers (Slot.restOf (Slot.ofLine first) (first :: rest))
termination_by input => input.length
decreasing_by exact Slot.length_restOf_ofLine_lt first rest

/-- The integers of a section. -/
def sectionIntegers (input : Bytes) : List Bytes :=
  Slot.integersOf Slot.ofPrefix input ++ linesIntegers (Slot.restOf Slot.ofPrefix input)

/-- No integer of a section has a digit too many. -/
def Minimal (input : Bytes) : Prop :=
  ∀ octets ∈ sectionIntegers input, PrefixedInteger.Shortest octets

instance (input : Bytes) : Decidable (Minimal input) := inferInstanceAs (Decidable (∀ _ ∈ _, _))

/-! ## Finding the integers of what is spelled -/

namespace Part

/-- What must be known of a part to find its integer. -/
def slot : Part → Slot
  | integer bits _ _ => ⟨bits, false⟩
  | string bits _ _ => ⟨bits, true⟩

/-- What stands above the prefix of a part fits in its first octet. -/
def Fits : Part → Prop
  | integer bits high _ => (high + 1) <<< bits ≤ 256
  | string bits high _ => (high * 2 + 2) <<< bits ≤ 256

/-- A part can begin with the octet of the given value. -/
def Opens (n : Nat) : Part → Prop
  | integer bits high _ => high <<< bits ≤ n ∧ n < (high + 1) <<< bits
  | string bits high _ => (high * 2) <<< bits ≤ n ∧ n < (high * 2 + 2) <<< bits

end Part

namespace Spelled

variable {part : Part} {parts : List Part} {integers : List Bytes} {octets : Bytes}

theorem exists_first (h : Spelled (part :: parts) integers octets) (hfits : part.Fits) :
    ∃ first rest, octets = first :: rest ∧ part.Opens first.toNat := by
  cases h with
  | integer h _ =>
    obtain ⟨first, rest, rfl, hfirst⟩ := h.exists_first hfits
    exact ⟨first, _, List.cons_append, hfirst⟩
  | @string bits high s _ _ _ _ h _ =>
    obtain ⟨first, rest, rfl, hlow, hhigh⟩ :=
      h.exists_first (StringLiteral.Reader.first_le hfits s.huffman)
    refine ⟨first, _, List.cons_append, ?_⟩
    have hflag : s.huffman.toNat ≤ 1 := s.huffman.toNat_le
    rw [Nat.shiftLeft_eq] at hlow hhigh
    rw [Part.Opens, Nat.shiftLeft_eq, Nat.shiftLeft_eq]
    exact ⟨Nat.le_trans (Nat.mul_le_mul_right _ (by omega)) hlow,
      Nat.lt_of_lt_of_le hhigh (Nat.mul_le_mul_right _ (by omega))⟩

theorem integersOf_append (h : Spelled parts integers octets) (hfits : ∀ part ∈ parts, part.Fits)
    (more : Bytes) :
    Slot.integersOf (parts.map Part.slot) (octets ++ more) = integers ∧
      Slot.restOf (parts.map Part.slot) (octets ++ more) = more := by
  induction h with
  | nil => exact ⟨rfl, rfl⟩
  | @integer bits high v octets parts integers rest h hrest ih =>
    obtain ⟨hhigh, hmore⟩ := List.forall_mem_cons.mp hfits
    have htake : Slot.integer ⟨bits, false⟩ (octets ++ (rest ++ more)) = octets :=
      h.takeInteger_append hhigh _
    have hextent : Slot.extent ⟨bits, false⟩ (octets ++ (rest ++ more)) = octets.length := by
      simp [Slot.extent, htake]
    rw [List.append_assoc, List.map_cons, Part.slot, Slot.integersOf, Slot.restOf, htake, hextent,
      List.drop_left]
    obtain ⟨hintegers, hrestOf⟩ := ih hmore
    exact ⟨by rw [hintegers], hrestOf⟩
  | @string bits high s octets parts integers rest h hrest ih =>
    obtain ⟨hhigh, hmore⟩ := List.forall_mem_cons.mp hfits
    have hflag := StringLiteral.Reader.first_le hhigh s.huffman
    have htake : Slot.integer ⟨bits, true⟩ (octets ++ (s.payload ++ (rest ++ more))) = octets :=
      h.takeInteger_append hflag _
    have hextent : Slot.extent ⟨bits, true⟩ (octets ++ (s.payload ++ (rest ++ more))) =
        (octets ++ s.payload).length := by
      simp [Slot.extent, htake, h.valueOf_eq hflag]
    rw [List.append_assoc, List.append_assoc, List.map_cons, Part.slot, Slot.integersOf,
      Slot.restOf, htake, hextent, ← List.append_assoc octets, List.drop_left]
    obtain ⟨hintegers, hrestOf⟩ := ih hmore
    exact ⟨by rw [hintegers], hrestOf⟩

end Spelled

namespace FieldLine

private theorem fits_parts (line : FieldLine) : ∀ part ∈ line.parts, part.Fits := by
  rcases line with ⟨_ | _ | _, index⟩ | ⟨_ | _ | _, _ | _, index, value⟩ |
    ⟨_ | _, name, value⟩ <;> simp [parts, Part.Fits]

/-- The first octet tells the forms of a line apart. -/
theorem ofLine_of_opens {line : FieldLine} {part : Part} {parts : List Part} {first : UInt8}
    (hparts : line.parts = part :: parts) (h : part.Opens first.toNat) :
    Slot.ofLine first = line.parts.map Part.slot := by
  rcases line with ⟨_ | _ | _, index⟩ | ⟨_ | _ | _, neverIndexed, index, value⟩ |
    ⟨neverIndexed, name, value⟩ <;> obtain ⟨rfl, rfl⟩ := List.cons.inj hparts <;>
    obtain ⟨hlow, hhigh⟩ := h
  · rw [Slot.ofLine, if_pos (by omega)]
    rfl
  · rw [Slot.ofLine, if_pos (by omega)]
    rfl
  · rw [Slot.ofLine, if_neg (by omega), if_neg (by omega), if_neg (by omega), if_pos (by omega)]
    rfl
  · have := neverIndexed.toNat_le
    rw [Slot.ofLine, if_neg (by omega), if_pos (by omega)]
    rfl
  · have := neverIndexed.toNat_le
    rw [Slot.ofLine, if_neg (by omega), if_pos (by omega)]
    rfl
  · have := neverIndexed.toNat_le
    rw [Slot.ofLine, if_neg (by omega), if_neg (by omega), if_neg (by omega), if_neg (by omega)]
    rfl
  · have := neverIndexed.toNat_le
    rw [Slot.ofLine, if_neg (by omega), if_neg (by omega), if_pos (by omega)]
    rfl

private theorem exists_parts_eq_cons (line : FieldLine) :
    ∃ part parts, line.parts = part :: parts := by
  rcases line with ⟨_ | _ | _, index⟩ | ⟨_ | _ | _, neverIndexed, index, value⟩ |
    ⟨neverIndexed, name, value⟩ <;> exact ⟨_, _, rfl⟩

end FieldLine

namespace Spelled

variable {integers : List Bytes} {octets : Bytes}

theorem linesIntegers_eq {lines : List FieldLine}
    (h : Spelled (lines.flatMap FieldLine.parts) integers octets) :
    linesIntegers octets = integers := by
  induction lines generalizing integers octets with
  | nil =>
    cases h
    rw [linesIntegers]
  | cons line lines ih =>
    rw [List.flatMap_cons] at h
    obtain ⟨found, found', a, b, rfl, rfl, hline, hlines⟩ := h.of_append
    have hfits := line.fits_parts
    obtain ⟨part, parts, hparts⟩ := line.exists_parts_eq_cons
    obtain ⟨first, rest, rfl, hopens⟩ :=
      exists_first (hparts ▸ hline) (hfits part (hparts ▸ List.mem_cons_self))
    obtain ⟨hintegers, hrest⟩ := hline.integersOf_append hfits b
    rw [← FieldLine.ofLine_of_opens hparts hopens, List.cons_append] at hintegers hrest
    rw [List.cons_append, linesIntegers, hintegers, hrest, ih hlines]

/-- **Unambiguous integers.** The integers of a section are found, whichever parts it is taken to
have. -/
theorem sectionIntegers_eq {maxEntries : Nat} {p : SectionPrefix} {lines : List FieldLine}
    (h : Spelled (sectionParts maxEntries p lines) integers octets) :
    sectionIntegers octets = integers := by
  obtain ⟨found, found', a, b, rfl, rfl, hprefix, hlines⟩ := of_append h
  have hfits : ∀ part ∈ p.parts maxEntries, part.Fits := by
    rw [SectionPrefix.parts]
    split <;> simp [Part.Fits]
  have hslots : (p.parts maxEntries).map Part.slot = Slot.ofPrefix := by
    rw [SectionPrefix.parts]
    split <;> rfl
  obtain ⟨hintegers, hrest⟩ := hprefix.integersOf_append hfits b
  rw [hslots] at hintegers hrest
  rw [sectionIntegers, hintegers, hrest, hlines.linesIntegers_eq]

/-- **Minimal sections.** A section that is spelled without a digit too many is the encoding of its
prefix and its lines, and no other is. -/
theorem minimal_iff {maxEntries : Nat} {p : SectionPrefix} {lines : List FieldLine}
    (h : Spelled (sectionParts maxEntries p lines) integers octets) :
    Minimal octets ↔ encodeSection maxEntries p lines = octets := by
  rw [Minimal, h.sectionIntegers_eq, h.shortest_iff, encodeSection_eq_flatMap]

end Spelled

end FieldCompression
