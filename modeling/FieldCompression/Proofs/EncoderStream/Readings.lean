import FieldCompression.Proofs.EncoderStream.Execution
import FieldCompression.Proofs.Strings.Readings

/-!
# Which instructions are read

The octets at the front of a buffer say by themselves which instruction they hold, or that they end
before one does. `Holds` says the first and `Lacks` the second, by the leading bits of the first
octet and by the integers and strings that follow one another from there. Neither mentions a reader,
and of the table only the capacity matters, as the limit of strings.

A scan finds out just that (`scan_reads`). Its third answer, that nothing after the octets can make
an instruction of them, is left for all the rest, and nothing here depends on why.

## Lifting along the scan

`Scan.Reads` relates a scan to what is at the front of a buffer, in both directions at once. It is
known of integers and strings, and it is put together for instructions as they are, item after item.
-/

namespace FieldCompression

/-! ## What a scan tells -/

namespace Scan

variable {α β : Type} {s : Scan α} {holds holds' : α → Bytes → Prop} {lacks lacks' : Prop}

theorem andThen_eq_incomplete_iff {next : α → Bytes → Scan β} :
    s.andThen next = incomplete ↔
      s = incomplete ∨ ∃ a middle, s = item a middle ∧ next a middle = incomplete := by
  constructor
  · intro h
    cases s with
    | item a middle => exact .inr ⟨a, middle, rfl, h⟩
    | incomplete => exact .inl rfl
    | invalid cause notes => exact absurd h (by simp [andThen])
  · rintro (rfl | ⟨a, middle, rfl, h⟩)
    · rfl
    · exact h

/-- The scan is an item just if the buffer begins with that item, and it is incomplete just if the
buffer ends too early. -/
structure Reads (holds : α → Bytes → Prop) (lacks : Prop) (s : Scan α) : Prop where
  /-- The buffer begins with an item. -/
  item_iff : ∀ a rest, s = item a rest ↔ holds a rest
  /-- The buffer ends before an item does. -/
  incomplete_iff : s = incomplete ↔ lacks

theorem Reads.congr (h : s.Reads holds lacks) (hholds : ∀ a rest, holds a rest ↔ holds' a rest)
    (hlacks : lacks ↔ lacks') : s.Reads holds' lacks' where
  item_iff a rest := (h.item_iff a rest).trans (hholds a rest)
  incomplete_iff := h.incomplete_iff.trans hlacks

theorem Reads.andThen {next : α → Bytes → Scan β} {holdsNext : α → Bytes → β → Bytes → Prop}
    {lacksNext : α → Bytes → Prop} (h : s.Reads holds lacks)
    (hnext : ∀ a middle, (next a middle).Reads (holdsNext a middle) (lacksNext a middle)) :
    (s.andThen next).Reads
      (fun b rest ↦ ∃ a middle, holds a middle ∧ holdsNext a middle b rest)
      (lacks ∨ ∃ a middle, holds a middle ∧ lacksNext a middle) where
  item_iff b rest := by
    constructor
    · intro hitem
      obtain ⟨a, middle, hfirst, hitem⟩ := andThen_eq_item hitem
      exact ⟨a, middle, (h.item_iff _ _).mp hfirst, ((hnext _ _).item_iff _ _).mp hitem⟩
    · rintro ⟨a, middle, hfirst, hitem⟩
      rw [(h.item_iff _ _).mpr hfirst]
      exact ((hnext a middle).item_iff b rest).mpr hitem
  incomplete_iff := by
    rw [andThen_eq_incomplete_iff, h.incomplete_iff]
    simp only [h.item_iff, (hnext _ _).incomplete_iff]

theorem Reads.map (h : s.Reads holds lacks) (f : α → β) :
    (s.map f).Reads (fun b rest ↦ ∃ a, f a = b ∧ holds a rest) lacks where
  item_iff b rest := by
    constructor
    · intro hitem
      obtain ⟨a, middle, hfirst, hitem⟩ := andThen_eq_item hitem
      obtain ⟨hvalue, rfl⟩ := item.inj hitem
      exact ⟨a, hvalue, (h.item_iff _ _).mp hfirst⟩
    · rintro ⟨a, rfl, hfirst⟩
      rw [(h.item_iff _ _).mpr hfirst]
      rfl
  incomplete_iff := by
    rw [Scan.map, andThen_eq_incomplete_iff, h.incomplete_iff]
    simp

theorem integer_reads {bits : Nat} (hbits : bits ≤ 8) (input : Bytes) :
    (integer bits input).Reads (PrefixedInteger.Holds bits input)
      (PrefixedInteger.Lacks bits input) where
  item_iff v rest := by
    rw [← PrefixedInteger.Reader.read_eq_some_iff hbits, integer]
    rcases ((PrefixedInteger.Reader.start bits).read input).result with cause | _ | value <;> simp
  incomplete_iff := by
    rw [← PrefixedInteger.Reader.result_read_eq_none_iff hbits, integer]
    rcases ((PrefixedInteger.Reader.start bits).read input).result with cause | _ | value <;> simp

theorem string_reads {bits : Nat} (hbits : bits ≤ 8) (limit : Nat) (input : Bytes) :
    (string limit bits input).Reads
      (fun s rest ↦ StringLiteral.Holds bits input s rest ∧ s.content.length ≤ limit)
      (StringLiteral.Lacks limit bits input) where
  item_iff s rest := by
    constructor
    · intro hitem
      simp only [string] at hitem
      split at hitem
      · exact absurd hitem (by simp)
      · exact absurd hitem (by simp)
      · exact absurd hitem (by simp)
      · rename_i hread
        obtain ⟨rfl, rfl⟩ := item.inj hitem
        exact StringLiteral.Reader.holds_of_read rfl hbits hread
    · rintro ⟨hholds, hfits⟩
      rw [string, StringLiteral.Reader.read_of_holds rfl hholds hfits]
  incomplete_iff := by
    have hlacks :
        (((StringLiteral.Reader.start bits).withLimit limit).read input).result = .ok none ↔
          StringLiteral.Lacks limit bits input :=
      StringLiteral.Reader.result_read_eq_none_iff rfl hbits
    rw [← hlacks]
    simp only [string]
    split <;> simp [*]

end Scan

/-! ## The front of a buffer -/

namespace Instruction

/-- The input begins with an instruction, and `rest` is what follows. -/
inductive Holds : Bytes → Instruction → Bytes → Prop
  /-- The index of a name, and a value. -/
  | insertNameReference {first : UInt8} {tail middle rest : Bytes} {index : Nat}
    {value : StringLiteral} (hfirst : 0b10000000 ≤ first.toNat)
    (hindex : PrefixedInteger.Holds 6 (first :: tail) index middle)
    (hvalue : StringLiteral.Holds 7 middle value rest) :
    Holds (first :: tail) (.insertNameReference (flagAt first 6) index value) rest
  /-- A name and a value. -/
  | insertLiteralName {first : UInt8} {tail middle rest : Bytes} {name value : StringLiteral}
    (hle : 0b01000000 ≤ first.toNat) (hlt : first.toNat < 0b10000000)
    (hname : StringLiteral.Holds 5 (first :: tail) name middle)
    (hvalue : StringLiteral.Holds 7 middle value rest) :
    Holds (first :: tail) (.insertLiteralName name value) rest
  /-- A capacity. -/
  | setCapacity {first : UInt8} {tail rest : Bytes} {capacity : Nat}
    (hle : 0b00100000 ≤ first.toNat) (hlt : first.toNat < 0b01000000)
    (hcapacity : PrefixedInteger.Holds 5 (first :: tail) capacity rest) :
    Holds (first :: tail) (.setCapacity capacity) rest
  /-- The index of an entry. -/
  | duplicate {first : UInt8} {tail rest : Bytes} {index : Nat} (hlt : first.toNat < 0b00100000)
    (hindex : PrefixedInteger.Holds 5 (first :: tail) index rest) :
    Holds (first :: tail) (.duplicate index) rest

/-- The input ends before an instruction does, of which nothing is wrong so far. -/
inductive Lacks (limit : Nat) : Bytes → Prop
  /-- It does not even begin. -/
  | nothing : Lacks limit []
  /-- It ends before the index of a name does. -/
  | nameIndex {first : UInt8} {tail : Bytes} (hfirst : 0b10000000 ≤ first.toNat)
    (hindex : PrefixedInteger.Lacks 6 (first :: tail)) : Lacks limit (first :: tail)
  /-- It ends before the value after an index does. -/
  | indexedValue {first : UInt8} {tail middle : Bytes} {index : Nat}
    (hfirst : 0b10000000 ≤ first.toNat)
    (hindex : PrefixedInteger.Holds 6 (first :: tail) index middle)
    (hvalue : StringLiteral.Lacks limit 7 middle) : Lacks limit (first :: tail)
  /-- It ends before a name does. -/
  | name {first : UInt8} {tail : Bytes} (hle : 0b01000000 ≤ first.toNat)
    (hlt : first.toNat < 0b10000000) (hname : StringLiteral.Lacks limit 5 (first :: tail)) :
    Lacks limit (first :: tail)
  /-- It ends before the value after a name does, and the name is within the limit. -/
  | namedValue {first : UInt8} {tail middle : Bytes} {name : StringLiteral}
    (hle : 0b01000000 ≤ first.toNat) (hlt : first.toNat < 0b10000000)
    (hname : StringLiteral.Holds 5 (first :: tail) name middle)
    (hfits : name.content.length ≤ limit) (hvalue : StringLiteral.Lacks limit 7 middle) :
    Lacks limit (first :: tail)
  /-- It ends before a capacity does, or the index of an entry. -/
  | number {first : UInt8} {tail : Bytes} (hlt : first.toNat < 0b01000000)
    (hnumber : PrefixedInteger.Lacks 5 (first :: tail)) : Lacks limit (first :: tail)

/-! ## Reading -/

section Patterns

variable {limit : Nat} {first : UInt8} {tail : Bytes}

private theorem nameReference_reads (hfirst : 0b10000000 ≤ first.toNat) :
    ((Scan.integer 6 (first :: tail)).andThen fun index rest ↦
      (Scan.string limit 7 rest).map (insertNameReference (flagAt first 6) index)).Reads
      (fun i rest ↦ Holds (first :: tail) i rest ∧ i.Readable limit)
      (Lacks limit (first :: tail)) := by
  refine ((Scan.integer_reads (by decide) _).andThen fun _ middle ↦
    (Scan.string_reads (by decide) limit middle).map _).congr ?_ ?_
  · intro i rest
    constructor
    · rintro ⟨index, middle, hindex, value, rfl, hvalue, hfits⟩
      exact ⟨.insertNameReference hfirst hindex hvalue, hindex.lt (by decide), hfits⟩
    · rintro ⟨hholds, hreadable⟩
      cases hholds with
      | insertNameReference _ hindex hvalue => exact ⟨_, _, hindex, _, rfl, hvalue, hreadable.2⟩
      | insertLiteralName | setCapacity | duplicate => omega
  · constructor
    · rintro (hindex | ⟨index, middle, hindex, hvalue⟩)
      · exact .nameIndex hfirst hindex
      · exact .indexedValue hfirst hindex hvalue
    · intro hlacks
      cases hlacks with
      | nameIndex _ hindex => exact .inl hindex
      | indexedValue _ hindex hvalue => exact .inr ⟨_, _, hindex, hvalue⟩
      | name | namedValue | number => omega

private theorem literalName_reads (hle : 0b01000000 ≤ first.toNat)
    (hlt : first.toNat < 0b10000000) :
    ((Scan.string limit 5 (first :: tail)).andThen fun name rest ↦
      (Scan.string limit 7 rest).map (insertLiteralName name)).Reads
      (fun i rest ↦ Holds (first :: tail) i rest ∧ i.Readable limit)
      (Lacks limit (first :: tail)) := by
  refine ((Scan.string_reads (by decide) limit _).andThen fun _ middle ↦
    (Scan.string_reads (by decide) limit middle).map _).congr ?_ ?_
  · intro i rest
    constructor
    · rintro ⟨name, middle, ⟨hname, hnameFits⟩, value, rfl, hvalue, hfits⟩
      exact ⟨.insertLiteralName hle hlt hname hvalue, hnameFits, hfits⟩
    · rintro ⟨hholds, hreadable⟩
      cases hholds with
      | insertLiteralName _ _ hname hvalue =>
        exact ⟨_, _, ⟨hname, hreadable.1⟩, _, rfl, hvalue, hreadable.2⟩
      | insertNameReference | setCapacity | duplicate => omega
  · constructor
    · rintro (hname | ⟨name, middle, ⟨hname, hfits⟩, hvalue⟩)
      · exact .name hle hlt hname
      · exact .namedValue hle hlt hname hfits hvalue
    · intro hlacks
      cases hlacks with
      | name _ _ hname => exact .inl hname
      | namedValue _ _ hname hfits hvalue => exact .inr ⟨_, _, ⟨hname, hfits⟩, hvalue⟩
      | nameIndex | indexedValue | number => omega

/-- The two patterns that consist of a number end too early in the same way. -/
theorem lacks_iff_of_number (hlt : first.toNat < 0b01000000) :
    PrefixedInteger.Lacks 5 (first :: tail) ↔ Lacks limit (first :: tail) := by
  constructor
  · intro hnumber
    exact .number hlt hnumber
  · intro hlacks
    cases hlacks with
    | number _ hnumber => exact hnumber
    | nameIndex | indexedValue | name | namedValue => omega

private theorem setCapacity_reads (hle : 0b00100000 ≤ first.toNat)
    (hlt : first.toNat < 0b01000000) :
    ((Scan.integer 5 (first :: tail)).map setCapacity).Reads
      (fun i rest ↦ Holds (first :: tail) i rest ∧ i.Readable limit)
      (Lacks limit (first :: tail)) := by
  refine ((Scan.integer_reads (by decide) _).map setCapacity).congr ?_ (lacks_iff_of_number hlt)
  intro i rest
  constructor
  · rintro ⟨capacity, rfl, hcapacity⟩
    exact ⟨.setCapacity hle hlt hcapacity, hcapacity.lt (by decide)⟩
  · rintro ⟨hholds, -⟩
    cases hholds with
    | setCapacity _ _ hcapacity => exact ⟨_, rfl, hcapacity⟩
    | insertNameReference | insertLiteralName | duplicate => omega

private theorem duplicate_reads (hlt : first.toNat < 0b00100000) :
    ((Scan.integer 5 (first :: tail)).map duplicate).Reads
      (fun i rest ↦ Holds (first :: tail) i rest ∧ i.Readable limit)
      (Lacks limit (first :: tail)) := by
  refine ((Scan.integer_reads (by decide) _).map duplicate).congr ?_
    (lacks_iff_of_number (Nat.lt_trans hlt (by decide)))
  intro i rest
  constructor
  · rintro ⟨index, rfl, hindex⟩
    exact ⟨.duplicate hlt hindex, hindex.lt (by decide)⟩
  · rintro ⟨hholds, -⟩
    cases hholds with
    | duplicate _ hindex => exact ⟨_, rfl, hindex⟩
    | insertNameReference | insertLiteralName | setCapacity => omega

end Patterns

/-- **Instructions read exactly.** A scan finds an instruction just if the buffer begins with it and
its strings are within the limit, and it wants more just if the buffer ends too early. -/
theorem scan_reads (limit : Nat) (input : Bytes) :
    (scan limit input).Reads (fun i rest ↦ Holds input i rest ∧ i.Readable limit)
      (Lacks limit input) := by
  cases input with
  | nil =>
    constructor
    · intro i rest
      refine iff_of_false (by simp [scan]) ?_
      rintro ⟨hholds, -⟩
      cases hholds
    · exact iff_of_true rfl .nothing
  | cons first tail =>
    rw [scan]
    -- the first octet says which instruction it is, in the scan and in what is said of the octets
    split
    · rename_i hfirst
      exact nameReference_reads hfirst
    rename_i hfirst
    split
    · rename_i hname
      exact literalName_reads hname (Nat.not_le.mp hfirst)
    rename_i hname
    split
    · rename_i hcapacity
      exact setCapacity_reads hcapacity (Nat.not_le.mp hname)
    · rename_i hcapacity
      exact duplicate_reads (Nat.not_le.mp hcapacity)

end Instruction

end FieldCompression
