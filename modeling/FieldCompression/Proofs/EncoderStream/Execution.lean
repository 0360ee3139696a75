import FieldCompression.Proofs.DynamicTable.Reachable
import FieldCompression.Proofs.EncoderStream.Fragmentation
import FieldCompression.Proofs.Roundtrip.Lines

/-!
# Instructions executed as they are meant

What an instruction means for a table is said here without the functions that read and execute it.
The encodings of instructions, received as one chunk, are then shown to do just that, up to the
first that is invalid.
-/

namespace FieldCompression

/-! ## Encoded instructions at the front of a buffer

The front of a buffer that begins with the encoding of an instruction is that instruction or it is
invalid, and which of the two is known from the instruction alone: its numbers must have 64 bits,
and each of its strings must be within the limit. It is never incomplete, whatever follows.

`Scan.Finds` says both at once. It is shown for integers and for strings, and it is put together for
instructions along the scan. -/

/-! ### Numbers that are too large -/

private theorem PrefixedInteger.readContinuation_of_le {value shift v : Nat}
    (hbound : wordBound ≤ value + v <<< shift) (rest : Bytes) :
    (Reader.readContinuation value shift (encodeContinuation v ++ rest)).result =
      .error .integerOverflow := by
  induction v using Nat.strongRecOn generalizing value shift with
  | ind v ih =>
    rw [encodeContinuation]
    split
    · rename_i hlast
      have hbyte : (UInt8.ofNat v).toNat = v :=
        UInt8.toNat_ofNat_of_lt' (Nat.lt_trans hlast (by decide))
      rw [List.cons_append, List.nil_append, Reader.readContinuation, hbyte,
        Nat.mod_eq_of_lt hlast, if_pos (.inr hbound)]
    · rename_i hmore
      have hbyte : (UInt8.ofNat (v % 128 + 128)).toNat = v % 128 + 128 :=
        UInt8.toNat_ofNat_of_lt' (by rw [UInt8.size]; omega)
      have hdigit : (v % 128 + 128) % 128 = v % 128 := by omega
      rw [List.cons_append, Reader.readContinuation, hbyte, hdigit]
      -- refused at this digit, or later, since the sum stays the same
      split
      · rfl
      · rw [if_neg (by omega)]
        refine ih (v / 128) (by omega) ?_
        rwa [Nat.add_assoc, digits_shiftLeft]

theorem PrefixedInteger.read_encode_of_le {bits high v : Nat} (hhigh : (high + 1) <<< bits ≤ 256)
    (hbits : greatestIn bits ≤ wordBound) (hv : wordBound ≤ v) (rest : Bytes) :
    ((Reader.start bits).read (encode bits high v ++ rest)).result = .error .integerOverflow := by
  have hlarge : ¬v < greatestIn bits := by omega
  rw [encode, if_neg hlarge, List.cons_append, Reader.read, first_mod hhigh (greatestIn_lt bits)]
  simp only [Nat.lt_irrefl, if_false]
  refine readContinuation_of_le ?_ rest
  rw [Nat.shiftLeft_zero]
  omega

/-! ### Strings that are too long -/

namespace StringLiteral.Reader

private theorem failed_readPayload_payload {r : Reader} {s : StringLiteral}
    (hhuffman : r.huffman = s.huffman) (hlimit : r.limit < s.content.length) (rest : Bytes) :
    Failed (r.readPayload s.payload.length 0 {} (s.payload ++ rest)).result := by
  obtain ⟨d, -, hexpand⟩ := expand_payload hhuffman
  refine failed_readPayload_of_limit_lt ?_
  rw [min_length_append, List.take_left, hexpand, Nat.zero_add]
  exact hlimit

/-- A string whose content exceeds the limit is refused, for its length or when it is decoded. -/
theorem failed_read_encode {r : Reader} {bits high : Nat} (hphase : r.phase = .flag bits)
    (hhigh : (high * 2 + 2) <<< bits ≤ 256) (hbits : PrefixedInteger.greatestIn bits ≤ wordBound)
    {s : StringLiteral} (hlimit : r.limit < s.content.length) (rest : Bytes) :
    Failed (r.read (s.encode bits high ++ rest)).result := by
  have hfirst := first_le hhigh s.huffman
  rw [read_flag hphase hhigh]
  by_cases hlength : s.payload.length < wordBound
  · have hread := PrefixedInteger.read_encode hfirst hlength (s.payload ++ rest)
    simp only [readLength, hread]
    split
    · exact failed_error _
    · exact failed_readPayload_payload (r := { r with huffman := s.huffman }) rfl hlimit rest
  · have hread := PrefixedInteger.read_encode_of_le hfirst hbits (Nat.not_lt.mp hlength)
      (s.payload ++ rest)
    simp only [readLength, hread]
    exact failed_error _

end StringLiteral.Reader

/-! ### What a scan finds -/

namespace Scan

variable {α β : Type} {p q : Prop} {s : Scan α} {a : α} {b : β} {middle rest : Bytes}

/-- The front of a buffer holds the given item if `p`, and otherwise something invalid. -/
structure Finds (p : Prop) (value : α) (rest : Bytes) (s : Scan α) : Prop where
  /-- The item is there. -/
  item : p → s = item value rest
  /-- Nothing else could be there. -/
  invalid : ¬p → ∃ cause notes, s = invalid cause notes

theorem Finds.andThen {next : α → Bytes → Scan β} (hfirst : s.Finds p a middle)
    (hnext : (next a middle).Finds q b rest) : (s.andThen next).Finds (p ∧ q) b rest where
  item := by
    rintro ⟨hp, hq⟩
    rw [hfirst.item hp]
    exact hnext.item hq
  invalid := by
    intro hnot
    by_cases hp : p
    · rw [hfirst.item hp]
      exact hnext.invalid fun hq ↦ hnot ⟨hp, hq⟩
    · obtain ⟨cause, notes, hinvalid⟩ := hfirst.invalid hp
      exact ⟨cause, notes, by rw [hinvalid, Scan.andThen]⟩

theorem Finds.map (h : s.Finds p a rest) (f : α → β) : (s.map f).Finds p (f a) rest where
  item := by
    intro hp
    rw [h.item hp]
    rfl
  invalid := by
    intro hp
    obtain ⟨cause, notes, hinvalid⟩ := h.invalid hp
    exact ⟨cause, notes, by rw [hinvalid]; rfl⟩

theorem integer_encode {bits high : Nat} (hhigh : (high + 1) <<< bits ≤ 256)
    (hbits : PrefixedInteger.greatestIn bits ≤ wordBound) (v : Nat) (rest : Bytes) :
    (integer bits (PrefixedInteger.encode bits high v ++ rest)).Finds (v < wordBound) v rest where
  item := by
    intro hv
    rw [integer, PrefixedInteger.read_encode hhigh hv]
  invalid := by
    intro hv
    have hread := PrefixedInteger.read_encode_of_le hhigh hbits (Nat.not_lt.mp hv) rest
    exact ⟨.integerOverflow, [], by simp only [integer, hread]⟩

theorem string_encode {limit bits high : Nat}
    (hlimit : limit * StringLiteral.maxExpansion < wordBound)
    (hhigh : (high * 2 + 2) <<< bits ≤ 256) (hbits : PrefixedInteger.greatestIn bits ≤ wordBound)
    (s : StringLiteral) (rest : Bytes) :
    (string limit bits (s.encode bits high ++ rest)).Finds (s.content.length ≤ limit) s rest where
  item := by
    intro hcontent
    -- a payload is at most four times as long as its content, so its length has 64 bits
    have hlength : s.payload.length < wordBound := by
      have hpayload := s.length_payload_le
      rw [StringLiteral.maxExpansion] at hpayload hlimit
      split at hpayload <;> omega
    rw [string, StringLiteral.Reader.read_encode rfl hhigh s hlength hcontent]
  invalid := by
    intro hcontent
    exact exists_invalid_of_failed
      (StringLiteral.Reader.failed_read_encode rfl hhigh hbits (Nat.not_le.mp hcontent) rest)

end Scan

/-! ### Instructions -/

namespace Instruction

/-- What is required of an instruction for a scan whose strings have at most `limit` octets. -/
def Readable (limit : Nat) : Instruction → Prop
  | setCapacity capacity => capacity < wordBound
  | insertNameReference _ index value => index < wordBound ∧ value.content.length ≤ limit
  | insertLiteralName name value => name.content.length ≤ limit ∧ value.content.length ≤ limit
  | duplicate index => index < wordBound

/-- **Instructions read back.** The encoding of an instruction is scanned as that instruction, or it
is invalid. -/
theorem scan_encode {limit : Nat} (hlimit : limit * StringLiteral.maxExpansion < wordBound)
    (i : Instruction) (rest : Bytes) :
    (scan limit (i.encode ++ rest)).Finds (i.Readable limit) i rest := by
  -- the value of the first octet tells the pattern, and the items are read one by one
  cases i with
  | setCapacity capacity =>
    have hhigh : (0b001 + 1) <<< 5 ≤ 256 := by decide
    obtain ⟨first, tail, hencode, hle, hlt, -⟩ := PrefixedInteger.exists_first hhigh capacity
    rw [encode, hencode, List.cons_append, scan, if_neg (by omega), if_neg (by omega),
      if_pos (by omega), ← List.cons_append, ← hencode]
    exact (Scan.integer_encode hhigh (by decide) capacity rest).map setCapacity
  | insertNameReference fromStatic index value =>
    have hflag := fromStatic.toNat_le
    have hhigh : (0b10 + fromStatic.toNat + 1) <<< 6 ≤ 256 := by omega
    obtain ⟨first, tail, hencode, hle, -, hfirst⟩ := PrefixedInteger.exists_first hhigh index
    have hstatic : flagAt first 6 = fromStatic := by
      rw [hfirst]
      cases fromStatic <;> rfl
    rw [encode, List.append_assoc, hencode, List.cons_append, scan, if_pos (by omega), hstatic,
      ← List.cons_append, ← hencode]
    refine (Scan.integer_encode hhigh (by decide) index (value.encode 7 0 ++ rest)).andThen ?_
    exact (Scan.string_encode hlimit (by decide) (by decide) value rest).map _
  | insertLiteralName name value =>
    have hflag := name.huffman.toNat_le
    have hhigh : (0b01 * 2 + 2) <<< 5 ≤ 256 := by decide
    obtain ⟨first, tail, hencode, hle, hlt, -⟩ := PrefixedInteger.exists_first
      (StringLiteral.Reader.first_le hhigh name.huffman) name.payload.length
    have hname : name.encode 5 0b01 = first :: (tail ++ name.payload) := by
      rw [StringLiteral.encode, hencode, List.cons_append]
    rw [encode, List.append_assoc, hname, List.cons_append, scan, if_neg (by omega),
      if_pos (by omega), ← List.cons_append, ← hname]
    refine (Scan.string_encode hlimit hhigh (by decide) name (value.encode 7 0 ++ rest)).andThen ?_
    exact (Scan.string_encode hlimit (by decide) (by decide) value rest).map _
  | duplicate index =>
    have hhigh : (0b000 + 1) <<< 5 ≤ 256 := by decide
    obtain ⟨first, tail, hencode, -, hlt, -⟩ := PrefixedInteger.exists_first hhigh index
    rw [encode, hencode, List.cons_append, scan, if_neg (by omega), if_neg (by omega),
      if_neg (by omega), ← List.cons_append, ← hencode]
    exact (Scan.integer_encode hhigh (by decide) index rest).map duplicate

end Instruction

/-! ## What an instruction means

`Inserts` is the field that an instruction names, `Executes` is what a valid instruction makes of a
table, and `Invalid` lists the reasons for refusing one.

### The order of look-up and eviction

`Executes.insert` names the field in the table as it was and drops entries afterwards. So an
instruction may copy an entry that its own insertion drives out.

### The limit of strings

Strings are read under the capacity of the table at that moment. A field in which a string exceeds
it does not fit in the table, so what the limit refuses is invalid anyway. In the same way an
instruction with a number of more than 64 bits is always invalid: no capacity and no index of an
entry is that large. -/

namespace DynamicTable

variable {t t' t'' : DynamicTable} {history : List Field} {i : Instruction} {field : Field}

/-! ### Meaning -/

/-- The field that an instruction is to insert into a table. Entries of the dynamic table are
counted back from the latest one. -/
inductive Inserts (t : DynamicTable) : Instruction → Field → Prop
  /-- A name of the static table. -/
  | staticName {index : Nat} {entry : Field} (value : StringLiteral)
    (hentry : StaticTable.entries[index]? = some entry) :
    Inserts t (.insertNameReference true index value) ⟨entry.name, value.content⟩
  /-- The name of an entry. -/
  | relativeName {index : Nat} {entry : Field} (value : StringLiteral)
    (hentry : t.entries.reverse[index]? = some entry) :
    Inserts t (.insertNameReference false index value) ⟨entry.name, value.content⟩
  /-- A name that is given. -/
  | literalName (name value : StringLiteral) :
    Inserts t (.insertLiteralName name value) ⟨name.content, value.content⟩
  /-- An entry. -/
  | duplicate {index : Nat} {entry : Field} (hentry : t.entries.reverse[index]? = some entry) :
    Inserts t (.duplicate index) entry

/-- What a valid instruction makes of a table. -/
inductive Executes : DynamicTable → Instruction → DynamicTable → Prop
  /-- The capacity is changed, after as few entries as possible have gone. -/
  | setCapacity {t : DynamicTable} {capacity k : Nat} (hallowed : capacity ≤ t.maxCapacity)
    (hclears : Clears t.entries capacity k) :
    Executes t (.setCapacity capacity) { t.evict k with capacity := capacity }
  /-- A field is inserted, after as few entries as possible have made room for it. -/
  | insert {t : DynamicTable} {i : Instruction} {field : Field} {k : Nat}
    (hinserts : t.Inserts i field) (hfits : field.size ≤ t.capacity)
    (hclears : Clears t.entries (t.capacity - field.size) k) :
    Executes t i ((t.evict k).push field)

/-- An instruction that a table refuses. -/
inductive Invalid (t : DynamicTable) : Instruction → Prop
  /-- The capacity is not allowed. -/
  | capacity {capacity : Nat} (hexceeds : t.maxCapacity < capacity) :
    Invalid t (.setCapacity capacity)
  /-- The static table has no such entry. -/
  | staticName {index : Nat} (value : StringLiteral) (hnone : 99 ≤ index) :
    Invalid t (.insertNameReference true index value)
  /-- No such entry is live. -/
  | relativeName {index : Nat} (value : StringLiteral) (hnone : t.entries.length ≤ index) :
    Invalid t (.insertNameReference false index value)
  /-- No such entry is live. -/
  | duplicate {index : Nat} (hnone : t.entries.length ≤ index) : Invalid t (.duplicate index)
  /-- The field does not fit in the table. -/
  | tooBig {i : Instruction} {field : Field} (hinserts : t.Inserts i field)
    (hexceeds : t.capacity < field.size) : Invalid t i

/-- What valid instructions make of a table one after the other. -/
inductive ExecutesAll : DynamicTable → List Instruction → DynamicTable → Prop
  /-- No instruction changes nothing. -/
  | nil (t : DynamicTable) : ExecutesAll t [] t
  /-- The others find the table as the first leaves it. -/
  | cons {t t' t'' : DynamicTable} {i : Instruction} {more : List Instruction}
    (hfirst : Executes t i t') (hmore : ExecutesAll t' more t'') : ExecutesAll t (i :: more) t''

theorem Executes.pending (h : Executes t i t') : t'.pending = t.pending := by
  cases h <;> rfl

theorem ExecutesAll.pending {instructions : List Instruction}
    (h : ExecutesAll t instructions t') : t'.pending = t.pending := by
  induction h with
  | nil t => rfl
  | cons hfirst hmore ih => exact ih.trans hfirst.pending

/-! ### Look-up -/

theorem latest_eq_none_iff {index : Nat} :
    t.entries.reverse[index]? = none ↔ t.entries.length ≤ index := by
  rw [List.getElem?_eq_none_iff, List.length_reverse]

theorem Tracks.getRelative?_eq (h : Tracks history t) (index : Nat) :
    t.getRelative? index = t.entries.reverse[index]? := by
  have hcount := h.insertCount_eq
  by_cases hlive : index < t.entries.length
  · have hplace : t.insertCount - (index + 1) - t.evicted = t.entries.length - 1 - index := by omega
    rw [getRelative?, if_pos (by omega), get?, if_pos (by omega), hplace,
      List.getElem?_reverse hlive]
  · rw [latest_eq_none_iff.mpr (Nat.not_lt.mp hlive), getRelative?]
    split
    · rw [get?, if_neg (by omega)]
    · rfl

namespace Tracks

/-! ### Executing -/

theorem apply_of_inserts (h : Tracks history t) (hinserts : t.Inserts i field) :
    t.apply i = t.insert field := by
  cases hinserts with
  | staticName value hentry =>
    simp only [DynamicTable.apply, referenced, StaticTable.get?, hentry]
    rfl
  | relativeName value hentry =>
    simp only [DynamicTable.apply, referenced, h.getRelative?_eq, hentry]
    rfl
  | literalName name value => rfl
  | duplicate hentry =>
    simp only [DynamicTable.apply, referenced, h.getRelative?_eq, hentry]
    rfl

theorem apply_of_executes (h : Tracks history t) (hexecutes : Executes t i t') :
    (t.apply i).result = .ok () ∧ (t.apply i).table = t' := by
  cases hexecutes with
  | setCapacity hallowed hclears =>
    obtain ⟨k', hclears', hset⟩ := setCapacity_of_le h.size hallowed
    rw [hclears.unique hclears', DynamicTable.apply, hset]
    exact ⟨rfl, rfl⟩
  | insert hinserts hfits hclears =>
    obtain ⟨k', hclears', notes, hinsert⟩ := insert_of_le h.size hfits
    rw [hclears.unique hclears', h.apply_of_inserts hinserts, hinsert]
    exact ⟨rfl, rfl⟩

theorem apply_of_invalid (h : Tracks history t) (hinvalid : t.Invalid i) :
    ∃ cause, t.apply i = { result := .error cause, table := t } := by
  cases hinvalid with
  | capacity hexceeds => exact ⟨_, setCapacity_of_lt hexceeds⟩
  | @staticName index value hnone =>
    have hentry : StaticTable.entries[index]? = none := List.getElem?_eq_none hnone
    refine ⟨.invalidStaticTableIndex, ?_⟩
    simp only [DynamicTable.apply, referenced, StaticTable.get?, hentry]
    rfl
  | relativeName value hnone =>
    refine ⟨.invalidDynamicTableIndex, ?_⟩
    simp only [DynamicTable.apply, referenced, h.getRelative?_eq, latest_eq_none_iff.mpr hnone]
    rfl
  | duplicate hnone =>
    refine ⟨.invalidDynamicTableIndex, ?_⟩
    simp only [DynamicTable.apply, referenced, h.getRelative?_eq, latest_eq_none_iff.mpr hnone]
    rfl
  | tooBig hinserts hexceeds => exact ⟨_, h.apply_of_inserts hinserts ▸ insert_of_lt hexceeds⟩

private theorem executes_or_invalid_of_inserts (h : Tracks history t)
    (hinserts : t.Inserts i field) : (∃ t', Executes t i t') ∨ t.Invalid i := by
  by_cases hfits : field.size ≤ t.capacity
  · obtain ⟨k, hclears, -⟩ := insert_of_le h.size hfits
    exact .inl ⟨_, .insert hinserts hfits hclears⟩
  · exact .inr (.tooBig hinserts (Nat.not_le.mp hfits))

theorem executes_or_invalid (h : Tracks history t) (i : Instruction) :
    (∃ t', Executes t i t') ∨ t.Invalid i := by
  rcases i with capacity | ⟨_ | _, index, value⟩ | ⟨name, value⟩ | index
  · by_cases hallowed : capacity ≤ t.maxCapacity
    · obtain ⟨k, hclears, -⟩ := setCapacity_of_le h.size hallowed
      exact .inl ⟨_, .setCapacity hallowed hclears⟩
    · exact .inr (.capacity (Nat.not_le.mp hallowed))
  · rcases hentry : t.entries.reverse[index]? with _ | entry
    · exact .inr (.relativeName value (latest_eq_none_iff.mp hentry))
    · exact h.executes_or_invalid_of_inserts (.relativeName value hentry)
  · rcases hentry : StaticTable.entries[index]? with _ | entry
    · rw [List.getElem?_eq_none_iff, StaticTable.length_entries] at hentry
      exact .inr (.staticName value hentry)
    · exact h.executes_or_invalid_of_inserts (.staticName value hentry)
  · exact h.executes_or_invalid_of_inserts (.literalName name value)
  · rcases hentry : t.entries.reverse[index]? with _ | entry
    · exact .inr (.duplicate (latest_eq_none_iff.mp hentry))
    · exact h.executes_or_invalid_of_inserts (.duplicate hentry)

theorem executes (h : Tracks history t) (hexecutes : Executes t i t') :
    ∃ history', Tracks history' t' := by
  obtain ⟨-, htable⟩ := h.apply_of_executes hexecutes
  exact ⟨_, htable ▸ h.apply i⟩

/-! ### Reading -/

/-- The longest payload that is read under the capacity has a length of 64 bits. -/
theorem capacity_mul_lt (h : Tracks history t) :
    t.capacity * StringLiteral.maxExpansion < wordBound := by
  have hcapacity := h.capacity
  have hmaxCapacity := h.maxCapacity
  simp only [UInt32.size, StringLiteral.maxExpansion, wordBound, UInt64.size] at *
  omega

theorem maxCapacity_lt (h : Tracks history t) : t.maxCapacity < wordBound :=
  Nat.lt_trans h.maxCapacity (by decide)

private theorem index_lt (h : Tracks history t) {index : Nat} {entry : Field}
    (hentry : t.entries.reverse[index]? = some entry) : index < wordBound := by
  obtain ⟨hindex, -⟩ := List.getElem?_eq_some_iff.mp hentry
  rw [List.length_reverse] at hindex
  calc index
      < t.entries.length := hindex
    _ ≤ t.maxEntries := h.length_entries_le
    _ ≤ t.maxCapacity := Nat.div_le_self _ _
    _ < wordBound := h.maxCapacity_lt

/-- **The limit refuses no valid instruction.** -/
theorem readable_of_executes (h : Tracks history t) (hexecutes : Executes t i t') :
    i.Readable t.capacity := by
  cases hexecutes with
  | setCapacity hallowed hclears => exact Nat.lt_of_le_of_lt hallowed h.maxCapacity_lt
  | insert hinserts hfits hclears =>
    -- the strings of a field that fits are within the capacity
    rw [Field.size] at hfits
    cases hinserts with
    | staticName value hentry =>
      obtain ⟨hindex, -⟩ := List.getElem?_eq_some_iff.mp hentry
      exact ⟨Nat.lt_trans hindex (by decide), by simp only at hfits; omega⟩
    | relativeName value hentry => exact ⟨h.index_lt hentry, by simp only at hfits; omega⟩
    | literalName name value =>
      simp only at hfits
      exact ⟨by omega, by omega⟩
    | duplicate hentry => exact h.index_lt hentry

/-! ### One instruction in a buffer -/

theorem process_of_scan (h : Tracks history t) {input rest : Bytes}
    (hscan : Instruction.scan t.capacity input = .item i rest) (hexecutes : Executes t i t') :
    (t.process input).Same (t'.process rest) := by
  obtain ⟨hdone, rfl⟩ := h.apply_of_executes hexecutes
  rw [process_of_done hscan hdone]
  exact (Update.Same.withNotes _ _).symm

theorem process_of_scan_of_invalid (h : Tracks history t) {input rest : Bytes}
    (hscan : Instruction.scan t.capacity input = .item i rest) (hinvalid : t.Invalid i) :
    Failed (t.process input).result ∧ (t.process input).table = t := by
  obtain ⟨cause, happly⟩ := h.apply_of_invalid hinvalid
  rw [process_of_failed hscan (by rw [happly]), execute, happly]
  exact ⟨failed_error cause, rfl⟩

private theorem process_of_executes (h : Tracks history t) (hexecutes : Executes t i t')
    (rest : Bytes) : (t.process (i.encode ++ rest)).Same (t'.process rest) := by
  have hscan := (i.scan_encode h.capacity_mul_lt rest).item (h.readable_of_executes hexecutes)
  exact h.process_of_scan hscan hexecutes

private theorem process_of_invalid (h : Tracks history t) (hinvalid : t.Invalid i) (rest : Bytes) :
    Failed (t.process (i.encode ++ rest)).result ∧ (t.process (i.encode ++ rest)).table = t := by
  have hfinds := i.scan_encode h.capacity_mul_lt rest
  -- it is refused when it is executed, or already when it is read
  by_cases hreadable : i.Readable t.capacity
  · exact h.process_of_scan_of_invalid (hfinds.item hreadable) hinvalid
  · obtain ⟨cause, notes, hscan⟩ := hfinds.invalid hreadable
    rw [DynamicTable.process_of_invalid hscan]
    exact ⟨failed_error cause, rfl⟩

/-! ### Instruction after instruction -/

theorem process_of_executesAll (h : Tracks history t) {instructions : List Instruction}
    (hexecutes : ExecutesAll t instructions t') (rest : Bytes) :
    (t.process (instructions.flatMap Instruction.encode ++ rest)).Same (t'.process rest) := by
  induction hexecutes generalizing history with
  | nil t => exact .rfl
  | cons hfirst hmore ih =>
    obtain ⟨_, hnext⟩ := h.executes hfirst
    rw [List.flatMap_cons, List.append_assoc]
    exact (h.process_of_executes hfirst _).trans (ih hnext)

theorem executesAll (h : Tracks history t) {instructions : List Instruction}
    (hexecutes : ExecutesAll t instructions t') : ∃ history', Tracks history' t' := by
  induction hexecutes generalizing history with
  | nil t => exact ⟨history, h⟩
  | cons hfirst hmore ih =>
    obtain ⟨_, hnext⟩ := h.executes hfirst
    exact ih hnext

private theorem executesAll_or_invalid (h : Tracks history t) (instructions : List Instruction) :
    (∃ t', ExecutesAll t instructions t') ∨
      ∃ before i after t', instructions = before ++ i :: after ∧ ExecutesAll t before t' ∧
        t'.Invalid i := by
  induction instructions generalizing history t with
  | nil => exact .inl ⟨t, .nil t⟩
  | cons first more ih =>
    rcases h.executes_or_invalid first with ⟨t', hfirst⟩ | hinvalid
    · obtain ⟨_, hnext⟩ := h.executes hfirst
      rcases ih hnext with ⟨t'', hmore⟩ | ⟨before, i, after, t'', rfl, hbefore, hinvalid⟩
      · exact .inl ⟨t'', .cons hfirst hmore⟩
      · exact .inr ⟨first :: before, i, after, t'', rfl, .cons hfirst hbefore, hinvalid⟩
    · exact .inr ⟨[], first, more, t, rfl, .nil t, hinvalid⟩

end Tracks

/-! ### The result -/

/-- **The encoder stream.** A table that calls can reach, and that keeps no beginning of an
instruction, receives the encodings of instructions as one chunk. If all of them are valid the call
succeeds, and the table is what they make of it one after the other. Otherwise it fails, and the
table is what those before the first invalid one make of it. There is no third case. -/
theorem receive_encodings (maxCapacity : Nat) (ops : List Operation)
    (hpending : ((empty maxCapacity).run ops).pending = []) (instructions : List Instruction) :
    let t := (empty maxCapacity).run ops
    let u := t.receive (instructions.flatMap Instruction.encode)
    (∀ t', ExecutesAll t instructions t' → u.result = .ok () ∧ u.table = t') ∧
      (∀ before i after t', instructions = before ++ i :: after → ExecutesAll t before t' →
        t'.Invalid i → Failed u.result ∧ u.table = t') ∧
      ((∃ t', ExecutesAll t instructions t') ∨
        ∃ before i after t', instructions = before ++ i :: after ∧ ExecutesAll t before t' ∧
          t'.Invalid i) := by
  intro t u
  have h : Tracks _ t := (tracks_empty maxCapacity).run ops
  -- nothing is kept from before, so a chunk is processed as it is
  have hreceive (input : Bytes) : t.receive input = t.process input := by
    have hkept : ({ t with pending := [] } : DynamicTable) = t := by rw [← hpending]
    rw [receive, hpending, hkept, List.nil_append]
  refine ⟨?_, ?_, h.executesAll_or_invalid instructions⟩
  · intro t' hexecutes
    have hkept : t'.pending = [] := hexecutes.pending.trans hpending
    have hend : t'.process [] = { result := .ok (), table := t' } := by
      rw [process_of_incomplete rfl, ← hkept]
    have hsame := h.process_of_executesAll hexecutes []
    rw [List.append_nil, ← hreceive, hend] at hsame
    exact ⟨hsame.ok rfl, hsame.2⟩
  · rintro before i after t' rfl hbefore hinvalid
    obtain ⟨_, hreached⟩ := h.executesAll hbefore
    have hsame := h.process_of_executesAll hbefore ((i :: after).flatMap Instruction.encode)
    rw [← List.flatMap_append, ← hreceive] at hsame
    obtain ⟨hfailed, htable⟩ :=
      hreached.process_of_invalid hinvalid (after.flatMap Instruction.encode)
    exact ⟨hsame.1.mpr hfailed, hsame.2.trans htable⟩

/-- An entry is copied by an insertion that drives it out, and then a field is refused that is
larger than the capacity. -/
theorem receive_encodings_driven_out :
    let entry : Field := ⟨[97], [98]⟩
    let before : List Instruction :=
      [.setCapacity 64, .insertLiteralName ⟨true, [97]⟩ ⟨false, [98]⟩, .duplicate 0]
    let large : Instruction :=
      .insertNameReference true 0 ⟨false, List.replicate 28 48⟩
    let t : DynamicTable :=
      { entries := [entry], insertCount := 2, evicted := 1, size := 34, capacity := 64
        maxCapacity := 100 }
    let u := (empty 100).receive (before.flatMap Instruction.encode)
    let v := (empty 100).receive ((before ++ [large]).flatMap Instruction.encode)
    (u.result = .ok () ∧ u.table = t) ∧ Failed v.result ∧ v.table = t := by
  intro entry before large t u v
  have hexecutes : ExecutesAll (empty 100) before t := by
    have hempty : Clears [] 64 0 := .zero (by decide)
    have hroom : Clears [] 30 0 := .zero (by decide)
    have hentry : Clears [entry] 30 1 := .cons (by decide) hroom
    refine .cons (.setCapacity (by decide) hempty) ?_
    refine .cons (.insert (.literalName _ _) (by decide) hroom) ?_
    refine .cons (.insert (.duplicate rfl) (by decide) hentry) ?_
    exact .nil _
  have hinvalid : t.Invalid large := .tooBig (.staticName _ rfl) (by decide)
  exact ⟨(receive_encodings 100 [] rfl before).1 t hexecutes,
    (receive_encodings 100 [] rfl (before ++ [large])).2.1 before large [] t rfl hexecutes hinvalid⟩

end DynamicTable

end FieldCompression
