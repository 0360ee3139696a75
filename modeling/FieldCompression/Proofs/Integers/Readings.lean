import FieldCompression.Proofs.Grammar.Sections
import FieldCompression.Proofs.Integers.Words

/-!
# Which integers are read

The octets at the front of an input hold an integer, or they overflow, or they end before either can
be said. Which integer they hold is known as well, and it is the only one; the octets are not, since
an integer can be spelled with more of them than are needed.
-/

namespace FieldCompression.PrefixedInteger

/-! ## The octets of an integer

Each of the three is stated by the octets alone: by the value of the prefix, by which octets have
their high bit set, and by the sum of the digits. One of them is true of every input, and it
determines what reading does, down to the octet at which it stops.

An integer has at most 64 bits and ten digits. The second part is a limit of its own, since digits
may be zeros, which add nothing. `Exceeds` is said of the digits read so far, so an integer
overflows at the first octet that takes its digits beyond the limit, whatever would follow. -/

/-! ### Digits -/

/-- The integer has not ended after these digits: each of them has its high bit set. -/
def GoesOn (digits : Bytes) : Prop := ∀ byte ∈ digits, 128 ≤ byte.toNat

/-- The digits after a full prefix are too many, or are too much together with the prefix. -/
def Exceeds (bits : Nat) (digits : Bytes) : Prop :=
  wordBound ≤ greatestIn bits + digitsValue digits ∨ 10 < digits.length

instance (digits : Bytes) : Decidable (GoesOn digits) :=
  List.decidableBAll (128 ≤ UInt8.toNat ·) digits

instance (bits : Nat) (digits : Bytes) : Decidable (Exceeds bits digits) :=
  inferInstanceAs (Decidable (_ ∨ _))

theorem digitsValue_concat (digits : Bytes) (byte : UInt8) :
    digitsValue (digits ++ [byte]) =
      digitsValue digits + (byte.toNat % 128) <<< (7 * digits.length) := by
  induction digits with
  | nil => simp [digitsValue]
  | cons first digits ih =>
    have hshift : (byte.toNat % 128) <<< (7 * (digits.length + 1)) =
        128 * (byte.toNat % 128) <<< (7 * digits.length) := by
      rw [Nat.mul_succ, shiftLeft_add_seven, Nat.shiftLeft_eq, Nat.shiftLeft_eq,
        Nat.mul_comm (byte.toNat % 128), Nat.mul_assoc]
    rw [List.cons_append, digitsValue, ih, digitsValue, List.length_cons, hshift, Nat.mul_add,
      Nat.add_assoc]

private theorem digitsValue_le_append (digits more : Bytes) :
    digitsValue digits ≤ digitsValue (digits ++ more) := by
  induction digits with
  | nil => exact Nat.zero_le _
  | cons byte digits ih =>
    rw [List.cons_append, digitsValue, digitsValue]
    omega

section Digits

variable {bits : Nat} {digits : Bytes} {byte : UInt8}

theorem Exceeds.append (h : Exceeds bits digits) (more : Bytes) :
    Exceeds bits (digits ++ more) := by
  have hvalue := digitsValue_le_append digits more
  rw [Exceeds, List.length_append]
  rcases h with h | h
  · exact .inl (by omega)
  · exact .inr (by omega)

private theorem not_exceeds_nil (hbits : bits ≤ 8) : ¬Exceeds bits [] := by
  have hle := one_shiftLeft_le hbits
  have hword : 1 <<< 8 < wordBound := by decide
  rw [Exceeds, digitsValue, List.length_nil, greatestIn]
  omega

/-- What reading asks of a digit is whether the digits up to it exceed the limit. -/
theorem exceeds_concat_iff :
    Exceeds bits (digits ++ [byte]) ↔
      63 < 7 * digits.length ∨ wordBound ≤ greatestIn bits + digitsValue digits +
        (byte.toNat % 128) <<< (7 * digits.length) := by
  rw [Exceeds, digitsValue_concat, List.length_append, List.length_singleton, Nat.add_assoc]
  omega

private theorem GoesOn.concat (h : GoesOn digits) (hbyte : 128 ≤ byte.toNat) :
    GoesOn (digits ++ [byte]) := by
  intro b hb
  rcases List.mem_append.mp hb with hb | hb
  · exact h b hb
  · exact List.mem_singleton.mp hb ▸ hbyte

end Digits

/-! ### The front of an input -/

/-- The input begins with an integer `v`, and `rest` is what follows. -/
inductive Holds (bits : Nat) : Bytes → Nat → Bytes → Prop
  /-- The prefix is not full. It is the integer. -/
  | short {first : UInt8} {rest : Bytes} (h : first.toNat % (1 <<< bits) < greatestIn bits) :
    Holds bits (first :: rest) (first.toNat % (1 <<< bits)) rest
  /-- The prefix is full. The digits after it, up to the first that has its high bit clear, are
  within the limit. -/
  | long {first last : UInt8} {digits rest : Bytes}
    (hfull : first.toNat % (1 <<< bits) = greatestIn bits) (hmore : GoesOn digits)
    (hlast : last.toNat < 128) (hfits : ¬Exceeds bits (digits ++ [last])) :
    Holds bits (first :: (digits ++ last :: rest))
      (greatestIn bits + digitsValue (digits ++ [last])) rest

/-- The input begins with digits that exceed the limit, the last of them being the first that does.
What follows it is `rest`. -/
inductive Overflows (bits : Nat) : Bytes → Bytes → Prop
  /-- The prefix is full, as it must be for any digits to follow. -/
  | long {first byte : UInt8} {digits rest : Bytes}
    (hfull : first.toNat % (1 <<< bits) = greatestIn bits) (hmore : GoesOn digits)
    (hfits : ¬Exceeds bits digits) (hexceeds : Exceeds bits (digits ++ [byte])) :
    Overflows bits (first :: (digits ++ byte :: rest)) rest

/-- The input ends before an integer does. -/
inductive Lacks (bits : Nat) : Bytes → Prop
  /-- It does not even begin. -/
  | nothing : Lacks bits []
  /-- The prefix is full, and another digit was to follow those that there are. -/
  | digits {first : UInt8} {digits : Bytes}
    (hfull : first.toNat % (1 <<< bits) = greatestIn bits) (hmore : GoesOn digits)
    (hfits : ¬Exceeds bits digits) : Lacks bits (first :: digits)

theorem Holds.lt {bits v : Nat} {input rest : Bytes} (hbits : bits ≤ 8)
    (h : Holds bits input v rest) : v < wordBound := by
  cases h with
  | short hshort =>
    have hle := one_shiftLeft_le hbits
    have hword : 1 <<< 8 < wordBound := by decide
    rw [greatestIn] at hshort
    omega
  | long hfull hmore hlast hfits =>
    rw [Exceeds, not_or] at hfits
    exact Nat.not_le.mp hfits.1

private theorem exists_end {bits : Nat} {before : Bytes} (hmore : GoesOn before)
    (hfits : ¬Exceeds bits before) (input : Bytes) :
    (∃ digits last rest, before ++ input = digits ++ last :: rest ∧ GoesOn digits ∧
        last.toNat < 128 ∧ ¬Exceeds bits (digits ++ [last])) ∨
      (∃ digits byte rest, before ++ input = digits ++ byte :: rest ∧ GoesOn digits ∧
        ¬Exceeds bits digits ∧ Exceeds bits (digits ++ [byte])) ∨
      GoesOn (before ++ input) ∧ ¬Exceeds bits (before ++ input) := by
  -- `before` takes one digit at a time from the input, as long as it goes on within the limit
  induction input generalizing before with
  | nil =>
    rw [List.append_nil]
    exact .inr (.inr ⟨hmore, hfits⟩)
  | cons byte rest ih =>
    by_cases hexceeds : Exceeds bits (before ++ [byte])
    · exact .inr (.inl ⟨before, byte, rest, rfl, hmore, hfits, hexceeds⟩)
    by_cases hlast : byte.toNat < 128
    · exact .inl ⟨before, byte, rest, rfl, hmore, hlast, hexceeds⟩
    · rw [List.append_cons]
      exact ih (hmore.concat (Nat.not_lt.mp hlast)) hexceeds

/-- **Three cases.** Every input is of one of the three kinds. -/
theorem holds_or_overflows_or_lacks {bits : Nat} (hbits : bits ≤ 8) (input : Bytes) :
    (∃ v rest, Holds bits input v rest) ∨ (∃ rest, Overflows bits input rest) ∨
      Lacks bits input := by
  cases input with
  | nil => exact .inr (.inr .nothing)
  | cons first input =>
    have hprefix := Nat.mod_lt first.toNat (one_shiftLeft_pos bits)
    by_cases hshort : first.toNat % (1 <<< bits) < greatestIn bits
    · exact .inl ⟨_, _, .short hshort⟩
    have hfull : first.toNat % (1 <<< bits) = greatestIn bits := by
      rw [greatestIn] at hshort ⊢
      omega
    have hnone : GoesOn [] := fun _ h ↦ absurd h List.not_mem_nil
    rcases exists_end hnone (not_exceeds_nil hbits) input with
      ⟨digits, last, rest, rfl, hmore, hlast, hfits⟩ |
      ⟨digits, byte, rest, rfl, hmore, hfits, hexceeds⟩ | ⟨hmore, hfits⟩
    · exact .inl ⟨_, _, .long hfull hmore hlast hfits⟩
    · exact .inr (.inl ⟨_, .long hfull hmore hfits hexceeds⟩)
    · exact .inr (.inr (.digits hfull hmore hfits))

/-! ### Reading -/

namespace Reader

variable {bits v : Nat} {input rest : Bytes}

/-- Reading passes over digits that go on and are within the limit. -/
theorem readContinuation_of_goesOn {before digits : Bytes} (hmore : GoesOn digits)
    (hfits : ¬Exceeds bits (before ++ digits)) (input : Bytes) :
    readContinuation (greatestIn bits + digitsValue before) (7 * before.length) (digits ++ input) =
      readContinuation (greatestIn bits + digitsValue (before ++ digits))
        (7 * (before ++ digits).length) input := by
  induction digits generalizing before with
  | nil => rw [List.append_nil, List.nil_append]
  | cons byte digits ih =>
    rw [List.append_cons] at hfits ⊢
    have hbyte : 128 ≤ byte.toNat := hmore byte List.mem_cons_self
    have hguard := mt exceeds_concat_iff.mpr (mt (Exceeds.append · digits) hfits)
    have hnext := ih (fun b hb ↦ hmore b (List.mem_cons_of_mem _ hb)) hfits
    rw [List.cons_append, readContinuation, if_neg hguard, if_neg (Nat.not_lt.mpr hbyte), ← hnext,
      digitsValue_concat, List.length_append, List.length_singleton, Nat.mul_succ, Nat.add_assoc]

theorem read_of_full {first : UInt8} (hfull : first.toNat % (1 <<< bits) = greatestIn bits)
    {digits : Bytes} (hmore : GoesOn digits) (hfits : ¬Exceeds bits digits) (input : Bytes) :
    (start bits).read (first :: (digits ++ input)) =
      readContinuation (greatestIn bits + digitsValue digits) (7 * digits.length) input := by
  rw [read, hfull, if_neg (Nat.lt_irrefl _)]
  exact @readContinuation_of_goesOn bits [] digits hmore hfits input

theorem read_of_holds (h : Holds bits input v rest) :
    (start bits).read input = ⟨.ok (some v), .done v, rest⟩ := by
  cases h with
  | short h => rw [read, if_pos h]
  | long hfull hmore hlast hfits =>
    have hguard := mt exceeds_concat_iff.mpr hfits
    rw [read_of_full hfull hmore (mt (Exceeds.append · _) hfits), readContinuation, if_neg hguard,
      if_pos hlast, digitsValue_concat, Nat.add_assoc]

theorem read_of_overflows (h : Overflows bits input rest) :
    ∃ value shift,
      (start bits).read input = ⟨.error .integerOverflow, .continuation value shift, rest⟩ := by
  cases h with
  | @long first byte digits _ hfull hmore hfits hexceeds =>
    refine ⟨greatestIn bits + digitsValue digits, 7 * digits.length, ?_⟩
    rw [read_of_full hfull hmore hfits, readContinuation, if_pos (exceeds_concat_iff.mp hexceeds)]

theorem read_of_lacks (h : Lacks bits input) :
    ∃ r, (start bits).read input = ⟨.ok none, r, []⟩ := by
  cases h with
  | nothing => exact ⟨_, rfl⟩
  | @digits first digits hfull hmore hfits =>
    have hread := read_of_full hfull hmore hfits []
    rw [List.append_nil] at hread
    exact ⟨_, hread⟩

/-- What reading comes to agrees with the front of the input. -/
inductive Accords (bits : Nat) (input : Bytes) : Outcome Reader Nat → Prop
  /-- An integer was read. -/
  | holds {v : Nat} {rest : Bytes} (h : Holds bits input v rest) :
    Accords bits input ⟨.ok (some v), .done v, rest⟩
  /-- The digits were refused. -/
  | overflows {rest : Bytes} (h : Overflows bits input rest) (value shift : Nat) :
    Accords bits input ⟨.error .integerOverflow, .continuation value shift, rest⟩
  /-- More octets are wanted. -/
  | lacks (h : Lacks bits input) (state : Reader) : Accords bits input ⟨.ok none, state, []⟩

theorem accords_read (hbits : bits ≤ 8) (input : Bytes) :
    Accords bits input ((start bits).read input) := by
  rcases holds_or_overflows_or_lacks hbits input with ⟨v, rest, h⟩ | ⟨rest, h⟩ | h
  · rw [read_of_holds h]
    exact .holds h
  · obtain ⟨value, shift, hread⟩ := read_of_overflows h
    rw [hread]
    exact .overflows h value shift
  · obtain ⟨state, hread⟩ := read_of_lacks h
    rw [hread]
    exact .lacks h state

section Accords

variable {o : Outcome Reader Nat} (ho : Accords bits input o)

include ho

theorem Accords.holds_of_ok (h : o.result = .ok (some v)) : Holds bits input v o.rest := by
  cases ho with
  | holds hcase =>
    obtain rfl := Option.some.inj (Except.ok.inj h)
    exact hcase
  | overflows | lacks => exact absurd h (by simp)

theorem Accords.overflows_of_error {cause : Error} (h : o.result = .error cause) :
    cause = .integerOverflow ∧ Overflows bits input o.rest := by
  cases ho with
  | overflows hcase => exact ⟨(Except.error.inj h).symm, hcase⟩
  | holds | lacks => exact absurd h (by simp)

theorem Accords.lacks_of_pending (h : o.result = .ok none) : Lacks bits input ∧ o.rest = [] := by
  cases ho with
  | lacks hcase => exact ⟨hcase, rfl⟩
  | holds | overflows => exact absurd h (by simp)

end Accords

/-! ### The result -/

section Exact

variable (hbits : bits ≤ 8)

include hbits

theorem read_eq_some_iff :
    ((start bits).read input).result = .ok (some v) ∧ ((start bits).read input).rest = rest ↔
      Holds bits input v rest := by
  constructor
  · rintro ⟨hresult, rfl⟩
    exact (accords_read hbits input).holds_of_ok hresult
  · intro h
    rw [read_of_holds h]
    exact ⟨rfl, rfl⟩

theorem read_eq_overflow_iff :
    ((start bits).read input).result = .error .integerOverflow ∧
      ((start bits).read input).rest = rest ↔ Overflows bits input rest := by
  constructor
  · rintro ⟨hresult, rfl⟩
    exact ((accords_read hbits input).overflows_of_error hresult).2
  · intro h
    obtain ⟨value, shift, hread⟩ := read_of_overflows h
    rw [hread]
    exact ⟨rfl, rfl⟩

theorem result_read_eq_none_iff :
    ((start bits).read input).result = .ok none ↔ Lacks bits input := by
  refine ⟨fun h ↦ ((accords_read hbits input).lacks_of_pending h).1, fun h ↦ ?_⟩
  obtain ⟨state, hread⟩ := read_of_lacks h
  rw [hread]

end Exact

/-- **Integers read exactly.** However the octets are cut into chunks, an integer is read just if
they begin with one, and then what follows it is left. Reading fails just if they overflow, for that
cause only, and at the octet that is too much. It wants more just if they end before the integer
does, and then all of them have been taken. In the state that any chunks lead to, a call on a
further one can be made by the operations of a machine, none of which is without a result. -/
theorem integer_exact (hbits : bits ≤ 8) (chunks : List Bytes) :
    let o := Outcome.readChunks read (start bits) chunks
    (∀ v rest, o.result = .ok (some v) ∧ o.rest = rest ↔ Holds bits chunks.flatten v rest) ∧
      (∀ v, o.result = .ok (some v) → o.state = .done v) ∧
      (∀ rest, o.result = .error .integerOverflow ∧ o.rest = rest ↔
        Overflows bits chunks.flatten rest) ∧
      (∀ cause, o.result = .error cause → cause = .integerOverflow) ∧
      (o.result = .ok none ↔ Lacks bits chunks.flatten) ∧
      (o.result = .ok none → o.rest = []) ∧
      ∀ chunk, o.state.readInWords chunk = some (o.state.read chunk) := by
  intro o
  have ho : o = (start bits).read chunks.flatten := resumable_read.readChunks_eq rfl chunks
  rw [ho]
  have haccords := accords_read hbits chunks.flatten
  refine ⟨fun _ _ ↦ read_eq_some_iff hbits, ?_, fun _ ↦ read_eq_overflow_iff hbits,
    fun _ h ↦ (haccords.overflows_of_error h).1, result_read_eq_none_iff hbits,
    fun h ↦ (haccords.lacks_of_pending h).2, ?_⟩
  · intro v hresult
    rw [read_of_holds (haccords.holds_of_ok hresult)]
  · intro chunk
    have hstart : (start bits).InWords := hbits
    exact readInWords_eq (hstart.read _) chunk

/-- The greatest integer of 64 bits, with ten digits after a prefix of five bits, cut within the
digits and with an octet after it; and one more, which overflows at its last digit. -/
theorem integer_exact_maxWord :
    let last : Bytes := [0xff, 0xff, 0xff, 0xff, 0xff, 0x01, 0x55]
    let greatest : List Bytes := [[0x3f, 0xe0, 0xff, 0xff, 0xff], last]
    let greater : List Bytes := [[0x3f, 0xe1, 0xff, 0xff, 0xff], last]
    5 ≤ 8 ∧
      ((Outcome.readChunks read (start 5) greatest).result = .ok (some maxWord) ∧
        (Outcome.readChunks read (start 5) greatest).rest = [0x55]) ∧
      (Outcome.readChunks read (start 5) greater).result = .error .integerOverflow ∧
        (Outcome.readChunks read (start 5) greater).rest = [0x55] := by
  intro last greatest greater
  have hholds : Holds 5 greatest.flatten maxWord [0x55] :=
    @Holds.long 5 0x3f 0x01 [0xe0, 0xff, 0xff, 0xff, 0xff, 0xff, 0xff, 0xff, 0xff] [0x55]
      rfl (by decide) (by decide) (by decide)
  have hoverflows : Overflows 5 greater.flatten [0x55] :=
    @Overflows.long 5 0x3f 0x01 [0xe1, 0xff, 0xff, 0xff, 0xff, 0xff, 0xff, 0xff, 0xff] [0x55]
      rfl (by decide) (by decide) (by decide)
  exact ⟨by decide, ((integer_exact (by decide) greatest).1 _ _).mpr hholds,
    ((integer_exact (by decide) greater).2.2.1 _).mpr hoverflows⟩

end Reader

/-! ## Writing and reading integers are inverse

What is written is read back, and nothing of what follows it. In the other direction an integer that
was read is written as it was, unless it was spelled with a digit too many. Such spellings are
accepted, and the one that is written has fewer octets.

### Two recursions

A number is written by taking its lowest digit off, and it is read by adding one more digit on top.
`Digits` stands between the two: it is built from the last digit down, as writing does it, and
reading is known to find it. So the comparison of a spelling with the one that is written is an
induction on `Digits`, and no shift occurs in it. -/

variable {bits high v : Nat}

/-! ### Superfluous digits -/

/-- Digits are those that are written, or there are fewer of those that are written. -/
theorem Digits.eq_or_length_lt {digits : Bytes} (h : Digits v digits) :
    encodeContinuation v = digits ∨ (encodeContinuation v).length < digits.length := by
  induction h with
  | last h =>
    rw [encodeContinuation, if_pos h]
    exact .inl rfl
  | @more digit v digits h hdigits ih =>
    have hpos := List.length_pos_iff.mpr hdigits.ne_nil
    rw [encodeContinuation]
    split
    · -- the digits after this one are zeros, and it would have been enough
      exact .inr (Nat.succ_lt_succ hpos)
    · rw [show (digit + 128 * v) / 128 = v by omega, show (digit + 128 * v) % 128 = digit by omega]
      rcases ih with heq | hlt
      · exact .inl (by rw [heq])
      · exact .inr (Nat.succ_lt_succ hlt)

theorem Spells.eq_or_length_lt {octets : Bytes} (h : Spells bits high v octets) :
    encode bits high v = octets ∨ (encode bits high v).length < octets.length := by
  cases h with
  | short h =>
    rw [encode, if_pos h]
    exact .inl rfl
  | @long v digits h =>
    rw [encode, if_neg (by omega), Nat.add_sub_cancel_left]
    rcases h.eq_or_length_lt with heq | hlt
    · exact .inl (by rw [heq])
    · exact .inr (Nat.succ_lt_succ hlt)

theorem Spells.encode_eq_iff {octets : Bytes} (h : Spells bits high v octets) :
    encode bits high v = octets ↔ Shortest octets := by
  constructor
  · rintro rfl
    exact shortest_encode bits high v
  · exact fun hshort ↦ (h.eq_encode hshort).symm

theorem Spells.length_encode_lt {octets : Bytes} (h : Spells bits high v octets)
    (hlong : ¬Shortest octets) : (encode bits high v).length < octets.length :=
  h.eq_or_length_lt.resolve_left (mt h.encode_eq_iff.mp hlong)

/-! ### What was read -/

namespace Reader

/-- What was read is at the front of the input, and what its first octet holds above the prefix is
what the spelling has there. -/
theorem exists_spelling {input : Bytes} (h : ((start bits).read input).result = .ok (some v)) :
    ∃ first digits, input = first :: digits ++ ((start bits).read input).rest ∧
      Spells bits (first.toNat >>> bits) v (first :: digits) := by
  cases input with
  | nil => exact absurd h (by simp [read])
  | cons first rest =>
    obtain ⟨octets, hspells, hinput⟩ := spells_of_read h
    obtain ⟨byte, digits, rfl⟩ : ∃ byte digits, octets = byte :: digits := by
      cases hspells <;> exact ⟨_, _, rfl⟩
    obtain rfl : first = byte := (List.cons.inj hinput).1
    exact ⟨first, digits, hinput, hspells⟩

/-! ### The result -/

/-- **Inverse.** However the octets are cut into chunks, an integer that was written is read,
whatever stands in the octet above its prefix and whatever follows it. What is read as an integer is
written as it was just if it has no digit too many, and otherwise with fewer octets. -/
theorem written_iff_shortest (bits : Nat) (chunks : List Bytes) :
    let o := Outcome.readChunks read (start bits) chunks
    (∀ high v rest, (high + 1) <<< bits ≤ 256 → v < wordBound →
        chunks.flatten = encode bits high v ++ rest → o = ⟨.ok (some v), .done v, rest⟩) ∧
      ∀ v, o.result = .ok (some v) →
        ∃ first digits, chunks.flatten = first :: digits ++ o.rest ∧
          (encode bits (first.toNat >>> bits) v = first :: digits ↔ Shortest (first :: digits)) ∧
          (¬Shortest (first :: digits) →
            (encode bits (first.toNat >>> bits) v).length < (first :: digits).length) := by
  intro o
  have ho : o = (start bits).read chunks.flatten := resumable_read.readChunks_eq rfl chunks
  rw [ho]
  constructor
  · intro high v rest hhigh hv hchunks
    rw [hchunks]
    exact read_encode hhigh hv rest
  · intro v hresult
    obtain ⟨first, digits, hinput, hspells⟩ := exists_spelling hresult
    exact ⟨first, digits, hinput, hspells.encode_eq_iff, hspells.length_encode_lt⟩

/-- The greatest integer of 64 bits, written below the bits of a capacity and read in three chunks;
and the integer 31 spelled with a digit too many. -/
theorem written_iff_shortest_superfluous_digit :
    let chunks : List Bytes :=
      [[0x3f, 0xe0, 0xff], [], [0xff, 0xff, 0xff, 0xff, 0xff, 0xff, 0xff, 0x01]]
    let long : List Bytes := [[0x3f, 0x80], [0x00, 0x55]]
    Outcome.readChunks read (start 5) chunks = ⟨.ok (some maxWord), .done maxWord, []⟩ ∧
      (Outcome.readChunks read (start 5) long).result = .ok (some 31) ∧
      ∃ first digits, long.flatten =
          first :: digits ++ (Outcome.readChunks read (start 5) long).rest ∧
        (encode 5 (first.toNat >>> 5) 31).length < (first :: digits).length := by
  intro chunks long
  have hlong : (Outcome.readChunks read (start 5) long).result = .ok (some 31) := rfl
  have hrest : (Outcome.readChunks read (start 5) long).rest = [0x55] := rfl
  refine ⟨?_, hlong, ?_⟩
  · exact (written_iff_shortest 5 chunks).1 1 maxWord [] (by decide) (by decide)
      (by decide +kernel)
  · obtain ⟨first, digits, hinput, -, hlt⟩ := (written_iff_shortest 5 long).2 31 hlong
    refine ⟨first, digits, hinput, hlt ?_⟩
    rw [hrest] at hinput
    rw [← show [0x3f, 0x80, 0x00] = first :: digits from List.append_cancel_right hinput]
    decide

end Reader

end FieldCompression.PrefixedInteger
