import FieldCompression.PrefixedInteger

/-!
# Integers read in machine words

The library computes with natural numbers, and reading an integer compares the sum of its digits
with `wordBound`. A machine has to find that out before it adds: a shift by as many bits as a word
has, a shift that loses bits and a sum that is too great have no result to compare. So it asks three
questions of a digit, whether it is shifted too far, whether it is shifted out, and whether the sum
fits.

`Word` has the operations of a machine, which give nothing where there is no result. `readInWords`
reads an integer by these operations. It always has a result, and that is what `Reader.read` gives.
-/

namespace FieldCompression

/-! ## Words -/

namespace Word

/-- A number, if it has at most `bits` bits. -/
def fit? (bits n : Nat) : Option Nat := if n < 1 <<< bits then some n else none

/-- A sum of words. -/
def add? (bits a b : Nat) : Option Nat := fit? bits (a + b)

/-- A product of words. -/
def mul? (bits a b : Nat) : Option Nat := fit? bits (a * b)

/-- A difference of words, which is no negative number. -/
def sub? (a b : Nat) : Option Nat := if b ≤ a then some (a - b) else none

/-- A quotient of words, if there is one. -/
def div? (a b : Nat) : Option Nat := if b = 0 then none else some (a / b)

/-- A word shifted to the left without losing bits, by less bits than it has. -/
def shiftLeft? (bits a k : Nat) : Option Nat := if k < bits then fit? bits (a <<< k) else none

/-- A word shifted to the right, by less bits than it has. -/
def shiftRight? (bits a k : Nat) : Option Nat := if k < bits then some (a >>> k) else none

variable {a b n : Nat}

theorem fit?_of_lt (h : n < wordBound) : fit? 64 n = some n := if_pos h

private theorem fit?_of_le (h : wordBound ≤ n) : fit? 64 n = none := if_neg (Nat.not_lt.mpr h)

theorem add?_of_lt (h : a + b < wordBound) : add? 64 a b = some (a + b) := fit?_of_lt h

theorem mul?_of_lt (h : a * b < wordBound) : mul? 64 a b = some (a * b) := fit?_of_lt h

theorem sub?_of_le (h : b ≤ a) : sub? a b = some (a - b) := if_pos h

theorem div?_of_pos (h : 0 < b) : div? a b = some (a / b) := if_neg (Nat.pos_iff_ne_zero.mp h)

end Word

namespace PrefixedInteger

theorem one_shiftLeft_le {bits : Nat} (h : bits ≤ 8) : 1 <<< bits ≤ 1 <<< 8 := by
  rw [Nat.one_shiftLeft, Nat.one_shiftLeft]
  exact Nat.pow_le_pow_right (by decide) h

/-! ## One digit -/

/-- The sum with a further digit, found step by step: nothing if a step has no result, and an error
if one of the three questions is answered so. -/
def addDigit? (value shift digit : Nat) : Option (Except Error Nat) :=
  if 63 < shift then some (.error .integerOverflow)
  else do
    let greatest ← Word.shiftRight? 64 maxWord shift
    if greatest < digit then some (.error .integerOverflow)
    else do
      let counted ← Word.shiftLeft? 64 digit shift
      match Word.add? 64 value counted with
      | none => some (.error .integerOverflow)
      | some sum => some (.ok sum)

/-- A digit is shifted out just if it counts too much. -/
theorem maxWord_shiftRight_lt_iff {shift digit : Nat} :
    maxWord >>> shift < digit ↔ wordBound ≤ digit <<< shift := by
  rw [Nat.shiftRight_eq_div_pow, Nat.shiftLeft_eq, Nat.div_lt_iff_lt_mul (Nat.two_pow_pos shift)]
  have hpos : 0 < wordBound := by decide
  rw [maxWord]
  omega

/-- **Three questions for one.** Every step has a result, and the answers amount to whether the
digit is shifted by too much or the sum is too great. -/
theorem addDigit?_eq (value shift digit : Nat) :
    addDigit? value shift digit =
      some (if 63 < shift ∨ wordBound ≤ value + digit <<< shift then .error .integerOverflow
        else .ok (value + digit <<< shift)) := by
  rw [addDigit?]
  by_cases hfar : 63 < shift
  · rw [if_pos hfar, if_pos (.inl hfar)]
  rw [if_neg hfar, Word.shiftRight?, if_pos (by omega), Option.bind_eq_bind, Option.bind_some]
  by_cases hout : maxWord >>> shift < digit
  · have hgreat := maxWord_shiftRight_lt_iff.mp hout
    rw [if_pos hout, if_pos (.inr (by omega))]
  · have hkept := mt maxWord_shiftRight_lt_iff.mpr hout
    rw [if_neg hout, Word.shiftLeft?, if_pos (by omega), Word.fit?_of_lt (Nat.not_le.mp hkept),
      Option.bind_some]
    by_cases hsum : value + digit <<< shift < wordBound
    · rw [Word.add?_of_lt hsum, if_neg (by omega)]
    · rw [Word.add?, Word.fit?_of_le (Nat.not_lt.mp hsum), if_pos (.inr (by omega))]

namespace Reader

/-! ## Whole integers -/

/-- Reads continuation bytes by the operations of a machine. The shift is counted in 32 bits. -/
def readContinuationInWords (value shift : Nat) : Bytes → Option (Outcome Reader Nat)
  | [] => some ⟨.ok none, .continuation value shift, []⟩
  | byte :: rest =>
    match addDigit? value shift (byte.toNat % 128) with
    | none => none
    | some (.error cause) => some ⟨.error cause, .continuation value shift, rest⟩
    | some (.ok sum) =>
      match Word.add? 32 shift 7 with
      | none => none
      | some further =>
        if byte.toNat < 128 then some ⟨.ok (some sum), .done sum, rest⟩
        else readContinuationInWords sum further rest

/-- Reads on from a chunk by the operations of a machine. The mask that takes the prefix from the
first byte is found in 16 bits and must fit in 8. -/
def readInWords : Reader → Bytes → Option (Outcome Reader Nat)
  | unconfigured, input => some ⟨.error .invalidState, .unconfigured, input⟩
  | start bits, [] => some ⟨.ok none, .start bits, []⟩
  | start bits, byte :: rest => do
    let power ← Word.shiftLeft? 16 1 bits
    let ones ← Word.sub? power 1
    let mask ← Word.fit? 8 ones
    let value := byte.toNat &&& mask
    if value < mask then some ⟨.ok (some value), .done value, rest⟩
    else readContinuationInWords value 0 rest
  | continuation value shift, input => readContinuationInWords value shift input
  | done value, input => some ⟨.ok (some value), .done value, input⟩

/-- A prefix has at most eight bits, and no digit is shifted by more than the eleventh would be. -/
def InWords : Reader → Prop
  | start bits => bits ≤ 8
  | continuation _ shift => shift ≤ 70
  | unconfigured | done _ => True

private theorem readContinuationInWords_eq {value shift : Nat} (h : shift ≤ 70) (input : Bytes) :
    readContinuationInWords value shift input = some (readContinuation value shift input) := by
  induction input generalizing value shift with
  | nil => rfl
  | cons byte rest ih =>
    rw [readContinuationInWords, addDigit?_eq]
    rw [readContinuation]
    by_cases hexceeds : 63 < shift ∨ wordBound ≤ value + (byte.toNat % 128) <<< shift
    · simp only [if_pos hexceeds]
    · have hsmall : shift + 7 < 1 <<< 32 := by
        rw [Nat.one_shiftLeft]
        omega
      simp only [if_neg hexceeds, Word.add?, Word.fit?, if_pos hsmall]
      split
      · rfl
      · exact ih (by omega)

/-- **Reading in words.** Every step has a result, and it comes to what reading comes to. -/
theorem readInWords_eq {r : Reader} (h : r.InWords) (input : Bytes) :
    r.readInWords input = some (r.read input) := by
  cases r with
  | unconfigured => rfl
  | start bits =>
    cases input with
    | nil => rfl
    | cons byte rest =>
      have hbits : bits ≤ 8 := h
      have hpow := one_shiftLeft_le hbits
      have hpos : 0 < 1 <<< bits := by
        rw [Nat.one_shiftLeft]
        exact Nat.two_pow_pos bits
      have hmask (n : Nat) : n &&& greatestIn bits = n % (1 <<< bits) := by
        rw [greatestIn, Nat.one_shiftLeft, Nat.and_two_pow_sub_one_eq_mod]
      rw [readInWords, Word.shiftLeft?, if_pos (by omega), Word.fit?, if_pos (by omega),
        Option.bind_eq_bind, Option.bind_some, Word.sub?_of_le hpos, Option.bind_some, Word.fit?,
        if_pos (by omega), Option.bind_some, ← greatestIn, hmask]
      simp only [read]
      split
      · rfl
      · exact readContinuationInWords_eq (by omega) rest
  | continuation value shift => exact readContinuationInWords_eq h input
  | done value => rfl

private theorem inWords_readContinuation {value shift : Nat} (h : shift ≤ 70) (input : Bytes) :
    (readContinuation value shift input).state.InWords := by
  induction input generalizing value shift with
  | nil => exact h
  | cons byte rest ih =>
    simp only [readContinuation]
    split
    · exact h
    · split
      · trivial
      · exact ih (by omega)

theorem InWords.read {r : Reader} (h : r.InWords) (input : Bytes) :
    (r.read input).state.InWords := by
  cases r with
  | unconfigured => trivial
  | start bits =>
    cases input with
    | nil => exact h
    | cons byte rest =>
      simp only [Reader.read]
      split
      · trivial
      · exact inWords_readContinuation (by omega) rest
  | continuation value shift => exact inWords_readContinuation h input
  | done value => trivial

end Reader

end PrefixedInteger

end FieldCompression
