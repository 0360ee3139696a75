import FieldCompression.Basic

/-!
# Prefixed integers

An integer starts in the low bits of a byte whose high bits belong to something else. If it is
smaller than the greatest number those low bits can hold, they hold it. Otherwise they are all
ones, and what exceeds that number follows in base 128, least significant digit first, with the
high bit set on every byte but the last (RFC 9204, section 4.1.1).

## The limit

Integers have at most 64 bits. `Reader.read` refuses a continuation byte as soon as it makes the
sum reach `wordBound`, and it refuses an eleventh continuation byte whatever it holds, so a peer
cannot send zeros without end. The refused byte has been consumed, and the reader still holds the
sum of the bytes before it.
-/

namespace FieldCompression.PrefixedInteger

/-- The greatest number that a prefix of `bits` bits can hold. -/
def greatestIn (bits : Nat) : Nat := (1 <<< bits) - 1

/-! ## Writing -/

/-- A number in base 128, least significant digit first, the high bit set on all but the last. -/
def encodeContinuation (v : Nat) : Bytes :=
  if v < 128 then [UInt8.ofNat v]
  else UInt8.ofNat (v % 128 + 128) :: encodeContinuation (v / 128)

/-- The encoding of `v` with a prefix of `bits` bits, below the bits of `high` in the first byte. -/
def encode (bits high v : Nat) : Bytes :=
  if v < greatestIn bits then [UInt8.ofNat (high <<< bits + v)]
  else UInt8.ofNat (high <<< bits + greatestIn bits) :: encodeContinuation (v - greatestIn bits)

/-! ## Reading -/

/-- How far the reading of an integer has come. -/
inductive Reader where
  /-- No integer is expected. -/
  | unconfigured
  /-- The first byte is expected, with `bits` bits of prefix. -/
  | start (bits : Nat)
  /-- The bytes so far add up to `value`, and the next digit counts `2 ^ shift`. -/
  | continuation (value shift : Nat)
  /-- The integer is complete. -/
  | done (value : Nat)
deriving DecidableEq, Repr, Inhabited

namespace Reader

/-- Whether the first byte has been consumed. -/
def isStarted : Reader → Bool
  | unconfigured | start _ => false
  | continuation .. | done _ => true

/-- Reads continuation bytes until one has its high bit clear. -/
def readContinuation (value shift : Nat) : Bytes → Outcome Reader Nat
  | [] => ⟨.ok none, .continuation value shift, []⟩
  | byte :: rest =>
    let digit := (byte.toNat % 128) <<< shift
    if 63 < shift ∨ wordBound ≤ value + digit then
      ⟨.error .integerOverflow, .continuation value shift, rest⟩
    else if byte.toNat < 128 then
      ⟨.ok (some (value + digit)), .done (value + digit), rest⟩
    else readContinuation (value + digit) (shift + 7) rest

/-- Reads on from a chunk. A complete integer is given again on every further call. -/
def read : Reader → Bytes → Outcome Reader Nat
  | unconfigured, input => ⟨.error .invalidState, .unconfigured, input⟩
  | start bits, [] => ⟨.ok none, .start bits, []⟩
  | start bits, byte :: rest =>
    let value := byte.toNat % (1 <<< bits)
    if value < greatestIn bits then ⟨.ok (some value), .done value, rest⟩
    else readContinuation value 0 rest
  | continuation value shift, input => readContinuation value shift input
  | done value, input => ⟨.ok (some value), .done value, input⟩

/-! ## What reading leaves -/

theorem length_rest_readContinuation (value shift : Nat) (input : Bytes) :
    (readContinuation value shift input).rest.length ≤ input.length := by
  induction input generalizing value shift with
  | nil => simp [readContinuation]
  | cons byte rest ih =>
    simp only [readContinuation]
    split
    · simp
    · split
      · simp
      · exact Nat.le_trans (ih _ _) (by simp)

theorem length_rest_read (r : Reader) (input : Bytes) :
    (r.read input).rest.length ≤ input.length := by
  cases r with
  | unconfigured => simp [read]
  | start bits =>
    cases input with
    | nil => simp [read]
    | cons byte rest =>
      simp only [read]
      split
      · simp
      · exact Nat.le_trans (length_rest_readContinuation _ _ _) (by simp)
  | continuation value shift => exact length_rest_readContinuation value shift input
  | done value => simp [read]

theorem length_rest_read_start (bits : Nat) (byte : UInt8) (rest : Bytes) :
    ((start bits).read (byte :: rest)).rest.length ≤ rest.length := by
  simp only [read]
  split
  · simp
  · exact length_rest_readContinuation _ _ _

end Reader

end FieldCompression.PrefixedInteger
