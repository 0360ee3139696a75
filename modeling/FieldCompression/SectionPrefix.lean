import FieldCompression.Field
import FieldCompression.PrefixedInteger

/-!
# The prefix of a field section

A field section starts with two numbers about the dynamic table (RFC 9204, section 4.5.1): the
*Required Insert Count*, the number of insertions that the section relies on, and the *Base*, the
point that its references count from.

## The Required Insert Count on the wire

Of the Required Insert Count only the remainder modulo twice the greatest number of entries is
sent, plus one; zero is sent as zero. The reader knows how many insertions there have been, the
true count differs from that by at most the greatest number of entries, and so exactly one count
in that range has the remainder. `reconstruct` finds it: it takes the greatest multiple of the
range that the count could lie beyond, adds the remainder, and goes back by one range if the
result is too great. `fullRange`, `maxValue` and `candidate` name the steps.

## The Base

The Base is sent as a sign and a distance from the Required Insert Count. The distance is one
less when the Base is smaller, because zero needs no second spelling.
-/

namespace FieldCompression

/-- The numbers that a field section starts with. -/
structure SectionPrefix where
  /-- The number of insertions that the section relies on. -/
  requiredInsertCount : Nat := 0
  /-- The number of insertions that relative references count back from. -/
  base : Nat := 0
deriving DecidableEq, Repr, Inhabited

namespace SectionPrefix

/-- The prefix in one line. -/
def describe (p : SectionPrefix) : String :=
  s!"FieldSectionPrefix \x7b required_insert_count: {p.requiredInsertCount}, base: {p.base} \x7d"

/-! ## The Required Insert Count -/

/-- The modulus under which a Required Insert Count is sent. -/
def fullRange (maxEntries : Nat) : Nat := maxEntries * 2

/-- The greatest Required Insert Count that can be meant. -/
def maxValue (maxEntries insertCount : Nat) : Nat := insertCount + maxEntries

/-- The count with the given encoding in the range that holds the greatest possible count. -/
def candidate (encoded maxEntries insertCount : Nat) : Nat :=
  maxValue maxEntries insertCount / fullRange maxEntries * fullRange maxEntries + encoded - 1

/-- The form in which a Required Insert Count is sent. -/
def encodeInsertCount (maxEntries requiredInsertCount : Nat) : Nat :=
  if requiredInsertCount = 0 then 0 else requiredInsertCount % fullRange maxEntries + 1

/-- A count that is sent in another form than zero is not zero. -/
def nonzero (count : Nat) : Except Error Nat :=
  if count = 0 then .error .invalidDynamicTableIndex else .ok count

/-- The Required Insert Count with the given encoding, after `insertCount` insertions.

No sum or product here is bounded. Steps that are made in 64-bit words come to the same, none of
them without a result, as long as `insertCount + 3 * maxEntries` is below `wordBound`
(`reconstructInWords_eq`); beyond that, an addition or the multiplication of the range may exceed a
word, and then the words do not follow this definition. -/
def reconstruct (encoded maxEntries insertCount : Nat) : Except Error Nat :=
  if encoded = 0 then .ok 0
  else if fullRange maxEntries < encoded then .error .invalidDynamicTableIndex
  else
    let count := candidate encoded maxEntries insertCount
    if count ≤ maxValue maxEntries insertCount then nonzero count
    else if count ≤ fullRange maxEntries then .error .invalidDynamicTableIndex
    else nonzero (count - fullRange maxEntries)

/-! ## The Base -/

/-- The Base at a distance from a Required Insert Count, if it is a 64-bit number. -/
def baseOf (requiredInsertCount : Nat) (negative : Bool) (delta : Nat) : Except Error Nat :=
  if negative then
    if delta + 1 ≤ requiredInsertCount then .ok (requiredInsertCount - (delta + 1))
    else .error .invalidDynamicTableIndex
  else if requiredInsertCount + delta < wordBound then .ok (requiredInsertCount + delta)
  else .error .invalidDynamicTableIndex

/-! ## Writing -/

/-- The encoding of a prefix for a table with the given greatest number of entries. -/
def encode (maxEntries : Nat) (p : SectionPrefix) : Bytes :=
  PrefixedInteger.encode 8 0 (encodeInsertCount maxEntries p.requiredInsertCount) ++
    if p.requiredInsertCount ≤ p.base then
      PrefixedInteger.encode 7 0 (p.base - p.requiredInsertCount)
    else PrefixedInteger.encode 7 1 (p.requiredInsertCount - p.base - 1)

/-! ## Reading -/

/-- How far the reading of a prefix has come. -/
inductive Reader where
  /-- The encoded Required Insert Count is being read. -/
  | insertCount (int : PrefixedInteger.Reader)
  /-- The sign of the distance is expected. -/
  | sign (requiredInsertCount : Nat)
  /-- The distance is being read. -/
  | delta (requiredInsertCount : Nat) (negative : Bool) (int : PrefixedInteger.Reader)
  /-- The prefix is complete. -/
  | done (value : SectionPrefix)
deriving DecidableEq, Repr

namespace Reader

/-- A reader that has read nothing. -/
def fresh : Reader := insertCount (.start 8)

instance : Inhabited Reader := ⟨fresh⟩

/-- The prefix if it is complete, else one of zeros. -/
def get : Reader → SectionPrefix
  | done value => value
  | _ => {}

/-- Reads the distance. -/
def readDelta (requiredInsertCount : Nat) (negative : Bool) (int : PrefixedInteger.Reader)
    (input : Bytes) : Outcome Reader SectionPrefix :=
  let o := int.read input
  let unfinished := delta requiredInsertCount negative o.state
  match o.result with
  | .error e => ⟨.error e, unfinished, o.rest⟩
  | .ok none => ⟨.ok none, unfinished, o.rest⟩
  | .ok (some distance) =>
    match baseOf requiredInsertCount negative distance with
    | .error e => ⟨.error e, unfinished, o.rest⟩
    | .ok base => ⟨.ok (some ⟨requiredInsertCount, base⟩), done ⟨requiredInsertCount, base⟩, o.rest⟩

/-- Reads the sign, which shares its byte with the distance, and the distance. -/
def readSign (requiredInsertCount : Nat) : Bytes → Outcome Reader SectionPrefix
  | [] => ⟨.ok none, sign requiredInsertCount, []⟩
  | byte :: rest =>
    readDelta requiredInsertCount (flagAt byte 7) (.start 7) (byte :: rest)

/-- Reads on from a chunk. The Required Insert Count is reconstructed from the table as it is when
the last byte of its encoding is read. -/
def read (table : TableView) : Reader → Bytes → Outcome Reader SectionPrefix
  | insertCount int, input =>
    let o := int.read input
    match o.result with
    | .error e => ⟨.error e, insertCount o.state, o.rest⟩
    | .ok none => ⟨.ok none, insertCount o.state, o.rest⟩
    | .ok (some encoded) =>
      match reconstruct encoded table.maxEntries table.insertCount with
      | .error e => ⟨.error e, insertCount o.state, o.rest⟩
      | .ok count => readSign count o.rest
  | sign count, input => readSign count input
  | delta count negative int, input => readDelta count negative int input
  | done value, input => ⟨.ok (some value), done value, input⟩

end Reader

end SectionPrefix

end FieldCompression
