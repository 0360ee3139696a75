import FieldCompression.Huffman
import FieldCompression.Note

/-!
# String literals

A string literal is a flag, a length and a payload (RFC 9204, section 4.1.2). The flag is the bit
above the prefix of the length, and it says whether the payload is Huffman-coded. The length
counts the octets of the payload, not of the content.

## The limit

A reader has a limit on the content. The length alone often shows that the limit will be
exceeded: an unencoded payload is its own content, and no codeword is longer than four octets, so
a Huffman-coded payload of more than four times the limit decodes to more than the limit. Such a
string is refused as soon as its length is known, and nothing of it is stored. Otherwise the
content is counted while it is decoded. What a call decodes is given out before it is counted.
-/

namespace FieldCompression

/-- A string and the form in which it is sent. -/
structure StringLiteral where
  /-- Whether the payload is Huffman-coded. -/
  huffman : Bool
  /-- The string. -/
  content : Bytes
deriving DecidableEq, Repr, Inhabited

namespace StringLiteral

/-- The octets that follow the length. -/
def payload (s : StringLiteral) : Bytes :=
  if s.huffman then Huffman.encode s.content else s.content

/-- The encoding of a string whose length has a prefix of `bits` bits. The bits of `high` precede
the flag in the first byte. -/
def encode (bits high : Nat) (s : StringLiteral) : Bytes :=
  PrefixedInteger.encode bits (high * 2 + s.huffman.toNat) s.payload.length ++ s.payload

/-- How often the length of a Huffman-coded payload can exceed that of its content. -/
def maxExpansion : Nat := 4

/-- The part of a string that is read next. -/
inductive Phase where
  /-- No string is expected. -/
  | unconfigured
  /-- The flag, above a length with a prefix of `bits` bits. -/
  | flag (bits : Nat)
  /-- The length. -/
  | length (int : PrefixedInteger.Reader)
  /-- The payload, of which `remaining` octets are missing; `decoded` octets of content have been
  counted. -/
  | payload (remaining decoded : Nat) (decoder : Huffman.Decoder)
  /-- Nothing: the string is complete. -/
  | done
deriving DecidableEq, Repr, Inhabited

/-- How far the reading of a string has come. -/
structure Reader where
  /-- The part that is read next. -/
  phase : Phase := .unconfigured
  /-- Whether the payload is Huffman-coded, as far as is known. -/
  huffman : Bool := false
  /-- The greatest length of the content. -/
  limit : Nat := maxWord
deriving DecidableEq, Repr, Inhabited

/-- What one call of a reader did with a chunk. The content itself is in `output`. -/
structure Reading extends Outcome Reader Unit where
  /-- The octets of content that the call decoded. -/
  output : Bytes := []
  /-- What the call noted. -/
  notes : List Note := []

namespace Reader

/-- A reader for a string whose length has a prefix of `bits` bits, without a limit. -/
def start (bits : Nat) : Reader := { phase := .flag bits }

/-- The same reader under another limit. -/
def withLimit (r : Reader) (limit : Nat) : Reader := { r with limit := limit }

/-- The greatest length of a payload that is not refused at once. -/
def payloadLimit (r : Reader) : Nat := if r.huffman then r.limit * maxExpansion else r.limit

/-- The content in a part of a payload. -/
def expand (r : Reader) (decoder : Huffman.Decoder) (part : Bytes) : Huffman.Decoding :=
  if r.huffman then decoder.decode part else ⟨part, decoder, true⟩

/-- Reads the payload, or what there is of it. -/
def readPayload (r : Reader) (remaining decoded : Nat) (decoder : Huffman.Decoder)
    (input : Bytes) : Reading :=
  let taken := min remaining input.length
  let rest := input.drop taken
  let content := r.expand decoder (input.take taken)
  let counted := decoded + content.output.length
  if !content.accepted then
    { result := .error .invalidHuffmanEncoding
      state := { r with phase := .payload remaining decoded content.decoder }
      rest, output := content.output }
  else if r.limit < counted then
    { result := .error .headerListTooLarge
      state := { r with phase := .payload remaining counted content.decoder }
      rest, output := content.output }
  else if taken < remaining then
    { result := .ok none
      state := { r with phase := .payload (remaining - taken) counted content.decoder }
      rest, output := content.output }
  else if r.huffman && !content.decoder.isFinal then
    { result := .error .invalidHuffmanEncoding
      state := { r with phase := .payload 0 counted content.decoder }
      rest, output := content.output }
  else
    { result := .ok (some ()), state := { r with phase := .done }, rest, output := content.output }

/-- Reads the length, and the payload unless the length shows it to be too long. -/
def readLength (r : Reader) (int : PrefixedInteger.Reader) (input : Bytes) : Reading :=
  let o := int.read input
  let unfinished := { r with phase := .length o.state }
  match o.result with
  | .error e => { result := .error e, state := unfinished, rest := o.rest }
  | .ok none => { result := .ok none, state := unfinished, rest := o.rest }
  | .ok (some length) =>
    if r.payloadLimit < length then
      { result := .error .headerListTooLarge, state := unfinished, rest := o.rest
        notes := [.stringTooLong length r.limit] }
    else r.readPayload length 0 {} o.rest

/-- Reads on from a chunk. -/
def read (r : Reader) (input : Bytes) : Reading :=
  match r.phase with
  | .unconfigured => { result := .error .invalidState, state := r, rest := input }
  | .flag bits =>
    match input with
    | [] => { result := .ok none, state := r, rest := [] }
    | byte :: _ => { r with huffman := flagAt byte bits }.readLength (.start bits) input
  | .length int => r.readLength int input
  | .payload remaining decoded decoder => r.readPayload remaining decoded decoder input
  | .done => { result := .ok (some ()), state := r, rest := input }

/-! ## What reading leaves -/

theorem length_rest_readPayload (r : Reader) (remaining decoded : Nat)
    (decoder : Huffman.Decoder) (input : Bytes) :
    (r.readPayload remaining decoded decoder input).rest.length ≤ input.length := by
  simp only [readPayload]
  (repeat' split) <;> simp

theorem length_rest_readLength (r : Reader) (int : PrefixedInteger.Reader) (input : Bytes) :
    (r.readLength int input).rest.length ≤ (int.read input).rest.length := by
  simp only [readLength]
  split
  · simp
  · simp
  · split
    · simp
    · exact length_rest_readPayload _ _ _ _ _

theorem length_rest_read (r : Reader) (input : Bytes) :
    (r.read input).rest.length ≤ input.length := by
  rw [read]
  split
  · simp
  · split
    · simp
    · exact Nat.le_trans (length_rest_readLength _ _ _)
        (PrefixedInteger.Reader.length_rest_read _ _)
  · exact Nat.le_trans (length_rest_readLength _ _ _) (PrefixedInteger.Reader.length_rest_read _ _)
  · exact length_rest_readPayload _ _ _ _ _
  · simp

theorem length_rest_read_flag {r : Reader} (bits : Nat) (h : r.phase = .flag bits)
    (byte : UInt8) (rest : Bytes) : (r.read (byte :: rest)).rest.length ≤ rest.length := by
  simp only [read, h]
  exact Nat.le_trans (length_rest_readLength _ _ _)
    (PrefixedInteger.Reader.length_rest_read_start _ _ _)

end Reader

end StringLiteral

end FieldCompression
