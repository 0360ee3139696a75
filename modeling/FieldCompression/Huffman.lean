import FieldCompression.Basic
import FieldCompression.Huffman.Transitions

/-!
# Huffman coding of strings

A string may be sent as codewords. Writing goes by the code itself. Reading goes by a table of
transitions, half an octet at a time; that the table agrees with the code is a fact about the two,
and neither is defined by the other.
-/

namespace FieldCompression.Huffman

/-! ## The code

A fixed prefix-free code with 257 words, one for each octet and one for the end of the string. It
is the code of RFC 7541, appendix B, given below as that appendix lists it: for each octet in
order, the codeword read as a binary number, and its length in bits.

### Words and symbols

Writing needs the word of a symbol and reading needs the symbol of a word. `codeword` reads the
table, and `symbolOf?` looks for a word among those that `codeword` gives, so the two directions
cannot disagree. The words have 5 to 30 bits and leave no gap: every endless bit sequence starts
with exactly one of them.

### Padding

An encoded string is cut into bytes, and the last byte is filled up with one bits. Seven bits
suffice, and they can be told from data because the end-of-string word is thirty ones. -/

/-! ### The table -/

/-- The codeword of each octet, in the order of the octets: its value and its length in bits. -/
def octetCodes : List (Nat × Nat) :=
  [(0x1ff8, 13), (0x7fffd8, 23), (0xfffffe2, 28), (0xfffffe3, 28), (0xfffffe4, 28),
   (0xfffffe5, 28), (0xfffffe6, 28), (0xfffffe7, 28), (0xfffffe8, 28), (0xffffea, 24),
   (0x3ffffffc, 30), (0xfffffe9, 28), (0xfffffea, 28), (0x3ffffffd, 30), (0xfffffeb, 28),
   (0xfffffec, 28), (0xfffffed, 28), (0xfffffee, 28), (0xfffffef, 28), (0xffffff0, 28),
   (0xffffff1, 28), (0xffffff2, 28), (0x3ffffffe, 30), (0xffffff3, 28), (0xffffff4, 28),
   (0xffffff5, 28), (0xffffff6, 28), (0xffffff7, 28), (0xffffff8, 28), (0xffffff9, 28),
   (0xffffffa, 28), (0xffffffb, 28), (0x14, 6), (0x3f8, 10), (0x3f9, 10), (0xffa, 12),
   (0x1ff9, 13), (0x15, 6), (0xf8, 8), (0x7fa, 11), (0x3fa, 10), (0x3fb, 10), (0xf9, 8),
   (0x7fb, 11), (0xfa, 8), (0x16, 6), (0x17, 6), (0x18, 6), (0x0, 5), (0x1, 5), (0x2, 5),
   (0x19, 6), (0x1a, 6), (0x1b, 6), (0x1c, 6), (0x1d, 6), (0x1e, 6), (0x1f, 6), (0x5c, 7),
   (0xfb, 8), (0x7ffc, 15), (0x20, 6), (0xffb, 12), (0x3fc, 10), (0x1ffa, 13), (0x21, 6),
   (0x5d, 7), (0x5e, 7), (0x5f, 7), (0x60, 7), (0x61, 7), (0x62, 7), (0x63, 7), (0x64, 7),
   (0x65, 7), (0x66, 7), (0x67, 7), (0x68, 7), (0x69, 7), (0x6a, 7), (0x6b, 7), (0x6c, 7),
   (0x6d, 7), (0x6e, 7), (0x6f, 7), (0x70, 7), (0x71, 7), (0x72, 7), (0xfc, 8), (0x73, 7),
   (0xfd, 8), (0x1ffb, 13), (0x7fff0, 19), (0x1ffc, 13), (0x3ffc, 14), (0x22, 6), (0x7ffd, 15),
   (0x3, 5), (0x23, 6), (0x4, 5), (0x24, 6), (0x5, 5), (0x25, 6), (0x26, 6), (0x27, 6), (0x6, 5),
   (0x74, 7), (0x75, 7), (0x28, 6), (0x29, 6), (0x2a, 6), (0x7, 5), (0x2b, 6), (0x76, 7),
   (0x2c, 6), (0x8, 5), (0x9, 5), (0x2d, 6), (0x77, 7), (0x78, 7), (0x79, 7), (0x7a, 7),
   (0x7b, 7), (0x7ffe, 15), (0x7fc, 11), (0x3ffd, 14), (0x1ffd, 13), (0xffffffc, 28),
   (0xfffe6, 20), (0x3fffd2, 22), (0xfffe7, 20), (0xfffe8, 20), (0x3fffd3, 22), (0x3fffd4, 22),
   (0x3fffd5, 22), (0x7fffd9, 23), (0x3fffd6, 22), (0x7fffda, 23), (0x7fffdb, 23), (0x7fffdc, 23),
   (0x7fffdd, 23), (0x7fffde, 23), (0xffffeb, 24), (0x7fffdf, 23), (0xffffec, 24), (0xffffed, 24),
   (0x3fffd7, 22), (0x7fffe0, 23), (0xffffee, 24), (0x7fffe1, 23), (0x7fffe2, 23), (0x7fffe3, 23),
   (0x7fffe4, 23), (0x1fffdc, 21), (0x3fffd8, 22), (0x7fffe5, 23), (0x3fffd9, 22), (0x7fffe6, 23),
   (0x7fffe7, 23), (0xffffef, 24), (0x3fffda, 22), (0x1fffdd, 21), (0xfffe9, 20), (0x3fffdb, 22),
   (0x3fffdc, 22), (0x7fffe8, 23), (0x7fffe9, 23), (0x1fffde, 21), (0x7fffea, 23), (0x3fffdd, 22),
   (0x3fffde, 22), (0xfffff0, 24), (0x1fffdf, 21), (0x3fffdf, 22), (0x7fffeb, 23), (0x7fffec, 23),
   (0x1fffe0, 21), (0x1fffe1, 21), (0x3fffe0, 22), (0x1fffe2, 21), (0x7fffed, 23), (0x3fffe1, 22),
   (0x7fffee, 23), (0x7fffef, 23), (0xfffea, 20), (0x3fffe2, 22), (0x3fffe3, 22), (0x3fffe4, 22),
   (0x7ffff0, 23), (0x3fffe5, 22), (0x3fffe6, 22), (0x7ffff1, 23), (0x3ffffe0, 26),
   (0x3ffffe1, 26), (0xfffeb, 20), (0x7fff1, 19), (0x3fffe7, 22), (0x7ffff2, 23), (0x3fffe8, 22),
   (0x1ffffec, 25), (0x3ffffe2, 26), (0x3ffffe3, 26), (0x3ffffe4, 26), (0x7ffffde, 27),
   (0x7ffffdf, 27), (0x3ffffe5, 26), (0xfffff1, 24), (0x1ffffed, 25), (0x7fff2, 19),
   (0x1fffe3, 21), (0x3ffffe6, 26), (0x7ffffe0, 27), (0x7ffffe1, 27), (0x3ffffe7, 26),
   (0x7ffffe2, 27), (0xfffff2, 24), (0x1fffe4, 21), (0x1fffe5, 21), (0x3ffffe8, 26),
   (0x3ffffe9, 26), (0xffffffd, 28), (0x7ffffe3, 27), (0x7ffffe4, 27), (0x7ffffe5, 27),
   (0xfffec, 20), (0xfffff3, 24), (0xfffed, 20), (0x1fffe6, 21), (0x3fffe9, 22), (0x1fffe7, 21),
   (0x1fffe8, 21), (0x7ffff3, 23), (0x3fffea, 22), (0x3fffeb, 22), (0x1ffffee, 25),
   (0x1ffffef, 25), (0xfffff4, 24), (0xfffff5, 24), (0x3ffffea, 26), (0x7ffff4, 23),
   (0x3ffffeb, 26), (0x7ffffe6, 27), (0x3ffffec, 26), (0x3ffffed, 26), (0x7ffffe7, 27),
   (0x7ffffe8, 27), (0x7ffffe9, 27), (0x7ffffea, 27), (0x7ffffeb, 27), (0xffffffe, 28),
   (0x7ffffec, 27), (0x7ffffed, 27), (0x7ffffee, 27), (0x7ffffef, 27), (0x7fffff0, 27),
   (0x3ffffee, 26)]

/-- What a codeword stands for. -/
inductive Symbol where
  /-- One octet of content. -/
  | octet (value : UInt8)
  /-- The end of the string, which never occurs in encoded data. -/
  | endOfString
deriving DecidableEq, Repr

/-- The low `length` bits of a number, most significant first. -/
def bitsOf : (length value : Nat) → List Bool
  | 0, _ => []
  | n + 1, value => decide (value >>> n % 2 = 1) :: bitsOf n value

/-- The codeword of a symbol. -/
def codeword : Symbol → List Bool
  | .octet value =>
    let (code, length) := octetCodes.getD value.toNat (0, 0)
    bitsOf length code
  | .endOfString => List.replicate 30 true

/-- All symbols. -/
def symbols : List Symbol :=
  (List.range 256).map (fun n ↦ .octet (UInt8.ofNat n)) ++ [.endOfString]

/-- Every symbol's codeword with the symbol. -/
def codewords : List (List Bool × Symbol) := symbols.map fun symbol ↦ (codeword symbol, symbol)

/-- The symbol that a sequence of bits is the codeword of, if it is one. -/
def symbolOf? (bits : List Bool) : Option Symbol := codewords.lookup bits

/-! ### Encoding -/

/-- The octet with the given bits, most significant first. -/
def octetOf (bits : List Bool) : UInt8 :=
  UInt8.ofNat (bits.foldl (fun n bit ↦ 2 * n + bit.toNat) 0)

/-- Cuts bits into octets and fills the last one up with ones. -/
def pack : List Bool → Bytes
  | b₁ :: b₂ :: b₃ :: b₄ :: b₅ :: b₆ :: b₇ :: b₈ :: rest =>
    octetOf [b₁, b₂, b₃, b₄, b₅, b₆, b₇, b₈] :: pack rest
  | [] => []
  | tail => [octetOf (tail ++ List.replicate (8 - tail.length) true)]

/-- The Huffman encoding of a string: its codewords in order, padded to whole octets. -/
def encode (content : Bytes) : Bytes :=
  pack (content.flatMap fun octet ↦ codeword (.octet octet))

/-! ## Decoding

The decoder takes octets one at a time and can stop between any two of them. All it has to
remember is the state of the transition table, which stands for the bits since the last complete
symbol, and whether the string may end there.

### Half an octet at a time

Input is taken four bits at a time. A codeword has at least five bits, so four bits complete at
most one symbol. Where four bits complete the end-of-string word, they are refused as a whole: the
decoder stays where it was before them, and the symbols completed earlier, also by the first half
of the same octet, stand.

### The end

The string may end between symbols, or within padding: at most seven bits, all ones. The table says
of every transition whether it leads to such a place. -/

/-- A position within the code. -/
structure Decoder where
  /-- The state of the transition table. -/
  state : Nat := 0
  /-- Whether the last transition led to a place where the string may end. -/
  mayEnd : Bool := false
deriving DecidableEq, Repr, Inhabited

/-- What decoding a run of octets produced. -/
structure Decoding where
  /-- The octets decoded. -/
  output : Bytes
  /-- The position after the last bits accepted. -/
  decoder : Decoder
  /-- Whether all of the input was accepted. -/
  accepted : Bool
deriving DecidableEq, Repr

namespace Decoder

/-- Takes four bits. Gives the octet that they complete, if they complete one, and the position
after them, or nothing if they complete the end-of-string word. -/
def decodeHalf? (d : Decoder) (half : Nat) : Option (Bytes × Decoder) :=
  (transition? d.state half).map fun t ↦
    (t.octet?.toList, { state := t.next, mayEnd := t.mayEnd })

/-- Decodes octets until they end or one of their halves is refused. -/
def decode (d : Decoder) : Bytes → Decoding
  | [] => ⟨[], d, true⟩
  | byte :: rest =>
    match d.decodeHalf? (byte.toNat / 16) with
    | none => ⟨[], d, false⟩
    | some (first, d₁) =>
      match d₁.decodeHalf? (byte.toNat % 16) with
      | none => ⟨first, d₁, false⟩
      | some (second, d₂) =>
        let more := d₂.decode rest
        { more with output := first ++ second ++ more.output }

/-- Whether the string may end here: between symbols, or after at most seven ones of padding. -/
def isFinal (d : Decoder) : Bool := d.state == 0 || d.mayEnd

/-! ### Cutting the input -/

theorem decode_append_of_accepted {d : Decoder} {a : Bytes} (h : (d.decode a).accepted = true)
    (b : Bytes) :
    d.decode (a ++ b) =
      { (d.decode a).decoder.decode b with
        output := (d.decode a).output ++ ((d.decode a).decoder.decode b).output } := by
  fun_induction decode d a with
  | case1 => simp
  | case2 => simp at h
  | case3 => simp at h
  | case4 d byte rest first d₁ h₁ second d₂ h₂ more ih =>
    simp only [List.cons_append, decode, h₁, h₂, ih h, more, List.append_assoc]

theorem decode_append_of_refused {d : Decoder} {a : Bytes} (h : (d.decode a).accepted = false)
    (b : Bytes) : d.decode (a ++ b) = d.decode a := by
  fun_induction decode d a with
  | case1 => simp at h
  | case2 d byte rest h₁ => simp only [List.cons_append, decode, h₁]
  | case3 d byte rest first d₁ h₁ h₂ => simp only [List.cons_append, decode, h₁, h₂]
  | case4 d byte rest first d₁ h₁ second d₂ h₂ more ih =>
    simp only [List.cons_append, decode, h₁, h₂, ih h, more]

end Decoder

end FieldCompression.Huffman
