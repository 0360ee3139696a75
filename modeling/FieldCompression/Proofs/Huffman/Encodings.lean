import FieldCompression.Proofs.Huffman.Automaton

/-!
# Huffman-coded octets

Octets are read as their bits, and the bits are matched with codewords. A payload is accepted if
none of its octets is refused and the string may end after the last of them. Each string has one
such payload, its encoding.
-/

namespace FieldCompression.Huffman

/-! ## What decoding Huffman-coded octets gives

In one direction, whatever has been accepted was a sequence of codewords and the beginning of one
more. In the other, a sequence of codewords gives back its symbols. Both are about bits; that the
decoder takes them four at a time makes no difference.

The first direction bounds a payload by its content: each octet of content used up at most thirty
bits, and a complete payload has at most seven bits besides. So a payload is at most four times as
long as its content, and one that is longer can be refused unread. -/

/-- The bits of octets, as they are read. -/
def unpack (input : Bytes) : List Bool := input.flatMap fun byte ↦ bitsOf 8 byte.toNat

@[simp] theorem unpack_cons (byte : UInt8) (rest : Bytes) :
    unpack (byte :: rest) = bitsOf 8 byte.toNat ++ unpack rest := rfl

theorem length_unpack (input : Bytes) : (unpack input).length = 8 * input.length := by
  induction input with
  | nil => rfl
  | cons byte rest ih =>
    rw [unpack_cons, List.length_append, length_bitsOf, ih, List.length_cons]
    omega

private theorem bitsOf_halves (byte : UInt8) :
    bitsOf 8 byte.toNat = bitsOf 4 (byte.toNat / 16) ++ bitsOf 4 (byte.toNat % 16) := by
  have hall : ∀ n < 256, bitsOf 8 n = bitsOf 4 (n / 16) ++ bitsOf 4 (n % 16) := by decide +kernel
  exact hall _ byte.toNat_lt

/-! ### Octets -/

/-- A decoder that holds back some bits reads the bits of octets after them. It refuses the octets
if these complete the word for the end of the string. -/
theorem Reads.decode {d : Decoder} {held : List Bool} (h : Reads d held) (input : Bytes) :
    match readBits? held (unpack input) with
    | none => (d.decode input).accepted = false
    | some (output, held') =>
      ∃ d', d.decode input = ⟨output, d', true⟩ ∧ Reads d' held' := by
  induction input generalizing d held with
  | nil => exact ⟨d, rfl, h⟩
  | cons byte rest ih =>
    have hbyte := byte.toNat_lt
    rw [unpack_cons, bitsOf_halves, readBits?_append, readBits?_append, Decoder.decode]
    -- the first half, then the second, then the other octets
    have hfirst := h.decodeHalf? (show byte.toNat / 16 < 16 by omega)
    rcases h₁ : readBits? held (bitsOf 4 (byte.toNat / 16)) with _ | ⟨first, held₁⟩
    · rw [h₁] at hfirst
      simp [hfirst]
    rw [h₁] at hfirst
    obtain ⟨d₁, hd₁, hreads₁⟩ := hfirst
    have hsecond := hreads₁.decodeHalf? (show byte.toNat % 16 < 16 by omega)
    rcases h₂ : readBits? held₁ (bitsOf 4 (byte.toNat % 16)) with _ | ⟨second, held₂⟩
    · rw [h₂] at hsecond
      simp [hd₁, hsecond, h₂]
    rw [h₂] at hsecond
    obtain ⟨d₂, hd₂, hreads₂⟩ := hsecond
    have hmore := ih hreads₂
    rcases h₃ : readBits? held₂ (unpack rest) with _ | ⟨more, held₃⟩
    · rw [h₃] at hmore
      simp [hd₁, hd₂, h₂, h₃, hmore]
    · rw [h₃] at hmore
      obtain ⟨d₃, hd₃, hreads₃⟩ := hmore
      simp [hd₁, hd₂, h₂, h₃, hd₃, hreads₃]

/-- What octets have to be for a string, its codewords followed by some bits that may end it. -/
theorem decode_of_unpack {input content : Bytes} {tail : List Bool}
    (hbits : unpack input = bitsOfContent content ++ tail) (htail : ∀ s, ¬codeword s <+: tail) :
    ∃ d : Decoder, Decoder.decode {} input = ⟨content, d, true⟩ ∧ d.isFinal = endsWell tail := by
  have hread : readBits? [] (unpack input) = some (content, tail) := by
    rw [hbits, readBits?_bitsOfContent, readBits?_of_no_codeword htail]
    simp
  have hdecode := reads_start.decode input
  rw [hread] at hdecode
  obtain ⟨d, hd, hreads⟩ := hdecode
  exact ⟨d, hd, hreads.final⟩

namespace Decoder

/-- **Soundness.** What has been decoded from accepted octets is what the codewords at their
beginning stand for, and the decoder holds back what follows these. -/
theorem bits_of_accepted {input : Bytes} (h : (decode {} input).accepted = true) :
    ∃ tail, unpack input = bitsOfContent (decode {} input).output ++ tail ∧
      (decode {} input).decoder.isFinal = endsWell tail := by
  have hdecode := reads_start.decode input
  rcases hread : readBits? [] (unpack input) with _ | ⟨output, tail⟩
  · rw [hread] at hdecode
    exact absurd (h.symm.trans hdecode) (by simp)
  · rw [hread] at hdecode
    obtain ⟨d, hd, hreads⟩ := hdecode
    rw [hd]
    exact ⟨tail, eq_of_readBits? hread, hreads.final⟩

theorem eight_mul_length_le_of_accepted {input : Bytes} (h : (decode {} input).accepted = true)
    (hfinal : (decode {} input).decoder.isFinal = true) :
    8 * input.length ≤ 30 * (decode {} input).output.length + 7 := by
  obtain ⟨tail, hunpack, hends⟩ := bits_of_accepted h
  have hbits := congrArg List.length hunpack
  rw [length_unpack, List.length_append] at hbits
  have hcontent := length_bitsOfContent_le (decode {} input).output
  have htail : tail.length ≤ 7 := by
    rw [hfinal] at hends
    simp only [endsWell, Bool.true_eq, Bool.and_eq_true, decide_eq_true_eq] at hends
    exact hends.1
  omega

/-- **Expansion.** A complete payload is at most four times as long as its content. -/
theorem length_le_of_accepted {input : Bytes} (h : (decode {} input).accepted = true)
    (hfinal : (decode {} input).decoder.isFinal = true) :
    input.length ≤ 4 * (decode {} input).output.length := by
  have hbits := eight_mul_length_le_of_accepted h hfinal
  omega

end Decoder

/-! ### Encoding and decoding -/

private theorem unpack_octetOf (b₁ b₂ b₃ b₄ b₅ b₆ b₇ b₈ : Bool) :
    bitsOf 8 (octetOf [b₁, b₂, b₃, b₄, b₅, b₆, b₇, b₈]).toNat =
      [b₁, b₂, b₃, b₄, b₅, b₆, b₇, b₈] := by
  revert b₁ b₂ b₃ b₄ b₅ b₆ b₇ b₈
  decide +kernel

/-- Octets that bits were packed into have those bits, and fewer than eight ones after them. -/
theorem unpack_pack (bits : List Bool) :
    ∃ n, n < 8 ∧ unpack (pack bits) = bits ++ List.replicate n true := by
  fun_induction pack bits with
  | case1 b₁ b₂ b₃ b₄ b₅ b₆ b₇ b₈ rest ih =>
    obtain ⟨n, hn, hrest⟩ := ih
    refine ⟨n, hn, ?_⟩
    rw [unpack_cons, unpack_octetOf, hrest]
    rfl
  | case2 => exact ⟨0, by omega, rfl⟩
  | case3 tail hlong hnil =>
    have hone (b : List Bool) (hb : b.length = 8) : unpack [octetOf b] = b := by
      match b, hb with
      | [b₁, b₂, b₃, b₄, b₅, b₆, b₇, b₈], _ =>
        rw [unpack_cons, unpack_octetOf]
        rfl
    have hlength : tail.length < 8 := by
      match tail, hlong with
      | [], _ | [_], _ | [_, _], _ | [_, _, _], _ | [_, _, _, _], _ | [_, _, _, _, _], _
      | [_, _, _, _, _, _], _ | [_, _, _, _, _, _, _], _ => simp
      | b₁ :: b₂ :: b₃ :: b₄ :: b₅ :: b₆ :: b₇ :: b₈ :: rest, hlong =>
        exact absurd rfl (hlong b₁ b₂ b₃ b₄ b₅ b₆ b₇ b₈ rest)
    refine ⟨8 - tail.length, ?_, hone _ ?_⟩
    · have := List.length_pos_iff.mpr hnil
      omega
    · rw [List.length_append, List.length_replicate]
      omega

private theorem endsWell_padding {n : Nat} (hn : n < 8) :
    endsWell (List.replicate n true) = true := by
  simp [endsWell]
  omega

/-- **Decoding undoes encoding.** -/
theorem Decoder.decode_encode (content : Bytes) :
    ∃ d : Decoder, d.isFinal = true ∧ decode {} (encode content) = ⟨content, d, true⟩ := by
  obtain ⟨n, hn, hunpack⟩ := unpack_pack (bitsOfContent content)
  obtain ⟨d, hdecode, hfinal⟩ :=
    decode_of_unpack hunpack (no_codeword_of_padding (Nat.lt_trans hn (by decide)))
  exact ⟨d, hfinal.trans (endsWell_padding hn), hdecode⟩

/-! ## Accepted payloads are exactly the encodings

What is accepted for a string is its codewords and at most seven ones, and that the bits are a whole
number of octets leaves one choice for how many. So nothing else is accepted. Data that holds the
word for the end of the string is refused while it is read. Padding that is too long, or that is not
all ones, is read to its end, and then the string may not end there. -/

/-! ### Octets are told apart by their bits -/

private theorem octetOf_bitsOf (byte : UInt8) : octetOf (bitsOf 8 byte.toNat) = byte := by
  have hall : ∀ n < 256, octetOf (bitsOf 8 n) = UInt8.ofNat n := by decide +kernel
  rw [hall _ byte.toNat_lt, UInt8.ofNat_toNat]

theorem unpack_injective {a b : Bytes} (h : unpack a = unpack b) : a = b := by
  have hlength : a.length = b.length := by
    have hbits := congrArg List.length h
    rw [length_unpack, length_unpack] at hbits
    exact Nat.eq_of_mul_eq_mul_left (by decide) hbits
  induction a generalizing b with
  | nil => exact (List.length_eq_zero_iff.mp hlength.symm).symm
  | cons x a ih =>
    match b, hlength with
    | y :: b, hlength =>
      rw [unpack_cons, unpack_cons] at h
      obtain ⟨hfirst, hrest⟩ := List.append_inj h (by rw [length_bitsOf, length_bitsOf])
      have hoctet : x = y := by rw [← octetOf_bitsOf x, hfirst, octetOf_bitsOf]
      rw [hoctet, ih hrest (Nat.succ.inj hlength)]

theorem exists_padding_of_endsWell {tail : List Bool} (h : endsWell tail = true) :
    ∃ n, n < 8 ∧ tail = List.replicate n true := by
  obtain ⟨hlength, hall⟩ := Bool.and_eq_true_iff.mp h
  refine ⟨tail.length, Nat.lt_succ_of_le (of_decide_eq_true hlength), ?_⟩
  rw [List.eq_replicate_iff]
  exact ⟨rfl, fun bit hbit ↦ List.all_eq_true.mp hall bit hbit⟩

namespace Decoder

/-- The octets are a complete payload for the string: none of them is refused, and the string may
end after them. -/
def Accepts (input content : Bytes) : Prop :=
  ∃ d : Decoder, decode {} input = ⟨content, d, true⟩ ∧ d.isFinal = true

/-- What is accepted for a string is its encoding. -/
theorem Accepts.eq_encode {input content : Bytes} (h : Accepts input content) :
    input = encode content := by
  obtain ⟨d, hdecode, hfinal⟩ := h
  have haccepted : (decode {} input).accepted = true := by rw [hdecode]
  obtain ⟨tail, hinput, hends⟩ := bits_of_accepted haccepted
  simp only [hdecode] at hinput hends
  obtain ⟨n, hn, rfl⟩ := exists_padding_of_endsWell (hends.symm.trans hfinal)
  obtain ⟨m, hm, hencode⟩ := unpack_pack (bitsOfContent content)
  -- both are the same bits padded to whole octets, with fewer than eight ones
  have hsame : n = m := by
    have hinputLength := congrArg List.length hinput
    have hencodeLength := congrArg List.length hencode
    rw [length_unpack, List.length_append, List.length_replicate] at hinputLength hencodeLength
    omega
  refine unpack_injective ?_
  rw [hinput, hsame, encode, ← bitsOfContent, hencode]

/-! ### What is refused -/

theorem refused_of_endOfString {input content : Bytes} {rest : List Bool}
    (h : unpack input = bitsOfContent content ++ (codeword .endOfString ++ rest)) :
    (decode {} input).accepted = false := by
  have hnone : readBits? [] (unpack input) = none := by
    rw [h, readBits?_bitsOfContent, readBits?_endOfString]
    rfl
  have hdecode := reads_start.decode input
  rwa [hnone] at hdecode

theorem not_accepts_of_refused {input : Bytes} (h : (decode {} input).accepted = false)
    (content : Bytes) : ¬Accepts input content := by
  rintro ⟨d, hdecode, -⟩
  rw [hdecode] at h
  exact absurd h (by simp)

theorem not_accepts_of_tail {input content : Bytes} {tail : List Bool}
    (h : unpack input = bitsOfContent content ++ tail) (htail : ∀ s, ¬codeword s <+: tail)
    (hends : endsWell tail = false) (other : Bytes) : ¬Accepts input other := by
  rintro ⟨d', hdecode', hfinal⟩
  obtain ⟨d, hdecode, hd⟩ := decode_of_unpack h htail
  obtain rfl : d = d' := congrArg Decoding.decoder (hdecode.symm.trans hdecode')
  exact absurd (hfinal.symm.trans (hd.trans hends)) (by simp)

theorem not_accepts_of_long_padding {input content : Bytes} {n : Nat} (hn : 8 ≤ n)
    (h : unpack input = bitsOfContent content ++ List.replicate n true) (other : Bytes) :
    ¬Accepts input other := by
  by_cases hshort : n < 30
  · refine not_accepts_of_tail h (no_codeword_of_padding hshort) ?_ other
    simp [endsWell]
    omega
  · -- so many ones hold the word for the end of the string
    have hword : List.replicate n true =
        codeword .endOfString ++ List.replicate (n - 30) true := by
      rw [codeword, List.replicate_append_replicate]
      congr 1
      omega
    exact not_accepts_of_refused (refused_of_endOfString (hword ▸ h)) other

theorem not_accepts_of_zero {input content : Bytes} {tail : List Bool}
    (htail : ∀ s, ¬codeword s <+: tail) (hzero : false ∈ tail)
    (h : unpack input = bitsOfContent content ++ tail) (other : Bytes) :
    ¬Accepts input other := by
  refine not_accepts_of_tail h htail ?_ other
  rw [← Bool.not_eq_true]
  intro hends
  obtain ⟨n, -, rfl⟩ := exists_padding_of_endsWell hends
  exact absurd (List.eq_of_mem_replicate hzero) (by simp)

/-- **The accepted payloads are the encodings.** A payload is accepted for a string just when it is
the encoding of that string. In particular the word for the end of the string is refused wherever
it occurs after whole codewords, and neither eight or more ones nor bits with a zero among them are
accepted as padding. -/
theorem accepts_iff_encode :
    (∀ input content, Accepts input content ↔ input = encode content) ∧
      (∀ input content rest,
        unpack input = bitsOfContent content ++ (codeword .endOfString ++ rest) →
          (decode {} input).accepted = false) ∧
      (∀ input content n, 8 ≤ n →
        unpack input = bitsOfContent content ++ List.replicate n true →
          ∀ other, ¬Accepts input other) ∧
      ∀ input content tail, (∀ s, ¬codeword s <+: tail) → false ∈ tail →
        unpack input = bitsOfContent content ++ tail → ∀ other, ¬Accepts input other := by
  refine ⟨fun input content ↦ ⟨Accepts.eq_encode, ?_⟩, ?_, ?_, ?_⟩
  · rintro rfl
    obtain ⟨d, hfinal, hdecode⟩ := decode_encode content
    exact ⟨d, hdecode, hfinal⟩
  · intro input content rest h
    exact refused_of_endOfString h
  · intro input content n hn h
    exact not_accepts_of_long_padding hn h
  · intro input content tail htail hzero h
    exact not_accepts_of_zero htail hzero h

/-- The payload of the string 302, four octets of ones, the same payload with eight ones too many,
and a payload whose padding has a zero. -/
theorem accepts_iff_encode_302 :
    Accepts [0x64, 0x02] [51, 48, 50] ∧
      (decode {} [0xff, 0xff, 0xff, 0xff]).accepted = false ∧
      (∀ other, ¬Accepts [0x64, 0x02, 0xff] other) ∧ ∀ other, ¬Accepts [0x06] other := by
  obtain ⟨hiff, hendOfString, hlong, hzero⟩ := accepts_iff_encode
  refine ⟨(hiff _ _).mpr (by decide +kernel), ?_, ?_, ?_⟩
  · exact hendOfString _ [] [true, true] (by decide +kernel)
  · exact hlong _ [51, 48, 50] 8 (by decide) (by decide +kernel)
  · refine hzero _ [48] [true, true, false] ?_ (by decide) (by decide +kernel)
    -- no codeword is so short
    intro s hbegins
    have hshort := hbegins.length_le
    have hlength := (length_codeword s).1
    simp only [List.length_cons, List.length_nil] at hshort
    omega

end Decoder

end FieldCompression.Huffman
