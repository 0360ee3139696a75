import FieldCompression.Proofs.Strings.Readings

/-!
# How far a payload expands

A codeword has 5 to 30 bits, so a payload of so many octets stands for a number of octets that is
bounded from both sides. The lower bound is what lets a length be refused before the payload is
there. The upper bound is what a reader can be made to store.

## Bits held back

The upper bound has to hold where decoding fails, and after every part of a payload. What carries it
is the number of bits held back: an octet of content takes at least five bits away from those that
have come, and the others are held back. So five times the output and what is held back are at most
the bits of the input, `Reads.decode_bound`, whatever becomes of the input in the end.

Unencoded octets are the same thing at eight bits an octet, with nothing held back. `Spent` says it
of a reader: what it has given out, what it holds back and what is missing of the payload are within
the bits of the longest payload that is not refused.
-/

namespace FieldCompression

namespace Huffman

/-! ## Decoding -/

private theorem five_mul_length_le_bitsOfContent (content : Bytes) :
    5 * content.length ≤ (bitsOfContent content).length := by
  induction content with
  | nil => simp
  | cons octet content ih =>
    have := (length_codeword (.octet octet)).1
    simp only [bitsOfContent_cons, List.length_append, List.length_cons]
    omega

variable {d d' : Decoder} {held : List Bool} {half : Nat} {output : Bytes}

/-- Four bits, and those held back, pay for what they complete and for what is then held back. -/
theorem Reads.decodeHalf?_bound (h : Reads d held) (hhalf : half < 16)
    (hdecode : d.decodeHalf? half = some (output, d')) :
    ∃ held', Reads d' held' ∧ 5 * output.length + held'.length ≤ held.length + 4 := by
  have hreads := h.decodeHalf? hhalf
  rcases hbits : readBits? held (bitsOf 4 half) with _ | ⟨output', held'⟩
  · rw [hbits] at hreads
    exact absurd (hdecode.symm.trans hreads) (by simp)
  · rw [hbits] at hreads
    obtain ⟨d'', hdecode', hd'⟩ := hreads
    obtain ⟨rfl, rfl⟩ : output' = output ∧ d'' = d' := by simpa [hdecode'] using hdecode
    refine ⟨held', hd', ?_⟩
    have hlength := congrArg List.length (eq_of_readBits? hbits)
    rw [List.length_append, List.length_append, length_bitsOf] at hlength
    have := five_mul_length_le_bitsOfContent output'
    omega

/-- **Bits pay for octets.** The bits of the input, and those held back, pay for what is decoded and
for what is then held back, also where the input is refused. -/
theorem Reads.decode_bound (h : Reads d held) (input : Bytes) :
    ∃ held', Reads (d.decode input).decoder held' ∧
      5 * (d.decode input).output.length + held'.length ≤ held.length + 8 * input.length := by
  induction input generalizing d held with
  | nil => exact ⟨held, h, by simp [Decoder.decode]⟩
  | cons byte rest ih =>
    have hbyte := byte.toNat_lt
    rw [Decoder.decode, List.length_cons]
    rcases hfirst : d.decodeHalf? (byte.toNat / 16) with _ | ⟨first, d₁⟩
    · exact ⟨held, h, by simp⟩
    obtain ⟨held₁, h₁, hbound₁⟩ := h.decodeHalf?_bound (by omega) hfirst
    rcases hsecond : d₁.decodeHalf? (byte.toNat % 16) with _ | ⟨second, d₂⟩
    · refine ⟨held₁, ?_, ?_⟩
      · simpa only [hsecond] using h₁
      · simp only [hsecond]
        omega
    obtain ⟨held₂, h₂, hbound₂⟩ := h₁.decodeHalf?_bound (by omega) hsecond
    obtain ⟨held₃, h₃, hbound₃⟩ := ih h₂
    refine ⟨held₃, ?_, ?_⟩
    · simpa only [hsecond] using h₃
    · simp only [hsecond, List.length_append]
      omega

/-- A payload decodes to at most eight fifths of its length. -/
theorem Decoder.length_output_le (input : Bytes) :
    5 * (decode {} input).output.length ≤ 8 * input.length := by
  obtain ⟨held, -, hbound⟩ := reads_start.decode_bound input
  rw [List.length_nil] at hbound
  omega

theorem Decoder.Accepts.length_le {input content : Bytes} (h : Accepts input content) :
    8 * input.length ≤ 30 * content.length + 7 := by
  obtain ⟨d, hdecode, hfinal⟩ := h
  have haccepted : (decode {} input).accepted = true := by rw [hdecode]
  have hends : (decode {} input).decoder.isFinal = true := by rw [hdecode, hfinal]
  have hbound := eight_mul_length_le_of_accepted haccepted hends
  rwa [hdecode] at hbound

end Huffman

namespace StringLiteral.Reader

open Huffman (Reads)

/-! ## Reading a payload -/

/-- The fewest bits of a payload that stand for an octet. -/
def leastBits (huffman : Bool) : Nat := if huffman then 5 else 8

variable {r : Reader} {remaining decoded n : Nat} {d : Huffman.Decoder} {held : List Bool}
  {input buffer : Bytes}

private theorem expand_bound (r : Reader) (h : Reads d held) (part : Bytes) :
    ∃ held', Reads (r.expand d part).decoder held' ∧
      leastBits r.huffman * (r.expand d part).output.length + held'.length ≤
        held.length + 8 * part.length := by
  by_cases hhuffman : r.huffman = true
  · simp only [expand, leastBits, hhuffman, if_true]
    exact h.decode_bound part
  · refine ⟨held, ?_, ?_⟩
    · simpa [expand, hhuffman] using h
    · simp [expand, leastBits, hhuffman]
      omega

/-- A reader has given out `n` octets of content, and the rest of the payload cannot make it more
than the longest payload allows. -/
def Spent (r : Reader) (n : Nat) : Prop :=
  match r.phase with
  | .payload remaining _ d =>
    ∃ held, Reads d held ∧
      leastBits r.huffman * n + held.length + 8 * remaining ≤ 8 * r.payloadLimit
  | _ => n = 0

/-- What a call leads to from a reader that has given out `n` octets of content. -/
structure Keeps (n : Nat) (x : Reading) : Prop where
  /-- What has been given out is within the longest payload. -/
  within : leastBits x.state.huffman * (n + x.output.length) ≤ 8 * x.state.payloadLimit
  /-- If more is needed, the reader is one that has given out so much. -/
  spent : x.result = .ok none → x.state.Spent (n + x.output.length)

theorem keeps_of_output_nil {x : Reading} (houtput : x.output = [])
    (hspent : x.result = .ok none → x.state.Spent 0) : Keeps 0 x := by
  refine ⟨?_, ?_⟩
  · simp [houtput]
  · simpa [houtput] using hspent

theorem keeps_readPayload (hd : Reads d held)
    (hspent : leastBits r.huffman * n + held.length + 8 * remaining ≤ 8 * r.payloadLimit)
    (input : Bytes) : Keeps n (r.readPayload remaining decoded d input) := by
  obtain ⟨taken, htaken⟩ : ∃ taken, taken = min remaining input.length := ⟨_, rfl⟩
  obtain ⟨held', hd', hbound⟩ := r.expand_bound hd (input.take taken)
  have hpart : (input.take taken).length = taken := by
    rw [List.length_take]
    omega
  rw [hpart] at hbound
  have hwithin : leastBits r.huffman * (n + (r.expand d (input.take taken)).output.length) +
      held'.length + 8 * (remaining - taken) ≤ 8 * r.payloadLimit := by
    rw [Nat.mul_add]
    omega
  have houtput : leastBits r.huffman * (n + (r.expand d (input.take taken)).output.length) ≤
      8 * r.payloadLimit := by omega
  simp only [readPayload, ← htaken]
  split
  · exact ⟨houtput, fun h ↦ absurd h (by simp)⟩
  split
  · exact ⟨houtput, fun h ↦ absurd h (by simp)⟩
  split
  · exact ⟨houtput, fun _ ↦ ⟨held', hd', hwithin⟩⟩
  split
  · exact ⟨houtput, fun h ↦ absurd h (by simp)⟩
  · exact ⟨houtput, fun h ↦ absurd h (by simp)⟩

/-! ## Reading a string -/

private theorem keeps_readLength (r : Reader) (int : PrefixedInteger.Reader) (input : Bytes) :
    Keeps 0 (r.readLength int input) := by
  rw [readLength]
  rcases hint : (int.read input).result with cause | _ | length
  · exact keeps_of_output_nil rfl fun h ↦ absurd h (by simp)
  · exact keeps_of_output_nil rfl fun _ ↦ rfl
  · by_cases hlimit : r.payloadLimit < length
    · simp only [hlimit, if_true]
      exact keeps_of_output_nil rfl fun h ↦ absurd h (by simp)
    · simp only [hlimit, if_false]
      refine keeps_readPayload Huffman.reads_start ?_ _
      simp only [Nat.mul_zero, List.length_nil, Nat.zero_add]
      omega

private theorem keeps_read (h : r.Spent n) (input : Bytes) : Keeps n (r.read input) := by
  rcases hphase : r.phase with _ | bits | int | ⟨remaining, decoded, d⟩ | _
  all_goals simp only [Spent, hphase] at h
  all_goals simp only [read, hphase]
  · subst h
    exact keeps_of_output_nil rfl fun h ↦ absurd h (by simp)
  · subst h
    cases input with
    | nil => exact keeps_of_output_nil rfl fun _ ↦ by simp only [Spent, hphase]
    | cons byte rest => exact keeps_readLength _ _ _
  · subst h
    exact keeps_readLength _ _ _
  · obtain ⟨held, hd, hspent⟩ := h
    exact keeps_readPayload hd hspent input
  · subst h
    exact keeps_of_output_nil rfl fun h ↦ absurd h (by simp)

theorem Spent.within (h : r.Spent n) : leastBits r.huffman * n ≤ 8 * r.payloadLimit := by
  rw [Spent] at h
  split at h
  · obtain ⟨held, -, hspent⟩ := h
    omega
  · simp [h]

/-- However many chunks are handed to a reader, what they add to the buffer is within the longest
payload. -/
theorem exists_added_readChunks (h : r.Spent n) (buffer : Bytes) (chunks : List Bytes) :
    let o := r.readChunks buffer chunks
    ∃ added, o.output = buffer ++ added ∧
      leastBits o.state.huffman * (n + added.length) ≤ 8 * o.state.payloadLimit := by
  induction chunks generalizing r n buffer with
  | nil => exact ⟨[], by simp [readChunks], by simpa [readChunks] using h.within⟩
  | cons chunk chunks ih =>
    have hkeeps := keeps_read h chunk
    rw [readChunks]
    rcases hresult : (r.read chunk).result with cause | _ | _
    · exact ⟨_, rfl, hkeeps.within⟩
    · obtain ⟨added, houtput, hwithin⟩ :=
        ih (hkeeps.spent hresult) (buffer ++ (r.read chunk).output)
      refine ⟨(r.read chunk).output ++ added, ?_, ?_⟩
      · rw [← List.append_assoc]
        exact houtput
      · rwa [List.length_append, ← Nat.add_assoc]
    · exact ⟨_, rfl, hkeeps.within⟩

theorem limit_readChunks (r : Reader) (buffer : Bytes) (chunks : List Bytes) :
    (r.readChunks buffer chunks).state.limit = r.limit := by
  induction chunks generalizing r buffer with
  | nil => rfl
  | cons chunk chunks ih =>
    rw [readChunks]
    rcases (r.read chunk).result with cause | _ | _
    · exact limit_read r chunk
    · exact (ih _ _).trans (limit_read r chunk)
    · exact limit_read r chunk

/-! ## The result -/

/-- **Expansion.** Octets decode to at most eight fifths as many, also where decoding fails. A
complete payload has at most thirty bits for each octet of its content and seven more, so one that
is more than four times as long as a limit has a content that exceeds the limit. However a string is
cut into chunks, and whatever becomes of it, a reader adds no more than its limit to a buffer if the
payload is unencoded, and at most 32 fifths of the limit if it is Huffman-coded. -/
theorem expansion_bounded :
    (∀ input, 5 * (Huffman.Decoder.decode {} input).output.length ≤ 8 * input.length) ∧
      (∀ input content, Huffman.Decoder.Accepts input content →
        8 * input.length ≤ 30 * content.length + 7 ∧
          ∀ limit, maxExpansion * limit < input.length → limit < content.length) ∧
      ∀ bits limit buffer chunks,
        let o := ((start bits).withLimit limit).readChunks buffer chunks
        ∃ added, o.output = buffer ++ added ∧
          (o.state.huffman = false → added.length ≤ limit) ∧
          (o.state.huffman = true → 5 * added.length ≤ 32 * limit) := by
  refine ⟨Huffman.Decoder.length_output_le, ?_, ?_⟩
  · intro input content h
    have hbits := h.length_le
    refine ⟨hbits, ?_⟩
    intro limit hlong
    rw [maxExpansion] at hlong
    omega
  · intro bits limit buffer chunks o
    have hstart : ((start bits).withLimit limit).Spent 0 := rfl
    obtain ⟨added, houtput, hwithin⟩ := exists_added_readChunks hstart buffer chunks
    have hlimit : o.state.limit = limit := limit_readChunks _ buffer chunks
    rw [Nat.zero_add, leastBits, payloadLimit, hlimit, maxExpansion] at hwithin
    refine ⟨added, houtput, ?_, ?_⟩
    · intro hraw
      rw [hraw, if_neg Bool.false_ne_true, if_neg Bool.false_ne_true] at hwithin
      omega
    · intro hcoded
      rw [hcoded, if_pos rfl, if_pos rfl] at hwithin
      omega

/-- The longest codeword of an octet, padded; and under a limit of two octets, the longest payload
that is not refused, made of the shortest codewords. -/
theorem expansion_bounded_zeros :
    let o := ((start 7).withLimit 2).readChunks [33] [[0x88], [0, 0, 0, 0, 0, 0, 0, 0]]
    (8 * 4 ≤ 30 * 1 + 7 ∧ 0 < 1) ∧ o.result = .error .headerListTooLarge ∧
      ∃ added, o.output = [33] ++ added ∧ added.length = 12 ∧ 5 * added.length ≤ 32 * 2 := by
  intro o
  obtain ⟨-, hcomplete, hreader⟩ := expansion_bounded
  obtain ⟨hbits, hlong⟩ := hcomplete [0xff, 0xff, 0xff, 0xf3] [10] ⟨_, rfl, by decide⟩
  obtain ⟨added, houtput, -, hcoded⟩ := hreader 7 2 [33] [[0x88], [0, 0, 0, 0, 0, 0, 0, 0]]
  refine ⟨⟨hbits, hlong 0 (by decide)⟩, rfl, added, houtput, ?_, hcoded (by decide)⟩
  have hlength : o.output.length = 13 := by decide
  rw [houtput, List.length_append, List.length_singleton] at hlength
  omega

end StringLiteral.Reader

end FieldCompression
