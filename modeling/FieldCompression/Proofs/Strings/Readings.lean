import FieldCompression.Proofs.Fragmentation.Failures
import FieldCompression.Proofs.Integers.Readings

/-!
# Which strings are read

A string is a flag, a length and a payload, and it is the octets alone that say which. Where they
are cut makes a difference in one respect: a payload that is refused for its code in one call may be
refused for its size in several.
-/

namespace FieldCompression

/-! ## Strings given chunks

A caller that has a string in chunks hands them to a reader one after the other until the string is
complete or the reader fails, and it collects what they decode to in a buffer. `readChunks` is this
loop. What the buffer held before stays in front and makes no difference.

### How far the cuts do not matter

Reading a length does not depend on the cuts at all, and neither does a payload that is accepted. So
the loop comes to what one call on all the octets comes to, down to the octets that it leaves,
unless that call fails over the payload (`readChunks_eq`). Where it does, the loop fails as well,
and `sameCause_readChunks` says for what.

A length that is refused is told from a payload that is refused by the note that it leaves. -/

namespace StringLiteral.Reader

/-- Hands chunks to a reader until its string is complete or it fails. What they decode to is added
to a buffer. What was not consumed is what the calls left unread, and the chunks after the last
call. -/
def readChunks (r : Reader) (buffer : Bytes) : List Bytes → Reading
  | [] => { result := .ok none, state := r, rest := [], output := buffer }
  | chunk :: chunks =>
    let x := r.read chunk
    match x.result with
    | .ok none =>
      let more := x.state.readChunks (buffer ++ x.output) chunks
      { more with rest := x.rest ++ more.rest, notes := x.notes ++ more.notes }
    | _ => { x with rest := x.rest ++ chunks.flatten, output := buffer ++ x.output }

variable {r : Reader} {a b input buffer chunk : Bytes} {chunks : List Bytes}

/-! ### What is noted -/

theorem notes_readPayload (r : Reader) (remaining decoded : Nat) (decoder : Huffman.Decoder)
    (input : Bytes) : (r.readPayload remaining decoded decoder input).notes = [] := by
  simp only [readPayload]
  (repeat' split) <;> rfl

private theorem notes_readLength_of_ok {int : PrefixedInteger.Reader} {item : Option Unit}
    (h : (r.readLength int input).result = .ok item) : (r.readLength int input).notes = [] := by
  simp only [readLength] at h ⊢
  rcases hint : (int.read input).result with cause | _ | length
  · rfl
  · rfl
  · simp only [hint] at h ⊢
    by_cases hlimit : r.payloadLimit < length
    · rw [if_pos hlimit] at h
      exact absurd h (by simp)
    · rw [if_neg hlimit]
      exact notes_readPayload _ _ _ _ _

private theorem notes_of_ok {item : Option Unit} (h : (r.read input).result = .ok item) :
    (r.read input).notes = [] := by
  rcases hphase : r.phase with _ | bits | int | ⟨remaining, decoded, decoder⟩ | _
  · simp [read, hphase]
  · cases input with
    | nil => simp [read, hphase]
    | cons byte rest =>
      simp only [read, hphase] at h ⊢
      exact notes_readLength_of_ok h
  · simp only [read, hphase] at h ⊢
    exact notes_readLength_of_ok h
  · simp only [read, hphase]
    exact notes_readPayload _ _ _ _ _
  · simp [read, hphase]

/-! ### Two calls -/

/-- A call that did not fail over the payload: it did not fail, or it refused the length. -/
def Clear (x : Reading) : Prop := Failed x.result → x.notes ≠ []

theorem clear_of_ok {x : Reading} {item : Option Unit} (h : x.result = .ok item) : Clear x := by
  intro hfailed
  rw [h] at hfailed
  exact absurd hfailed (not_failed_ok item)

/-- Unless it fails over the payload, a call on all octets does what two calls do. -/
theorem read_append_of_clear (h : Clear (r.read (a ++ b))) :
    r.read (a ++ b) = (r.read a).resume b := by
  rcases r.read_append_or_payload a b with heq | ⟨r', _, _, _, _, hwhole, -⟩
  · exact heq
  · refine (r.read_append a b).resolve_right ?_
    rintro ⟨hfailed, -⟩
    refine h hfailed ?_
    rw [hwhole]
    exact notes_readPayload _ _ _ _ _

theorem read_nil_of_pending (h : (r.read chunk).result = .ok none) :
    (r.read chunk).state.read [] =
      { result := .ok none, state := (r.read chunk).state, rest := [] } := by
  have heq : r.read chunk = (r.read chunk).resume [] := by
    have hclear : Clear (r.read (chunk ++ [])) := clear_of_ok (by rw [List.append_nil, h])
    rw [← read_append_of_clear hclear, List.append_nil]
  have hrest := ((r.read chunk).state.tidy_read []).pending
  simp only [Reading.resume, h] at heq
  generalize r.read chunk = x at h heq hrest ⊢
  generalize x.state.read [] = y at heq hrest ⊢
  obtain ⟨⟨_, _, rest⟩, _, _⟩ := y
  obtain ⟨⟨result, _, _⟩, _, _⟩ := x
  simp only [Reading.mk.injEq, Outcome.mk.injEq, List.self_eq_append_right] at heq
  obtain ⟨⟨rfl, rfl, -⟩, rfl, rfl⟩ := heq
  obtain rfl : rest = [] := hrest h
  obtain rfl : result = .ok none := h
  rfl

/-! ### The loop -/

section Loop

variable (hnil : r.read [] = { result := .ok none, state := r, rest := [] })

include hnil

/-- **Chunks.** However the octets are cut, reading them comes to the same, unless it fails over the
payload. -/
theorem readChunks_eq (buffer : Bytes) (h : Clear (r.read chunks.flatten)) :
    r.readChunks buffer chunks =
      { r.read chunks.flatten with output := buffer ++ (r.read chunks.flatten).output } := by
  induction chunks generalizing r buffer with
  | nil => rw [readChunks, List.flatten_nil, hnil, List.append_nil]
  | cons chunk chunks ih =>
    rw [List.flatten_cons] at h ⊢
    have hboth := read_append_of_clear h
    rw [readChunks, hboth]
    rcases hresult : (r.read chunk).result with cause | _ | _
    · simp only [Reading.resume, hresult]
    · simp only [Reading.resume, hresult] at hboth ⊢
      have hclear : Clear ((r.read chunk).state.read chunks.flatten) := by
        rw [hboth] at h
        simpa only [Clear, notes_of_ok hresult, List.nil_append] using h
      -- nothing of this chunk is left to be read before the next
      rw [ih (read_nil_of_pending hresult) _ hclear, (r.tidy_read chunk).pending hresult]
      simp only [List.nil_append, List.append_assoc]
    · simp only [Reading.resume, hresult]

/-- **Causes.** Where one call fails over the payload, the loop fails for the same cause, or it
finds the content too long before the place at which it is wrongly coded. -/
theorem sameCause_readChunks (buffer : Bytes) (chunks : List Bytes) :
    SameCause (r.read chunks.flatten).result (r.readChunks buffer chunks).result
      (r.readChunks buffer chunks).result := by
  induction chunks generalizing r buffer with
  | nil =>
    rw [readChunks, List.flatten_nil, hnil]
    exact .inl rfl
  | cons chunk chunks ih =>
    have hsame := r.sameCause_read_append chunk chunks.flatten
    rw [List.flatten_cons, readChunks]
    rcases hresult : (r.read chunk).result with cause | _ | _
    · simpa only [Reading.resume, hresult] using hsame
    · simp only [Reading.resume, hresult] at hsame ⊢
      rw [hsame.eq_of_ok]
      exact ih (read_nil_of_pending hresult) _
    · simpa only [Reading.resume, hresult] using hsame

end Loop

end StringLiteral.Reader

/-! ## The octets of a string

`Announces` is said of the flag and the length, `Holds` of a whole string with what follows it, and
`Lacks` of an input that ends too early, with nothing wrong so far. What the payload means is said
by codewords (`Huffman.Begins`, `Huffman.encode`) and not by the decoder.

The limit is on the content, and a reader applies it twice. It refuses a length from which it can
tell that the content would be too long, and it counts what it decodes. That the first test refuses
nothing that the second would let pass is the bound on codewords: a payload is at most four times as
long as its content. So whether a string is read depends on its content only. -/

/-! ### The beginning of a payload -/

namespace Huffman

/-- The octets are the codewords of a string, and after them there is no whole codeword. -/
def Begins (part content : Bytes) : Prop :=
  ∃ tail, unpack part = bitsOfContent content ++ tail ∧ ∀ s, ¬codeword s <+: tail

/-- What is held back never holds a whole codeword. -/
theorem no_codeword_of_readBits? {held held' bits : List Bool} {output : Bytes}
    (hheld : ∀ s, ¬codeword s <+: held) (h : readBits? held bits = some (output, held'))
    (s : Symbol) : ¬codeword s <+: held' := by
  have hnil (s : Symbol) : ¬codeword s <+: [] := by
    intro hbegins
    exact codeword_ne_nil s (List.prefix_nil.mp hbegins)
  induction bits generalizing held output with
  | nil =>
    obtain ⟨-, rfl⟩ : [] = output ∧ held = held' := by simpa using h
    exact hheld s
  | cons bit bits ih =>
    rw [readBits?_cons] at h
    split at h
    · obtain ⟨⟨_, _⟩, hread, ⟨⟩⟩ := Option.map_eq_some_iff.mp h
      exact ih hnil hread
    · exact absurd h (by simp)
    · rename_i hnone
      refine ih ?_ h
      intro s hbegins
      rcases List.prefix_concat_iff.mp hbegins with hword | hbegins
      · rw [symbolOf?_eq_some_iff.mpr hword.symm] at hnone
        exact absurd hnone (by simp)
      · exact hheld s hbegins

private theorem begins_of_accepted {part : Bytes} (h : (Decoder.decode {} part).accepted = true) :
    Begins part (Decoder.decode {} part).output := by
  have hdecode := reads_start.decode part
  rcases hread : readBits? [] (unpack part) with _ | ⟨output, tail⟩
  · rw [hread] at hdecode
    exact absurd (h.symm.trans hdecode) (by simp)
  · rw [hread] at hdecode
    obtain ⟨d, hd, -⟩ := hdecode
    rw [hd]
    refine ⟨tail, eq_of_readBits? hread, no_codeword_of_readBits? ?_ hread⟩
    intro s hbegins
    exact codeword_ne_nil s (List.prefix_nil.mp hbegins)

end Huffman

namespace StringLiteral

/-- What the octets that there are of a payload decode to. -/
inductive Begins : Bool → Bytes → Bytes → Prop
  /-- Octets stand for themselves. -/
  | raw (part : Bytes) : Begins false part part
  /-- Octets stand for the codewords in them. -/
  | coded {part content : Bytes} (h : Huffman.Begins part content) : Begins true part content

/-! ### The front of an input -/

/-- The greatest length of a payload whose content may be within a limit. -/
def greatestPayload (huffman : Bool) (limit : Nat) : Nat :=
  if huffman then limit * maxExpansion else limit

theorem length_payload_le_greatestPayload {s : StringLiteral} {limit : Nat}
    (hlimit : s.content.length ≤ limit) : s.payload.length ≤ greatestPayload s.huffman limit := by
  refine Nat.le_trans s.length_payload_le ?_
  rw [greatestPayload]
  split
  · exact Nat.mul_le_mul_right _ hlimit
  · exact hlimit

/-- The input begins with the flag and the length of a string, and `rest` is what follows. -/
inductive Announces (bits : Nat) : Bytes → Bool → Nat → Bytes → Prop
  /-- The flag is the bit above the length. -/
  | intro {first : UInt8} {tail rest : Bytes} {length : Nat}
    (h : PrefixedInteger.Holds bits (first :: tail) length rest) :
    Announces bits (first :: tail) (flagAt first bits) length rest

/-- The input begins with a string, and `rest` is what follows. -/
def Holds (bits : Nat) (input : Bytes) (s : StringLiteral) (rest : Bytes) : Prop :=
  Announces bits input s.huffman s.payload.length (s.payload ++ rest)

/-- The input ends before a string does, of which nothing is wrong so far. -/
inductive Lacks (limit bits : Nat) (input : Bytes) : Prop
  /-- It ends before the length does, or before it begins. -/
  | length (h : PrefixedInteger.Lacks bits input) : Lacks limit bits input
  /-- It ends before the payload does, and neither the length nor the content exceeds the limit. -/
  | payload {huffman : Bool} {length : Nat} {part content : Bytes}
    (hlength : Announces bits input huffman length part)
    (hallowed : length ≤ greatestPayload huffman limit) (hpart : part.length < length)
    (hbegins : Begins huffman part content) (hfits : content.length ≤ limit) :
    Lacks limit bits input

/-- **Three cases.** A length is announced, or it overflows, or it is not complete. -/
theorem announces_or_overflows_or_lacks {bits : Nat} (hbits : bits ≤ 8) (input : Bytes) :
    (∃ huffman length rest, Announces bits input huffman length rest) ∨
      (∃ rest, PrefixedInteger.Overflows bits input rest) ∨ PrefixedInteger.Lacks bits input := by
  rcases PrefixedInteger.holds_or_overflows_or_lacks hbits input with ⟨length, rest, h⟩ | h
  · obtain ⟨first, tail, rfl⟩ : ∃ first tail, input = first :: tail := by
      cases h <;> exact ⟨_, _, rfl⟩
    exact .inl ⟨_, _, _, .intro h⟩
  · exact .inr h

namespace Reader

variable {r : Reader} {bits length : Nat} {huffman : Bool} {input part payload content rest : Bytes}
  {s : StringLiteral}

/-! ### Reading the payload -/

private theorem expand_of_begins (h : Begins r.huffman part content) :
    ∃ d : Huffman.Decoder, r.expand {} part = ⟨content, d, true⟩ := by
  generalize hhuffman : r.huffman = huffman at h
  cases h with
  | raw part =>
    refine ⟨{}, ?_⟩
    rw [expand, hhuffman]
    rfl
  | coded h =>
    obtain ⟨tail, hbits, htail⟩ := h
    obtain ⟨d, hdecode, -⟩ := Huffman.decode_of_unpack hbits htail
    refine ⟨d, ?_⟩
    rw [expand, hhuffman]
    exact hdecode

private theorem begins_of_accepted (h : (r.expand {} part).accepted = true) :
    Begins r.huffman part (r.expand {} part).output := by
  by_cases hhuffman : r.huffman = true
  · simp only [expand, hhuffman, if_true] at h ⊢
    exact .coded (Huffman.begins_of_accepted h)
  · rw [Bool.not_eq_true] at hhuffman
    simp only [expand, hhuffman, Bool.false_eq_true, if_false]
    exact .raw part

private theorem length_output_readPayload_le {remaining : Nat} {item : Option Unit}
    (h : (r.readPayload remaining 0 {} input).result = .ok item) :
    (r.readPayload remaining 0 {} input).output.length ≤ r.limit := by
  have houtput : (r.readPayload remaining 0 {} input).output =
      (r.expand {} (input.take (min remaining input.length))).output := by
    simp only [readPayload]
    (repeat' split) <;> rfl
  refine Nat.not_lt.mp ?_
  intro hlt
  refine absurd (failed_readPayload_of_limit_lt ?_) (h ▸ not_failed_ok item)
  rwa [Nat.zero_add, ← houtput]

/-- More octets of a payload are wanted just if there are too few of them and nothing is wrong with
those that there are. -/
theorem result_readPayload_eq_none_iff :
    (r.readPayload length 0 {} part).result = .ok none ↔
      part.length < length ∧ ∃ content, Begins r.huffman part content ∧
        content.length ≤ r.limit := by
  constructor
  · intro h
    have hnot : ¬Failed (r.readPayload length 0 {} part).result := by
      rw [h]
      exact not_failed_ok none
    have hshort : part.length < length := by
      refine Nat.not_le.mp ?_
      intro hlong
      simp only [readPayload, Nat.min_eq_left hlong, Nat.lt_irrefl, if_false] at h
      (repeat' split at h) <;> exact absurd h (by simp)
    have htake : part.take (min length part.length) = part := by
      rw [Nat.min_eq_right (Nat.le_of_lt hshort), List.take_length]
    have haccepted : (r.expand {} part).accepted = true := by
      rw [← Bool.not_eq_false]
      intro hrefused
      exact hnot (failed_readPayload_of_refused (by rwa [htake]))
    have hfits : (r.expand {} part).output.length ≤ r.limit := by
      refine Nat.not_lt.mp ?_
      intro hlt
      exact hnot (failed_readPayload_of_limit_lt (by rwa [htake, Nat.zero_add]))
    exact ⟨hshort, _, begins_of_accepted haccepted, hfits⟩
  · rintro ⟨hshort, content, hbegins, hfits⟩
    obtain ⟨d, hexpand⟩ := expand_of_begins hbegins
    rw [readPayload_of_length_lt hshort (by rw [hexpand])]
    rw [hexpand, Nat.zero_add]
    exact Nat.not_lt.mpr hfits

private theorem result_readPayload_of_no_encoding (hhuffman : r.huffman = true)
    (hnone : ∀ content, payload ≠ Huffman.encode content) (rest : Bytes) :
    (r.readPayload payload.length 0 {} (payload ++ rest)).result = .error .invalidHuffmanEncoding ∨
      (r.readPayload payload.length 0 {} (payload ++ rest)).result =
        .error .headerListTooLarge := by
  simp only [readPayload, min_length_append, List.take_left, Nat.lt_irrefl, if_false]
  split
  · exact .inl rfl
  rename_i haccepted
  split
  · exact .inr rfl
  split
  · exact .inl rfl
  · -- all that there is was accepted, so it was an encoding
    rename_i hfinal
    refine absurd ?_ (hnone (Huffman.Decoder.decode {} payload).output)
    simp only [expand, hhuffman, if_true] at haccepted hfinal
    have hall : (Huffman.Decoder.decode {} payload).accepted = true := by simpa using haccepted
    refine Huffman.Decoder.Accepts.eq_encode ⟨_, ?_, by simpa using hfinal⟩
    rw [← hall]

/-! ### Reading the string -/

section Flag

variable (hphase : r.phase = .flag bits)

include hphase

theorem read_of_announces (h : Announces bits input huffman length rest) :
    r.read input =
      if greatestPayload huffman r.limit < length then
        { result := .error .headerListTooLarge
          state := { r with phase := .length (.done length), huffman := huffman }
          rest, notes := [.stringTooLong length r.limit] }
      else { r with huffman := huffman }.readPayload length 0 {} rest := by
  cases h with
  | intro h =>
    simp only [read, hphase, readLength, PrefixedInteger.Reader.read_of_holds h]
    rfl

/-- A string is refused where its length ends, if that is enough to tell that it is too long. -/
theorem read_of_exceeds (h : Announces bits input huffman length rest)
    (hexceeds : greatestPayload huffman r.limit < length) :
    r.read input =
      { result := .error .headerListTooLarge
        state := { r with phase := .length (.done length), huffman := huffman }
        rest, notes := [.stringTooLong length r.limit] } := by
  rw [read_of_announces hphase h, if_pos hexceeds]

theorem result_read_of_overflows (h : PrefixedInteger.Overflows bits input rest) :
    (r.read input).result = .error .integerOverflow := by
  obtain ⟨value, shift, hint⟩ := PrefixedInteger.Reader.read_of_overflows h
  cases h with
  | long => simp only [read, hphase, readLength, hint]

theorem result_read_of_lacks (h : PrefixedInteger.Lacks bits input) :
    (r.read input).result = .ok none := by
  obtain ⟨int, hint⟩ := PrefixedInteger.Reader.read_of_lacks h
  cases h with
  | nothing => simp only [read, hphase]
  | digits => simp only [read, hphase, readLength, hint]

theorem read_of_holds (h : Holds bits input s rest) (hlimit : s.content.length ≤ r.limit) :
    r.read input =
      { result := .ok (some ()), state := { r with phase := .done, huffman := s.huffman }, rest
        output := s.content } := by
  have hallowed := length_payload_le_greatestPayload hlimit
  rw [read_of_announces hphase h, if_neg (Nat.not_lt.mpr hallowed)]
  exact readPayload_payload (r := { r with huffman := s.huffman }) s rfl hlimit rest

private theorem result_read_of_holds (h : Holds bits input s rest)
    (hlimit : r.limit < s.content.length) : (r.read input).result = .error .headerListTooLarge := by
  rw [read_of_announces hphase h]
  split
  · rfl
  · obtain ⟨d, -, hexpand⟩ := expand_payload (r := { r with huffman := s.huffman }) (s := s) rfl
    refine result_readPayload_of_limit_lt ?_ ?_
    · rw [min_length_append, List.take_left, hexpand]
    · rw [min_length_append, List.take_left, hexpand, Nat.zero_add]
      exact hlimit

theorem holds_of_read (hbits : bits ≤ 8) (h : (r.read input).result = .ok (some ())) :
    Holds bits input ⟨(r.read input).state.huffman, (r.read input).output⟩ (r.read input).rest ∧
      (r.read input).output.length ≤ r.limit := by
  rcases announces_or_overflows_or_lacks hbits input with
    ⟨huffman, length, rest, hlength⟩ | ⟨rest, hlength⟩ | hlength
  · rw [read_of_announces hphase hlength] at h ⊢
    split at h
    · exact absurd h (by simp)
    rename_i hallowed
    rw [if_neg hallowed]
    obtain ⟨hwhole, haccepted, hfinal, houtput⟩ := readPayload_of_done h
    constructor
    · rw [Holds, huffman_readPayload, houtput, ← eq_payload_of_accepted haccepted hfinal,
        rest_readPayload, Nat.min_eq_left hwhole, List.take_append_drop, List.length_take,
        Nat.min_eq_left hwhole]
      exact hlength
    · exact length_output_readPayload_le h
  · rw [result_read_of_overflows hphase hlength] at h
    exact absurd h (by simp)
  · rw [result_read_of_lacks hphase hlength] at h
    exact absurd h (by simp)

theorem result_read_eq_none_iff (hbits : bits ≤ 8) :
    (r.read input).result = .ok none ↔ Lacks r.limit bits input := by
  constructor
  · intro h
    rcases announces_or_overflows_or_lacks hbits input with
      ⟨huffman, length, rest, hlength⟩ | ⟨rest, hlength⟩ | hlength
    · rw [read_of_announces hphase hlength] at h
      split at h
      · exact absurd h (by simp)
      rename_i hallowed
      obtain ⟨hshort, content, hbegins, hfits⟩ := result_readPayload_eq_none_iff.mp h
      exact .payload hlength (Nat.not_lt.mp hallowed) hshort hbegins hfits
    · rw [result_read_of_overflows hphase hlength] at h
      exact absurd h (by simp)
    · exact .length hlength
  · intro h
    cases h with
    | length hlength => exact result_read_of_lacks hphase hlength
    | payload hlength hallowed hpart hbegins hfits =>
      rw [read_of_announces hphase hlength, if_neg (Nat.not_lt.mpr hallowed)]
      exact result_readPayload_eq_none_iff.mpr ⟨hpart, _, hbegins, hfits⟩

end Flag

/-! ### Reading chunks -/

section Chunks

variable (hphase : r.phase = .flag bits) (buffer : Bytes) {chunks : List Bytes}

include hphase

theorem read_nil_of_flag : r.read [] = { result := .ok none, state := r, rest := [] } := by
  simp only [read, hphase]

theorem readChunks_of_holds (h : Holds bits chunks.flatten s rest)
    (hlimit : s.content.length ≤ r.limit) :
    r.readChunks buffer chunks =
      { result := .ok (some ()), state := { r with phase := .done, huffman := s.huffman }, rest
        output := buffer ++ s.content } := by
  have hread := read_of_holds hphase h hlimit
  have hclear : Clear (r.read chunks.flatten) := clear_of_ok (by rw [hread])
  rw [readChunks_eq (read_nil_of_flag hphase) buffer hclear, hread]

theorem holds_of_readChunks (hbits : bits ≤ 8)
    (h : (r.readChunks buffer chunks).result = .ok (some ()))
    (houtput : (r.readChunks buffer chunks).output = buffer ++ content) :
    Holds bits chunks.flatten ⟨(r.readChunks buffer chunks).state.huffman, content⟩
      (r.readChunks buffer chunks).rest ∧ content.length ≤ r.limit := by
  have hsame := sameCause_readChunks (read_nil_of_flag hphase) buffer chunks
  rw [h] at hsame
  have hread : (r.read chunks.flatten).result = .ok (some ()) := hsame.eq_of_ok
  rw [readChunks_eq (read_nil_of_flag hphase) buffer (clear_of_ok hread)] at houtput ⊢
  rw [← List.append_cancel_left houtput]
  exact holds_of_read hphase hbits hread

private theorem result_readChunks_of_holds (h : Holds bits chunks.flatten s rest)
    (hlimit : r.limit < s.content.length) :
    (r.readChunks buffer chunks).result = .error .headerListTooLarge := by
  have hsame := sameCause_readChunks (read_nil_of_flag hphase) buffer chunks
  rw [result_read_of_holds hphase h hlimit] at hsame
  rcases hsame with heq | ⟨heq, -⟩
  · exact heq.symm
  · exact absurd heq (by simp)

theorem readChunks_of_exceeds (h : Announces bits chunks.flatten huffman length rest)
    (hexceeds : greatestPayload huffman r.limit < length) :
    (r.readChunks buffer chunks).result = .error .headerListTooLarge ∧
      (r.readChunks buffer chunks).output = buffer ∧
      (r.readChunks buffer chunks).rest = rest := by
  have hread := read_of_exceeds hphase h hexceeds
  have hclear : Clear (r.read chunks.flatten) := by
    intro _
    rw [hread]
    exact List.cons_ne_nil _ _
  rw [readChunks_eq (read_nil_of_flag hphase) buffer hclear, hread]
  exact ⟨rfl, List.append_nil _, rfl⟩

private theorem result_readChunks_of_no_encoding
    (h : Announces bits chunks.flatten true payload.length (payload ++ rest))
    (hnone : ∀ content, payload ≠ Huffman.encode content) :
    (r.readChunks buffer chunks).result = .error .invalidHuffmanEncoding ∨
      (r.readChunks buffer chunks).result = .error .headerListTooLarge := by
  rcases sameCause_readChunks (read_nil_of_flag hphase) buffer chunks with heq | ⟨-, hlimit⟩
  · rw [← heq, read_of_announces hphase h]
    split
    · exact .inr rfl
    · exact result_readPayload_of_no_encoding rfl hnone rest
  · exact .inr hlimit

end Chunks

/-! ### The result -/

/-- **Strings read exactly.** However the octets are cut into chunks, and whatever the buffer held,
a string is read just if they begin with one whose content is within the limit. Then the content is
added to the buffer, the flag is known, and what follows is left. A string whose content exceeds the
limit is refused for that; if it is unencoded, already where its length ends, with nothing added to
the buffer. A payload that encodes nothing is refused for that or for its size. -/
theorem string_exact (hbits : bits ≤ 7) (limit : Nat) (buffer : Bytes) (chunks : List Bytes) :
    let o := ((start bits).withLimit limit).readChunks buffer chunks
    (∀ s rest, o.result = .ok (some ()) ∧ o.state.huffman = s.huffman ∧
        o.output = buffer ++ s.content ∧ o.rest = rest ↔
      Holds bits chunks.flatten s rest ∧ s.content.length ≤ limit) ∧
      (∀ s rest, Holds bits chunks.flatten s rest → limit < s.content.length →
        o.result = .error .headerListTooLarge) ∧
      (∀ length rest, Announces bits chunks.flatten false length rest → limit < length →
        o.result = .error .headerListTooLarge ∧ o.output = buffer ∧ o.rest = rest) ∧
      ∀ payload rest, Announces bits chunks.flatten true payload.length (payload ++ rest) →
        (∀ content, payload ≠ Huffman.encode content) →
        o.result = .error .invalidHuffmanEncoding ∨ o.result = .error .headerListTooLarge := by
  intro o
  have hphase : ((start bits).withLimit limit).phase = .flag bits := rfl
  refine ⟨?_, ?_, ?_, ?_⟩
  · intro s rest
    constructor
    · rintro ⟨hresult, hflag, houtput, rfl⟩
      have hholds := holds_of_readChunks hphase buffer (Nat.le_succ_of_le hbits) hresult houtput
      rwa [hflag] at hholds
    · rintro ⟨hholds, hfits⟩
      have hread : o = _ := readChunks_of_holds hphase buffer hholds hfits
      rw [hread]
      exact ⟨rfl, rfl, rfl, rfl⟩
  · intro s rest
    exact result_readChunks_of_holds hphase buffer
  · intro length rest
    exact readChunks_of_exceeds hphase buffer
  · intro payload rest
    exact result_readChunks_of_no_encoding hphase buffer

/-- Two octets in two chunks, under a limit of two octets and of one, and an octet of ones, which
are no codeword and too many to be padding. -/
theorem string_exact_two_octets :
    let chunks : List Bytes := [[2, 97], [], [98, 99]]
    let o := ((start 7).withLimit 2).readChunks [33] chunks
    let refused := ((start 7).withLimit 1).readChunks [33] chunks
    let invalid := ((start 7).withLimit 2).readChunks [33] [[129], [255]]
    (o.result = .ok (some ()) ∧ o.state.huffman = false ∧ o.output = [33, 97, 98] ∧ o.rest = [99]) ∧
      (refused.result = .error .headerListTooLarge ∧ refused.output = [33] ∧
        refused.rest = [97, 98, 99]) ∧
      (invalid.result = .error .invalidHuffmanEncoding ∨
        invalid.result = .error .headerListTooLarge) := by
  intro chunks o refused invalid
  have hlength : Announces 7 chunks.flatten false 2 [97, 98, 99] := .intro (.short (by decide))
  have hones : Announces 7 [129, 255] true 1 [255] := .intro (.short (by decide))
  have hnone (content : Bytes) : [255] ≠ Huffman.encode content := by
    intro h
    obtain ⟨d, hfinal, hdecode⟩ := Huffman.Decoder.decode_encode content
    rw [← h] at hdecode
    have hopen : (Huffman.Decoder.decode {} [255]).decoder.isFinal = false := by decide
    rw [hdecode, hfinal] at hopen
    exact absurd hopen (by decide)
  refine ⟨?_, ?_, ?_⟩
  · exact ((string_exact (by decide) 2 [33] chunks).1 ⟨false, [97, 98]⟩ [99]).mpr
      ⟨hlength, by decide⟩
  · exact (string_exact (by decide) 1 [33] chunks).2.2.1 2 _ hlength (by decide)
  · exact (string_exact (by decide) 2 [33] [[129], [255]]).2.2.2 [255] [] hones hnone

end Reader

end StringLiteral

end FieldCompression
