import FieldCompression.Proofs.FieldLine.Stages
import FieldCompression.Proofs.Huffman.Encodings

/-!
# Strings and lines under two limits

Where the greater limit lets a call succeed, the smaller one does the same or refuses what is read
for its size. And it does not refuse too early.
-/

namespace FieldCompression

/-! ## Strings

Two readers that differ only in their limits read the same octets. As long as the one with the
greater limit does not fail, the other one does exactly the same, or it refuses the string for its
length. The converse is about whole strings: a string whose content is within the smaller limit is
not refused, neither for the length of its payload nor for what has been decoded of it. For a
Huffman-coded payload that is so because it is at most four times as long as its content. -/

namespace StringLiteral

/-- The same reading, with the reader it leaves under another limit. -/
def Reading.withLimit (s : Reading) (limit : Nat) : Reading :=
  { s with state := s.state.withLimit limit }

/-- A call either refused the string for its length, or did the same as another call under another
limit. -/
def Reading.RefusedOr (limit : Nat) (s t : Reading) : Prop :=
  s.result = .error .headerListTooLarge ∨ s = t.withLimit limit

namespace Reader

variable {r : Reader} {limit : Nat}

@[simp] theorem expand_withLimit (r : Reader) (limit : Nat) (d : Huffman.Decoder) (part : Bytes) :
    (r.withLimit limit).expand d part = r.expand d part := rfl

@[simp] theorem limit_withLimit (r : Reader) (limit : Nat) :
    (r.withLimit limit).limit = limit := rfl

/-! ### The smaller limit refuses or does the same -/

theorem readPayload_withLimit {remaining decoded : Nat} {d : Huffman.Decoder} {input : Bytes}
    (h : ¬Failed (r.readPayload remaining decoded d input).result) :
    ((r.withLimit limit).readPayload remaining decoded d input).RefusedOr limit
      (r.readPayload remaining decoded d input) := by
  have haccepted : (r.expand d (input.take (min remaining input.length))).accepted = true := by
    rw [← Bool.not_eq_false]
    intro hrefused
    exact h (failed_readPayload_of_refused hrefused)
  have hfits : ¬r.limit < decoded +
      (r.expand d (input.take (min remaining input.length))).output.length := by
    intro hlt
    exact h (failed_readPayload_of_limit_lt hlt)
  -- up to here the two calls have decoded the same
  by_cases hexceeds : limit < decoded +
      (r.expand d (input.take (min remaining input.length))).output.length
  · left
    simp [readPayload, haccepted, hexceeds]
  · right
    rw [readPayload, readPayload]
    simp only [expand_withLimit, haccepted, hexceeds, hfits, limit_withLimit, Bool.not_true,
      Bool.false_eq_true, if_false]
    by_cases hpart : min remaining input.length < remaining
    · simp only [hpart, if_true]
      rfl
    · simp only [hpart, if_false]
      by_cases hhuffman : r.huffman = true
      · by_cases hfinal : (r.expand d (input.take (min remaining input.length))).decoder.isFinal
        · simp [Reading.withLimit, withLimit, hhuffman, hfinal]
        · simp [Reading.withLimit, withLimit, hhuffman, hfinal]
      · simp [Reading.withLimit, withLimit, hhuffman]

private theorem readLength_withLimit {int : PrefixedInteger.Reader} {input : Bytes}
    (h : ¬Failed (r.readLength int input).result) :
    ((r.withLimit limit).readLength int input).RefusedOr limit (r.readLength int input) := by
  simp only [readLength] at h ⊢
  rcases hint : (int.read input).result with cause | _ | length
  · rw [hint] at h
    exact absurd (failed_error cause) h
  · exact .inr rfl
  · simp only [hint] at h ⊢
    by_cases hlong : r.payloadLimit < length
    · rw [if_pos hlong] at h
      exact absurd (failed_error _) h
    rw [if_neg hlong] at h ⊢
    by_cases hexceeds : (r.withLimit limit).payloadLimit < length
    · left
      rw [if_pos hexceeds]
    · rw [if_neg hexceeds]
      exact readPayload_withLimit h

/-- **Two limits.** Where a reader does not fail, a reader that differs from it in its limit does
the same or refuses the string. -/
theorem read_withLimit {input : Bytes} (h : ¬Failed (r.read input).result) :
    ((r.withLimit limit).read input).RefusedOr limit (r.read input) := by
  obtain ⟨phase, huffman, limit'⟩ := r
  cases phase with
  | unconfigured => exact absurd (failed_error _) h
  | flag bits =>
    cases input with
    | nil => exact .inr rfl
    | cons byte rest => exact readLength_withLimit h
  | length int => exact readLength_withLimit h
  | payload remaining decoded d => exact readPayload_withLimit h
  | done => exact .inr rfl

/-! ### The smaller limit refuses only what exceeds it -/

theorem readPayload_of_done {remaining decoded : Nat} {d : Huffman.Decoder} {input : Bytes}
    (h : (r.readPayload remaining decoded d input).result = .ok (some ())) :
    remaining ≤ input.length ∧ (r.expand d (input.take remaining)).accepted = true ∧
      (r.huffman = true → (r.expand d (input.take remaining)).decoder.isFinal = true) ∧
      (r.readPayload remaining decoded d input).output =
        (r.expand d (input.take remaining)).output := by
  have hlength : remaining ≤ input.length := by
    rw [← Nat.not_lt]
    intro hshort
    simp only [readPayload, Nat.min_eq_right (Nat.le_of_lt hshort), hshort, if_true] at h
    split at h
    · exact absurd h (by simp)
    · split at h <;> exact absurd h (by simp)
  rw [readPayload, Nat.min_eq_left hlength] at h ⊢
  simp only [Nat.lt_irrefl, if_false] at h ⊢
  by_cases haccepted : (r.expand d (input.take remaining)).accepted = true
  · by_cases hexceeds : r.limit < decoded + (r.expand d (input.take remaining)).output.length
    · simp [haccepted, hexceeds] at h
    · by_cases hopen : (r.huffman && !(r.expand d (input.take remaining)).decoder.isFinal) = true
      · simp [haccepted, hexceeds, hopen] at h
      · refine ⟨hlength, haccepted, ?_, by simp [haccepted, hexceeds, hopen]⟩
        intro hhuffman
        simpa [hhuffman] using hopen
  · simp [haccepted] at h

/-- A payload is not refused unread if its content is within the limit. -/
theorem length_le_payloadLimit {payload : Bytes} (haccepted : (r.expand {} payload).accepted = true)
    (hfinal : r.huffman = true → (r.expand {} payload).decoder.isFinal = true)
    (hlimit : (r.expand {} payload).output.length ≤ r.limit) :
    payload.length ≤ r.payloadLimit := by
  rw [payloadLimit]
  by_cases hhuffman : r.huffman = true
  · rw [if_pos hhuffman, maxExpansion]
    simp only [expand, hhuffman, if_true] at haccepted hfinal hlimit
    have := Huffman.Decoder.length_le_of_accepted haccepted (hfinal trivial)
    omega
  · rw [if_neg hhuffman]
    simpa [expand, hhuffman] using hlimit

private theorem readLength_withLimit_of_done {int : PrefixedInteger.Reader} {input : Bytes}
    (h : (r.readLength int input).result = .ok (some ()))
    (hlimit : (r.readLength int input).output.length ≤ limit) :
    ((r.withLimit limit).readLength int input).result ≠ .error .headerListTooLarge := by
  simp only [readLength] at h hlimit ⊢
  rcases hint : (int.read input).result with cause | _ | length
  · simp [hint] at h
  · simp [hint] at h
  simp only [hint] at h hlimit ⊢
  by_cases hlong : r.payloadLimit < length
  · simp [hlong] at h
  rw [if_neg hlong] at h hlimit
  obtain ⟨hlength, haccepted, hfinal, houtput⟩ := readPayload_of_done h
  rw [houtput] at hlimit
  have hshort : ¬(r.withLimit limit).payloadLimit < length := by
    have := length_le_payloadLimit (r := r.withLimit limit) haccepted hfinal hlimit
    rw [List.length_take, Nat.min_eq_left hlength] at this
    exact Nat.not_lt.mpr this
  rw [if_neg hshort, readPayload, Nat.min_eq_left hlength]
  simp only [expand_withLimit, haccepted, limit_withLimit, Nat.zero_add, Nat.not_lt.mpr hlimit,
    Nat.lt_irrefl, if_false, Bool.not_true, Bool.false_eq_true]
  split <;> simp

/-- **No early refusal.** A string that is read in one call, and whose content is within a limit, is
not refused under that limit. -/
theorem read_withLimit_of_done {bits : Nat} (hphase : r.phase = .flag bits) {input : Bytes}
    (h : (r.read input).result = .ok (some ())) (hlimit : (r.read input).output.length ≤ limit) :
    (r.withLimit limit).read input = (r.read input).withLimit limit := by
  refine (read_withLimit (by rw [h]; exact not_failed_ok _)).resolve_left ?_
  obtain ⟨phase, huffman, limit'⟩ := r
  subst hphase
  cases input with
  | nil => simp [read] at h
  | cons byte rest => exact readLength_withLimit_of_done h hlimit

end Reader

end StringLiteral

/-! ## Lines

A section's limit reaches its lines as the limits of their strings and as the bound on their
fields. So what holds of strings holds of lines. The readers that the two calls leave are `Alike`,
that is, they differ in the limits of their strings and in nothing else.

A call may refuse a line before it is complete. `complete?_of_fits` says that this is never too
early: a line whose strings are within the smaller limit, and which one call completes under the
greater limit, is completed under the smaller limit as well. -/

/-- The same sum under another limit. -/
def SectionSize.withLimit (s : SectionSize) (limit : Nat) : SectionSize := { s with limit := limit }

namespace FieldLine

/-- The same context under another limit. -/
def Context.withLimit (ctx : Context) (limit : Nat) : Context :=
  { ctx with size := ctx.size.withLimit limit }

/-- The octets of the strings in a line. -/
def literalSize : FieldLine → Nat
  | indexed _ _ => 0
  | nameReference _ _ _ value => value.content.length
  | literalName _ name value => name.content.length + value.content.length

theorem literalSize_le {p : SectionPrefix} {table : TableView} {line : FieldLine} {e : Event}
    {field : Field} (h : Denotes p table line e) (hfield : e.field? = some field) :
    line.literalSize ≤ field.size := by
  cases h with
  | indexed => exact Nat.zero_le _
  | nameReference neverIndexed value =>
    obtain rfl : _ = field := by simpa [Event.field?] using hfield
    simp only [literalSize, Field.size]
    omega
  | literalName neverIndexed name value =>
    obtain rfl : _ = field := by simpa [Event.field?] using hfield
    simp only [literalSize, Field.size]
    omega

namespace Reader

/-- Readers that differ in the limits of their strings and in nothing else. -/
inductive Alike : Reader → Reader → Prop
  /-- No line. -/
  | idle : Alike idle idle
  /-- An index has no limit. -/
  | entryIndex (addressing : Addressing) (int : PrefixedInteger.Reader) :
    Alike (entryIndex addressing int) (entryIndex addressing int)
  /-- An index has no limit. -/
  | nameIndex (addressing : Addressing) (neverIndexed : Bool) (int : PrefixedInteger.Reader) :
    Alike (nameIndex addressing neverIndexed int) (nameIndex addressing neverIndexed int)
  /-- A value after an index. -/
  | nameValue (addressing : Addressing) (neverIndexed : Bool) (index : Nat)
    (string : StringLiteral.Reader) (value : Bytes) (limit : Nat) :
    Alike (nameValue addressing neverIndexed index (string.withLimit limit) value)
      (nameValue addressing neverIndexed index string value)
  /-- A name. -/
  | literalName (neverIndexed : Bool) (string : StringLiteral.Reader) (name : Bytes) (limit : Nat) :
    Alike (literalName neverIndexed (string.withLimit limit) name)
      (literalName neverIndexed string name)
  /-- A value after a name. -/
  | literalValue (neverIndexed : Bool) (name : StringLiteral) (string : StringLiteral.Reader)
    (value : Bytes) (limit : Nat) :
    Alike (literalValue neverIndexed name (string.withLimit limit) value)
      (literalValue neverIndexed name string value)

theorem Alike.refl (r : Reader) : Alike r r := by
  cases r with
  | idle => exact .idle
  | entryIndex => exact .entryIndex _ _
  | nameIndex => exact .nameIndex _ _ _
  | nameValue _ _ _ string => exact .nameValue _ _ _ string _ string.limit
  | literalName _ string => exact .literalName _ string _ string.limit
  | literalValue _ _ string => exact .literalValue _ _ string _ string.limit

end Reader

/-- A call either refused the line for its size, or did the same as another call under another
limit. -/
def Reading.RefusedOr (limit : Nat) (x y : Reading) : Prop :=
  x.result = .error .headerListTooLarge ∨
    x.result = y.result ∧ x.state.Alike y.state ∧ x.rest = y.rest ∧ x.events = y.events ∧
      x.size = y.size.withLimit limit

namespace Reader

variable {ctx : Context} {limit : Nat}

/-! ### One stage -/

theorem finish_withLimit {line : FieldLine} {r r' : Reader} {rest : Bytes}
    (h : ¬Failed (finish ctx line r' rest).result) :
    (finish (ctx.withLimit limit) line r rest).RefusedOr limit (finish ctx line r' rest) := by
  by_cases hdenotes : ∃ e, Denotes ctx.sectionPrefix ctx.table line e
  · obtain ⟨e, he⟩ := hdenotes
    obtain ⟨field, hfield⟩ := he.exists_field
    have he' : Denotes (ctx.withLimit limit).sectionPrefix (ctx.withLimit limit).table line e := he
    by_cases hle : ctx.size.used + field.size ≤ ctx.size.limit
    · obtain ⟨notes, hfinish⟩ := finish_of_denotes_of_le he hfield hle r' rest
      by_cases hfits : ctx.size.used + field.size ≤ limit
      · obtain ⟨notes', hfinish'⟩ := finish_of_denotes_of_le he' hfield hfits r rest
        rw [hfinish, hfinish']
        exact .inr ⟨rfl, .idle, rfl, rfl, rfl⟩
      · obtain ⟨notes', hfinish'⟩ := finish_of_denotes_of_lt he' hfield (Nat.not_le.mp hfits) r rest
        rw [hfinish']
        exact .inl rfl
    · obtain ⟨notes, hfinish⟩ := finish_of_denotes_of_lt he hfield (Nat.not_le.mp hle) r' rest
      rw [hfinish] at h
      exact absurd (failed_error _) h
  · obtain ⟨addressing, index, notes, -, hfinish⟩ :=
      finish_of_not_denotes (fun e he ↦ hdenotes ⟨e, he⟩) r' rest
    rw [hfinish] at h
    exact absurd (failed_error _) h

section Stage

variable {string : StringLiteral.Reader} {content input : Bytes}
  {unfinished : StringLiteral.Reader → Bytes → Reader}
  {next next' : StringLiteral → Reader → Bytes → Reading}

theorem readText_withLimit {stringLimit : Nat}
    (hunfinished : ∀ s content, Alike (unfinished (s.withLimit stringLimit) content)
      (unfinished s content))
    (hnext : ∀ s r r' rest, ¬Failed (next' s r' rest).result →
      (next s r rest).RefusedOr limit (next' s r' rest))
    (h : ¬Failed (readText ctx string content input unfinished next').result) :
    (readText (ctx.withLimit limit) (string.withLimit stringLimit) content input unfinished
      next).RefusedOr limit (readText ctx string content input unfinished next') := by
  have hstring : ¬Failed (string.read input).result := by
    rintro ⟨cause, hcause⟩
    rw [readText] at h
    simp only [Context.result_readString, hcause] at h
    exact h (failed_error _)
  rw [readText] at h ⊢
  rw [readText]
  simp only [Context.result_readString, Context.state_readString, Context.output_readString,
    Context.rest_readString] at h ⊢
  rcases StringLiteral.Reader.read_withLimit hstring with hrefused | hsame
  · left
    rw [hrefused]
  · have hresult : ((string.withLimit stringLimit).read input).result =
        (string.read input).result := by rw [hsame]; rfl
    have hstate : ((string.withLimit stringLimit).read input).state =
        (string.read input).state.withLimit stringLimit := by rw [hsame]; rfl
    have hrest : ((string.withLimit stringLimit).read input).rest = (string.read input).rest := by
      rw [hsame]; rfl
    have houtput : ((string.withLimit stringLimit).read input).output =
        (string.read input).output := by rw [hsame]; rfl
    rw [hresult, hstate, hrest, houtput]
    rcases hread : (string.read input).result with cause | _ | _
    · exact absurd (hread ▸ failed_error _) hstring
    · exact .inr ⟨rfl, hunfinished _ _, rfl, rfl, rfl⟩
    · simp only [hread] at h
      exact hnext _ _ _ _ h

private theorem readIndex_withLimit {int : PrefixedInteger.Reader}
    {unfinished : PrefixedInteger.Reader → Reader} {next next' : Nat → Reader → Bytes → Reading}
    (hnext : ∀ i r rest, ¬Failed (next' i r rest).result →
      (next i r rest).RefusedOr limit (next' i r rest))
    (h : ¬Failed (readIndex ctx int input unfinished next').result) :
    (readIndex (ctx.withLimit limit) int input unfinished next).RefusedOr limit
      (readIndex ctx int input unfinished next') := by
  rw [readIndex] at h ⊢
  rw [readIndex]
  rcases hint : (int.read input).result with cause | _ | i
  · simp only [hint] at h
    exact absurd (failed_error _) h
  · exact .inr ⟨rfl, .refl _, rfl, rfl, rfl⟩
  · simp only [hint] at h ⊢
    exact hnext _ _ _ h

end Stage

/-! ### One line -/

private theorem read_nameValue_withLimit {addressing : Addressing} {neverIndexed : Bool}
    {index : Nat} {string : StringLiteral.Reader} {value input : Bytes} (stringLimit : Nat)
    (h : ¬Failed ((nameValue addressing neverIndexed index string value).read ctx input).result) :
    ((nameValue addressing neverIndexed index (string.withLimit stringLimit) value).read
      (ctx.withLimit limit) input).RefusedOr limit
        ((nameValue addressing neverIndexed index string value).read ctx input) := by
  rw [read_nameValue] at h ⊢
  rw [read_nameValue]
  exact readText_withLimit (fun _ _ ↦ .nameValue _ _ _ _ _ _)
    (fun _ _ _ _ h ↦ finish_withLimit h) h

private theorem read_literalValue_withLimit {neverIndexed : Bool} {name : StringLiteral}
    {string : StringLiteral.Reader} {value input : Bytes} (stringLimit : Nat)
    (h : ¬Failed ((literalValue neverIndexed name string value).read ctx input).result) :
    ((literalValue neverIndexed name (string.withLimit stringLimit) value).read
      (ctx.withLimit limit) input).RefusedOr limit
        ((literalValue neverIndexed name string value).read ctx input) := by
  rw [read_literalValue] at h ⊢
  rw [read_literalValue]
  exact readText_withLimit (fun _ _ ↦ .literalValue _ _ _ _ _)
    (fun _ _ _ _ h ↦ finish_withLimit h) h

/-- **Two limits.** Where a call on a line does not fail, a call under another limit does the same
or refuses the line. -/
theorem read_withLimit {r r' : Reader} (halike : r.Alike r') {input : Bytes}
    (h : ¬Failed (r'.read ctx input).result) :
    (r.read (ctx.withLimit limit) input).RefusedOr limit (r'.read ctx input) := by
  cases halike with
  | idle =>
    rw [read_idle] at h
    exact absurd (failed_error _) h
  | entryIndex addressing int =>
    rw [read_entryIndex] at h ⊢
    rw [read_entryIndex]
    exact readIndex_withLimit (fun _ _ _ h ↦ finish_withLimit h) h
  | nameIndex addressing neverIndexed int =>
    rw [read_nameIndex] at h ⊢
    rw [read_nameIndex]
    exact readIndex_withLimit (fun _ _ _ h ↦ read_nameValue_withLimit _ h) h
  | nameValue addressing neverIndexed index string value stringLimit =>
    exact read_nameValue_withLimit stringLimit h
  | literalName neverIndexed string name stringLimit =>
    rw [read_literalName] at h ⊢
    rw [read_literalName]
    -- a name gets its limit anew at every call
    have hname : (string.withLimit stringLimit).withLimit (ctx.withLimit limit).size.remaining =
        (string.withLimit ctx.size.remaining).withLimit (ctx.withLimit limit).size.remaining := rfl
    rw [hname]
    refine readText_withLimit (fun _ _ ↦ .literalName _ _ _ _) ?_ h
    intro name r r' rest h
    exact read_literalValue_withLimit
      ((ctx.withLimit limit).size.remaining - name.content.length) h
  | literalValue neverIndexed name string value stringLimit =>
    exact read_literalValue_withLimit stringLimit h

/-! ### No line is refused too early -/

theorem text?_withLimit {string : StringLiteral.Reader} {bits : Nat}
    (hphase : string.phase = .flag bits) {input rest : Bytes} {s : StringLiteral}
    (h : text? string [] input = some (s, rest)) (hle : s.content.length ≤ limit) :
    text? (string.withLimit limit) [] input = some (s, rest) := by
  rw [text?] at h
  split at h
  · rename_i hread
    obtain ⟨rfl, rfl⟩ : _ = s ∧ _ = rest := by simpa using h
    rw [text?, StringLiteral.Reader.read_withLimit_of_done hphase hread hle]
    simp only [StringLiteral.Reading.withLimit, hread]
    rfl
  · exact absurd h (by simp)

private theorem text?_valueReader {remaining : Nat} {input rest : Bytes} {s : StringLiteral}
    (h : text? (valueReader remaining) [] input = some (s, rest))
    (hle : s.content.length ≤ limit) :
    text? (valueReader limit) [] input = some (s, rest) := by
  have hphase : (valueReader remaining).phase = .flag 7 := rfl
  exact text?_withLimit hphase h hle

private theorem ofByte_cases (first : UInt8) :
    (∃ addressing bits, ofByte first = entryIndex addressing (.start bits)) ∨
      (∃ addressing neverIndexed bits,
        ofByte first = nameIndex addressing neverIndexed (.start bits)) ∨
      ∃ neverIndexed, ofByte first = literalName neverIndexed (.start 3) [] := by
  rw [ofByte]
  split
  · exact .inl ⟨_, _, rfl⟩
  split
  · exact .inr (.inl ⟨_, _, _, rfl⟩)
  split
  · exact .inr (.inr ⟨_, rfl⟩)
  split
  · exact .inl ⟨_, _, rfl⟩
  · exact .inr (.inl ⟨_, _, _, rfl⟩)

/-- **No early refusal.** A line that is complete under one limit is complete under another, if its
strings are within that. -/
theorem complete?_of_fits {first : UInt8} {remaining : Nat} {input rest : Bytes} {line : FieldLine}
    (h : (ofByte first).complete? remaining input = some (line, rest))
    (hle : line.literalSize ≤ limit) :
    (ofByte first).complete? limit input = some (line, rest) := by
  rcases ofByte_cases first with ⟨addressing, bits, hr⟩ | ⟨addressing, neverIndexed, bits, hr⟩ |
    ⟨neverIndexed, hr⟩
  · rw [hr] at h ⊢
    exact h
  · rw [hr] at h ⊢
    obtain ⟨⟨i, middle⟩, hi, h⟩ := Option.bind_eq_some_iff.mp h
    obtain ⟨⟨value, rest⟩, hvalue, ⟨⟩⟩ := Option.map_eq_some_iff.mp h
    simp only [complete?, hi, Option.bind_some, text?_valueReader hvalue hle, Option.map_some]
  · rw [hr] at h ⊢
    obtain ⟨⟨name, middle⟩, hname, h⟩ := Option.bind_eq_some_iff.mp h
    obtain ⟨⟨value, rest⟩, hvalue, ⟨⟩⟩ := Option.map_eq_some_iff.mp h
    have hphase : ((StringLiteral.Reader.start 3).withLimit remaining).phase = .flag 3 := rfl
    have hname' : text? ((StringLiteral.Reader.start 3).withLimit limit) [] input =
        some (name, middle) :=
      text?_withLimit hphase hname (Nat.le_trans (Nat.le_add_right _ _) hle)
    simp only [complete?, hname', Option.bind_some,
      text?_valueReader hvalue (Nat.le_sub_of_add_le' hle), Option.map_some]

end Reader

end FieldLine

end FieldCompression
