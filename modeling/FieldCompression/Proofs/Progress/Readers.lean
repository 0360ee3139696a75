import FieldCompression.Proofs.Grammar.Sections

/-!
# Readers that consume

A caller that reads in a loop comes to no end if some reader can be handed octets and take none of
them. A reader that has all of its item does so, or one of which nothing is expected.

`Awaits` says of each kind of reader that at least one more octet belongs to its item, and of a line
that it does to the item of its present stage. A reader that awaits octets takes at least one of
those that it is handed, also where it fails. And a reader that wants more awaits octets, whatever
it was before: a payload of length zero is complete as soon as its length is, and the value of a
line begins with a flag that has not been read.

A caller that goes on with what a reader leaves must also not lose octets, or read some again. What
is left is always the end of what was handed over (the lemmas on suffixes), so it tells which octets
have been taken (`consumed`).
-/

namespace FieldCompression

/-! ## What has been taken -/

/-- The octets at the front of an input that have been taken when `rest` is left of it. -/
def consumed (input rest : Bytes) : Bytes := input.take (input.length - rest.length)

theorem consumed_append {input rest : Bytes} (h : rest <:+ input) :
    consumed input rest ++ rest = input := by
  obtain ⟨span, rfl⟩ := h
  rw [consumed, List.length_append, Nat.add_sub_cancel, List.take_left]

theorem consumed_ne_nil {input rest : Bytes} (h : rest.length < input.length) :
    consumed input rest ≠ [] := by
  rw [consumed, ne_eq, List.take_eq_nil_iff, not_or]
  exact ⟨by omega, List.ne_nil_of_length_pos (by omega)⟩

/-! ## Integers -/

namespace PrefixedInteger.Reader

/-- At least one more octet belongs to the integer. -/
def Awaits : Reader → Prop
  | start _ | continuation .. => True
  | unconfigured | done _ => False

variable {r : Reader} {input : Bytes}

private theorem rest_readContinuation_suffix (value shift : Nat) (input : Bytes) :
    (readContinuation value shift input).rest <:+ input := by
  induction input generalizing value shift with
  | nil => exact List.suffix_rfl
  | cons byte rest ih =>
    simp only [readContinuation]
    split
    · exact List.suffix_cons byte rest
    · split
      · exact List.suffix_cons byte rest
      · exact (ih _ _).trans (List.suffix_cons byte rest)

theorem rest_read_suffix (r : Reader) (input : Bytes) : (r.read input).rest <:+ input := by
  cases r with
  | unconfigured => exact List.suffix_rfl
  | start bits =>
    cases input with
    | nil => exact List.suffix_rfl
    | cons byte rest =>
      simp only [read]
      split
      · exact List.suffix_cons byte rest
      · exact (rest_readContinuation_suffix _ _ rest).trans (List.suffix_cons byte rest)
  | continuation value shift => exact rest_readContinuation_suffix value shift input
  | done value => exact List.suffix_rfl

private theorem length_rest_readContinuation_lt (value shift : Nat) (byte : UInt8) (rest : Bytes) :
    (readContinuation value shift (byte :: rest)).rest.length < (byte :: rest).length := by
  rw [readContinuation, List.length_cons, Nat.lt_succ_iff]
  split
  · exact Nat.le_refl _
  · split
    · exact Nat.le_refl _
    · exact length_rest_readContinuation _ _ rest

theorem Awaits.length_rest_lt (h : r.Awaits) (hinput : input ≠ []) :
    (r.read input).rest.length < input.length := by
  obtain ⟨byte, rest, rfl⟩ := List.exists_cons_of_ne_nil hinput
  cases r with
  | unconfigured => exact absurd h not_false
  | start bits => exact Nat.lt_succ_of_le (length_rest_read_start bits byte rest)
  | continuation value shift => exact length_rest_readContinuation_lt value shift byte rest
  | done value => exact absurd h not_false

private theorem awaits_readContinuation_of_pending {value shift : Nat}
    (h : (readContinuation value shift input).result = .ok none) :
    (readContinuation value shift input).state.Awaits := by
  induction input generalizing value shift with
  | nil => trivial
  | cons byte rest ih =>
    simp only [readContinuation] at h ⊢
    split at h
    · exact absurd h (by simp)
    · rename_i hfits
      rw [if_neg hfits]
      split at h
      · exact absurd h (by simp)
      · rename_i hmore
        rw [if_neg hmore]
        exact ih h

theorem awaits_of_pending (h : (r.read input).result = .ok none) :
    (r.read input).state.Awaits := by
  cases r with
  | unconfigured => exact absurd h (by simp [read])
  | start bits =>
    cases input with
    | nil => trivial
    | cons byte rest =>
      simp only [read] at h ⊢
      split at h
      · exact absurd h (by simp)
      · rename_i hfull
        rw [if_neg hfull]
        exact awaits_readContinuation_of_pending h
  | continuation value shift => exact awaits_readContinuation_of_pending h
  | done value => exact absurd h (by simp [read])

end PrefixedInteger.Reader

/-! ## Prefixes of sections -/

namespace SectionPrefix.Reader

theorem rest_readDelta (count : Nat) (negative : Bool) (int : PrefixedInteger.Reader)
    (input : Bytes) : (readDelta count negative int input).rest = (int.read input).rest := by
  simp only [readDelta]
  split
  · rfl
  · rfl
  · split <;> rfl

private theorem rest_readSign_suffix (count : Nat) (input : Bytes) :
    (readSign count input).rest <:+ input := by
  cases input with
  | nil => exact List.suffix_rfl
  | cons byte rest =>
    rw [readSign, rest_readDelta]
    exact PrefixedInteger.Reader.rest_read_suffix _ _

theorem rest_read_suffix (r : Reader) (table : TableView) (input : Bytes) :
    (r.read table input).rest <:+ input := by
  cases r with
  | insertCount int =>
    have hint := int.rest_read_suffix input
    simp only [read]
    split
    · exact hint
    · exact hint
    · split
      · exact hint
      · exact (rest_readSign_suffix _ _).trans hint
  | sign count => exact rest_readSign_suffix count input
  | delta count negative int =>
    rw [read, rest_readDelta]
    exact int.rest_read_suffix input
  | done value => exact List.suffix_rfl

end SectionPrefix.Reader

/-! ## Strings -/

namespace StringLiteral.Reader

/-- At least one more octet belongs to the string. -/
def Awaits (r : Reader) : Prop :=
  match r.phase with
  | .flag _ => True
  | .length int => int.Awaits
  | .payload remaining _ _ => 0 < remaining
  | .unconfigured | .done => False

variable {r : Reader} {input : Bytes}

private theorem awaits_withLimit {limit : Nat} : (r.withLimit limit).Awaits ↔ r.Awaits := Iff.rfl

theorem awaits_start (bits : Nat) : (start bits).Awaits := trivial

theorem rest_readPayload_suffix (r : Reader) (remaining decoded : Nat) (decoder : Huffman.Decoder)
    (input : Bytes) : (r.readPayload remaining decoded decoder input).rest <:+ input := by
  rw [rest_readPayload]
  exact List.drop_suffix _ _

private theorem rest_readLength_suffix (r : Reader) (int : PrefixedInteger.Reader) (input : Bytes) :
    (r.readLength int input).rest <:+ input := by
  have hint := int.rest_read_suffix input
  simp only [readLength]
  split
  · exact hint
  · exact hint
  · split
    · exact hint
    · exact (rest_readPayload_suffix _ _ _ _ _).trans hint

theorem rest_read_suffix (r : Reader) (input : Bytes) : (r.read input).rest <:+ input := by
  rw [read]
  split
  · exact List.suffix_rfl
  · split
    · exact List.suffix_rfl
    · exact rest_readLength_suffix _ _ _
  · exact rest_readLength_suffix _ _ _
  · exact rest_readPayload_suffix _ _ _ _ _
  · exact List.suffix_rfl

private theorem length_rest_readPayload_lt {remaining : Nat} (hremaining : 0 < remaining)
    (hinput : input ≠ []) (decoded : Nat) (decoder : Huffman.Decoder) :
    (r.readPayload remaining decoded decoder input).rest.length < input.length := by
  have hlength := List.length_pos_iff.mpr hinput
  rw [rest_readPayload, List.length_drop]
  omega

theorem Awaits.length_rest_lt (h : r.Awaits) (hinput : input ≠ []) :
    (r.read input).rest.length < input.length := by
  rcases hphase : r.phase with _ | bits | int | ⟨remaining, decoded, decoder⟩ | _
  all_goals simp only [Awaits, hphase] at h
  all_goals simp only [read, hphase]
  · obtain ⟨byte, rest, rfl⟩ := List.exists_cons_of_ne_nil hinput
    refine Nat.lt_of_le_of_lt (length_rest_readLength _ _ _) ?_
    exact PrefixedInteger.Reader.Awaits.length_rest_lt trivial hinput
  · exact Nat.lt_of_le_of_lt (length_rest_readLength _ _ _) (h.length_rest_lt hinput)
  · exact length_rest_readPayload_lt h hinput decoded decoder

theorem awaits_readPayload_of_pending {remaining decoded : Nat} {decoder : Huffman.Decoder}
    (h : (r.readPayload remaining decoded decoder input).result = .ok none) :
    (r.readPayload remaining decoded decoder input).state.Awaits := by
  simp only [readPayload] at h ⊢
  split at h
  · exact absurd h (by simp)
  rename_i haccepted
  rw [if_neg haccepted]
  split at h
  · exact absurd h (by simp)
  rename_i hfits
  rw [if_neg hfits]
  split at h
  · rename_i hpart
    rw [if_pos hpart]
    exact Nat.sub_pos_of_lt hpart
  · split at h <;> exact absurd h (by simp)

private theorem awaits_readLength_of_pending {int : PrefixedInteger.Reader}
    (h : (r.readLength int input).result = .ok none) :
    (r.readLength int input).state.Awaits := by
  simp only [readLength] at h ⊢
  rcases hint : (int.read input).result with cause | _ | length
  · simp [hint] at h
  · exact PrefixedInteger.Reader.awaits_of_pending hint
  · simp only [hint] at h ⊢
    by_cases hlong : r.payloadLimit < length
    · simp [hlong] at h
    · rw [if_neg hlong] at h ⊢
      exact awaits_readPayload_of_pending h

theorem awaits_of_pending (h : (r.read input).result = .ok none) :
    (r.read input).state.Awaits := by
  rcases hphase : r.phase with _ | bits | int | ⟨remaining, decoded, decoder⟩ | _
  all_goals simp only [read, hphase] at h ⊢
  · exact absurd h (by simp)
  · cases input with
    | nil => simp only [Awaits, hphase]
    | cons byte rest => exact awaits_readLength_of_pending h
  · exact awaits_readLength_of_pending h
  · exact awaits_readPayload_of_pending h
  · exact absurd h (by simp)

end StringLiteral.Reader

/-! ## Lines -/

namespace FieldLine.Reader

/-- A line has begun, and at least one more octet belongs to the item of its present stage. -/
def Awaits : Reader → Prop
  | idle => False
  | entryIndex _ int | nameIndex _ _ int => int.Awaits
  | nameValue _ _ _ string _ | literalName _ string _ | literalValue _ _ string _ => string.Awaits

variable {ctx : Context} {r : Reader} {input : Bytes}

theorem Awaits.ne_idle (h : r.Awaits) : r ≠ idle := by
  rintro rfl
  exact h

theorem awaits_ofByte (first : UInt8) : (ofByte first).Awaits := by
  have hindex (bits : Nat) : (PrefixedInteger.Reader.start bits).Awaits := trivial
  simp only [ofByte]
  split
  · exact hindex 6
  split
  · exact hindex 4
  split
  · exact StringLiteral.Reader.awaits_start 3
  split
  · exact hindex 4
  · exact hindex 3

/-- What the item of the present stage leaves. -/
def itemRest (ctx : Context) : Reader → Bytes → Bytes
  | idle, input => input
  | entryIndex _ int, input | nameIndex _ _ int, input => (int.read input).rest
  | nameValue _ _ _ string _, input | literalValue _ _ string _, input => (string.read input).rest
  | literalName _ string _, input => ((string.withLimit ctx.size.remaining).read input).rest

/-- A stage leaves what its item does, whatever becomes of the line. -/
theorem rest_step (ctx : Context) (r : Reader) (input : Bytes) :
    (r.step ctx input).rest = r.itemRest ctx input := by
  cases r with
  | idle => rfl
  | entryIndex addressing int => exact rest_readIndex fun _ _ _ ↦ rest_finish _ _ _ _
  | nameIndex addressing neverIndexed int => exact rest_readIndex fun _ _ _ ↦ rfl
  | nameValue addressing neverIndexed index string value =>
    exact rest_readText fun _ _ _ ↦ rest_finish _ _ _ _
  | literalName neverIndexed string name => exact rest_readText fun _ _ _ ↦ rfl
  | literalValue neverIndexed name string value =>
    exact rest_readText fun _ _ _ ↦ rest_finish _ _ _ _

theorem rest_step_suffix (ctx : Context) (r : Reader) (input : Bytes) :
    (r.step ctx input).rest <:+ input := by
  rw [rest_step]
  cases r with
  | idle => exact List.suffix_rfl
  | entryIndex addressing int => exact int.rest_read_suffix input
  | nameIndex addressing neverIndexed int => exact int.rest_read_suffix input
  | nameValue addressing neverIndexed index string value => exact string.rest_read_suffix input
  | literalName neverIndexed string name => exact (string.withLimit _).rest_read_suffix input
  | literalValue neverIndexed name string value => exact string.rest_read_suffix input

/-- **A stage consumes.** At a line that awaits octets, a stage takes at least one of them. -/
theorem Awaits.length_rest_step_lt (h : r.Awaits) (ctx : Context) (hinput : input ≠ []) :
    (r.step ctx input).rest.length < input.length := by
  rw [rest_step]
  cases r with
  | idle => exact absurd h not_false
  | entryIndex addressing int => exact PrefixedInteger.Reader.Awaits.length_rest_lt h hinput
  | nameIndex addressing neverIndexed int =>
    exact PrefixedInteger.Reader.Awaits.length_rest_lt h hinput
  | nameValue addressing neverIndexed index string value =>
    exact StringLiteral.Reader.Awaits.length_rest_lt h hinput
  | literalName neverIndexed string name =>
    exact (StringLiteral.Reader.awaits_withLimit.mpr h).length_rest_lt hinput
  | literalValue neverIndexed name string value =>
    exact StringLiteral.Reader.Awaits.length_rest_lt h hinput

/-- A line that has not come to its end with a stage awaits octets. -/
theorem awaits_of_step_pending (h : (r.step ctx input).result = .ok none) :
    (r.step ctx input).state.Awaits := by
  have hfinish {line : FieldLine} (r' : Reader) (rest : Bytes)
      (hpending : (finish ctx line r' rest).result = .ok none) :
      (finish ctx line r' rest).state.Awaits :=
    absurd hpending (result_finish_ne_pending ctx line r' rest)
  cases r with
  | idle => exact absurd h (by simp [step])
  | entryIndex addressing int =>
    exact state_readIndex PrefixedInteger.Reader.awaits_of_pending (fun _ ↦ hfinish) h
  | nameIndex addressing neverIndexed int =>
    refine state_readIndex PrefixedInteger.Reader.awaits_of_pending (fun _ _ _ _ ↦ ?_) h
    exact StringLiteral.Reader.awaits_start 7
  | nameValue addressing neverIndexed index string value =>
    exact state_readText StringLiteral.Reader.awaits_of_pending (fun r' rest _ ↦ hfinish r' rest) h
  | literalName neverIndexed string name =>
    refine state_readText StringLiteral.Reader.awaits_of_pending (fun _ _ _ _ ↦ ?_) h
    exact StringLiteral.Reader.awaits_start 7
  | literalValue neverIndexed name string value =>
    exact state_readText StringLiteral.Reader.awaits_of_pending (fun r' rest _ ↦ hfinish r' rest) h

theorem awaits_of_pending (h : (r.read ctx input).result = .ok none) :
    (r.read ctx input).state.Awaits := by
  rw [read] at h ⊢
  split at h
  · exact awaits_of_step_pending h
  · exact awaits_of_step_pending h

end FieldLine.Reader

end FieldCompression
