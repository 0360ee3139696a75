import FieldCompression.Proofs.DynamicTable.History
import FieldCompression.Proofs.Reuse.Calls

/-!
# The account of a section

The limit of a section pays for two things: for the fields that have been delivered, each with its
overhead, and for the octets that are kept of the line that has begun. Together they never exceed
it.

The second is not checked against the limit as such. Each string gets a limit of its own when its
reader is made, or when a name is read on in, and that is what the section may still hold at that
time, less the name for a value after a name. So what has to be known of a line is that the limits
of its strings still add up to no more than what is left (`Within`), and what has to be known of a
string is that its reader has counted what it has decoded (`HasDecoded`). As long as a line is
unfinished nothing is counted towards the section, so what was left stays left.
-/

namespace FieldCompression

/-! ## Strings -/

namespace StringLiteral.Reader

/-- The reader has decoded this much of a string, and counted it. -/
structure HasDecoded (r : Reader) (content : Bytes) : Prop where
  /-- It is within the limit. -/
  fits : content.length ≤ r.limit
  /-- Nothing is decoded before the payload, and all that is decoded of that is counted. -/
  counted :
    match r.phase with
    | .unconfigured | .flag _ | .length _ => content = []
    | .payload _ decoded _ => content.length = decoded
    | .done => True

variable {r : Reader} {content input : Bytes} {item : Option Unit}

theorem hasDecoded_start (bits limit : Nat) : ((start bits).withLimit limit).HasDecoded [] :=
  ⟨Nat.zero_le _, rfl⟩

theorem hasDecoded_readPayload (content : Bytes) {remaining : Nat} {decoder : Huffman.Decoder}
    (hok : (r.readPayload remaining content.length decoder input).result = .ok item) :
    (r.readPayload remaining content.length decoder input).state.HasDecoded
      (content ++ (r.readPayload remaining content.length decoder input).output) := by
  simp only [readPayload] at hok ⊢
  split at hok
  · exact absurd hok (by simp)
  rename_i haccepted
  split at hok
  · exact absurd hok (by simp)
  rename_i hfits
  rw [if_neg haccepted, if_neg hfits]
  split at hok
  · rename_i hpart
    rw [if_pos hpart]
    exact ⟨by rw [List.length_append]; exact Nat.not_lt.mp hfits, List.length_append⟩
  rename_i hwhole
  split at hok
  · exact absurd hok (by simp)
  rename_i hfinal
  rw [if_neg hwhole, if_neg hfinal]
  exact ⟨by rw [List.length_append]; exact Nat.not_lt.mp hfits, trivial⟩

private theorem hasDecoded_readLength {int : PrefixedInteger.Reader}
    (hok : (r.readLength int input).result = .ok item) :
    (r.readLength int input).state.HasDecoded (r.readLength int input).output := by
  simp only [readLength] at hok ⊢
  rcases hint : (int.read input).result with cause | _ | length
  · simp [hint] at hok
  · exact ⟨Nat.zero_le _, rfl⟩
  · simp only [hint] at hok ⊢
    by_cases hlong : r.payloadLimit < length
    · rw [if_pos hlong] at hok
      exact absurd hok (by simp)
    · rw [if_neg hlong] at hok ⊢
      exact hasDecoded_readPayload [] hok

/-- **Strings.** A call that does not fail counts what it decodes. -/
theorem HasDecoded.read (h : r.HasDecoded content) (hok : (r.read input).result = .ok item) :
    (r.read input).state.HasDecoded (content ++ (r.read input).output) := by
  obtain ⟨hfits, hcounted⟩ := h
  rcases hphase : r.phase with _ | bits | int | ⟨remaining, decoded, decoder⟩ | _
  · simp [Reader.read, hphase] at hok
  · rw [hphase] at hcounted
    subst hcounted
    cases input with
    | nil =>
      simp only [Reader.read, hphase]
      exact ⟨Nat.zero_le _, by simp [hphase]⟩
    | cons byte rest =>
      simp only [Reader.read, hphase] at hok ⊢
      exact hasDecoded_readLength hok
  · rw [hphase] at hcounted
    subst hcounted
    simp only [Reader.read, hphase] at hok ⊢
    exact hasDecoded_readLength hok
  · rw [hphase] at hcounted
    obtain rfl : content.length = decoded := hcounted
    simp only [Reader.read, hphase] at hok ⊢
    exact hasDecoded_readPayload content hok
  · simp only [Reader.read, hphase, List.append_nil]
    exact ⟨hfits, by simp [hphase]⟩

end StringLiteral.Reader

/-! ## Lines -/

namespace FieldLine

namespace Reader

/-- How many octets are kept of a line: of its value, and of its name if the line gives that. -/
def buffered : Reader → Nat
  | idle | entryIndex .. | nameIndex .. => 0
  | nameValue _ _ _ _ value => value.length
  | literalName _ _ name => name.length
  | literalValue _ name _ value => name.content.length + value.length

/-- The strings of a line keep within what the section may still hold. -/
def Within (remaining : Nat) : Reader → Prop
  | idle | entryIndex .. | nameIndex .. => True
  | nameValue _ _ _ string value => string.limit ≤ remaining ∧ string.HasDecoded value
  | literalName _ string name => (string.withLimit remaining).HasDecoded name
  | literalValue _ name string value =>
    name.content.length + string.limit ≤ remaining ∧ string.HasDecoded value

theorem Within.buffered_le {remaining : Nat} {r : Reader} (h : r.Within remaining) :
    r.buffered ≤ remaining := by
  cases r with
  | idle | entryIndex | nameIndex => exact Nat.zero_le _
  | nameValue addressing neverIndexed index string value => exact Nat.le_trans h.2.fits h.1
  | literalName neverIndexed string name => exact h.fits
  | literalValue neverIndexed name string value =>
    exact Nat.le_trans (Nat.add_le_add_left h.2.fits _) h.1

private theorem within_ofByte (remaining : Nat) (first : UInt8) :
    (ofByte first).Within remaining := by
  simp only [ofByte]
  split
  · trivial
  split
  · trivial
  split
  · exact StringLiteral.Reader.hasDecoded_start 3 remaining
  split <;> trivial

section Read

variable {ctx : Context} {input : Bytes}

private theorem within_read_nameValue {addressing : Addressing} {neverIndexed : Bool} {index : Nat}
    {string : StringLiteral.Reader} {value : Bytes}
    (h : (nameValue addressing neverIndexed index string value).Within ctx.size.remaining)
    (hpending : ((nameValue addressing neverIndexed index string value).read ctx input).result =
      .ok none) :
    ((nameValue addressing neverIndexed index string value).read ctx input).state.Within
      ctx.size.remaining := by
  rw [read_nameValue] at hpending ⊢
  refine state_readText (fun hstring ↦ ?_)
    (fun _ _ _ hfinish ↦ absurd hfinish (result_finish_ne_pending _ _ _ _)) hpending
  exact ⟨string.limit_read input ▸ h.1, h.2.read hstring⟩

private theorem within_read_literalValue {neverIndexed : Bool} {name : StringLiteral}
    {string : StringLiteral.Reader} {value : Bytes}
    (h : (literalValue neverIndexed name string value).Within ctx.size.remaining)
    (hpending : ((literalValue neverIndexed name string value).read ctx input).result =
      .ok none) :
    ((literalValue neverIndexed name string value).read ctx input).state.Within
      ctx.size.remaining := by
  rw [read_literalValue] at hpending ⊢
  refine state_readText (fun hstring ↦ ?_)
    (fun _ _ _ hfinish ↦ absurd hfinish (result_finish_ne_pending _ _ _ _)) hpending
  exact ⟨string.limit_read input ▸ h.1, h.2.read hstring⟩

/-- **Lines.** A call that does not come to the end of a line leaves it within what the section may
still hold. -/
theorem Within.read {r : Reader} (h : r.Within ctx.size.remaining)
    (hpending : (r.read ctx input).result = .ok none) :
    (r.read ctx input).state.Within ctx.size.remaining := by
  cases r with
  | idle =>
    rw [read_idle] at hpending
    exact absurd hpending (by simp)
  | entryIndex addressing int =>
    rw [read_entryIndex] at hpending ⊢
    exact state_readIndex (fun _ ↦ trivial)
      (fun _ _ _ hfinish ↦ absurd hfinish (result_finish_ne_pending _ _ _ _)) hpending
  | nameIndex addressing neverIndexed int =>
    rw [read_nameIndex] at hpending ⊢
    refine state_readIndex (fun _ ↦ trivial) (fun i _ rest hvalue ↦ ?_) hpending
    exact within_read_nameValue
      ⟨Nat.le_refl _, StringLiteral.Reader.hasDecoded_start 7 ctx.size.remaining⟩ hvalue
  | nameValue addressing neverIndexed index string value => exact within_read_nameValue h hpending
  | literalName neverIndexed string name =>
    rw [read_literalName] at hpending ⊢
    refine state_readText (fun hstring ↦ ?_) (fun _ rest hstring hvalue ↦ ?_) hpending
    · have hlimit : ((string.withLimit ctx.size.remaining).read input).state.limit =
          ctx.size.remaining := StringLiteral.Reader.limit_read _ input
      rw [Within, StringLiteral.Reader.withLimit_of_limit_eq hlimit]
      exact StringLiteral.Reader.HasDecoded.read h hstring
    · -- what is left for the value is what the name has left of the limit that it had itself
      have hname := (StringLiteral.Reader.HasDecoded.read h hstring).fits
      rw [StringLiteral.Reader.limit_read] at hname
      refine within_read_literalValue ⟨?_, StringLiteral.Reader.hasDecoded_start 7 _⟩ hvalue
      exact Nat.le_of_eq (Nat.add_sub_cancel' hname)
  | literalValue neverIndexed name string value => exact within_read_literalValue h hpending

end Read

end Reader

end FieldLine

/-! ## Sections -/

open FieldLine

namespace Decoder

/-- How many octets are kept of the line that has begun. -/
def buffered (d : Decoder) : Nat := d.line.buffered

/-- The account of a section is right. -/
structure Balanced (size : SectionSize) (line : FieldLine.Reader) (events : List Event) :
    Prop where
  /-- What has been counted is the sum of the sizes of the fields that have been delivered. -/
  total : size.used = totalSize (fieldsOf events)
  /-- It is within the limit. -/
  fits : size.used ≤ size.limit
  /-- The line that has begun keeps within the rest. -/
  within : line.Within size.remaining

namespace Balanced

variable {size : SectionSize} {line : FieldLine.Reader} {events : List Event}

theorem used_add_remaining (h : Balanced size line events) :
    size.used + size.remaining = size.limit := Nat.add_sub_cancel' h.fits

theorem used_add_buffered_le (h : Balanced size line events) :
    size.used + line.buffered ≤ size.limit := by
  rw [← h.used_add_remaining]
  exact Nat.add_le_add_left h.within.buffered_le _

/-- A call on a line that does not fail leaves the account right: it counts the field that it
delivers, or it counts nothing and delivers nothing. -/
theorem read {ctx : Context} {input : Bytes} {item : Option Unit}
    (h : Balanced ctx.size line events) (hok : (line.read ctx input).result = .ok item) :
    Balanced (line.read ctx input).size (line.read ctx input).state
      (events ++ (line.read ctx input).events) := by
  rcases item with _ | _
  · have hpending : (line.read ctx input).result ≠ .ok (some ()) := by simp [hok]
    obtain ⟨hcallbacks, hsize⟩ := FieldLine.Reader.callbacks_read_of_ne_done hpending
    have hsilent : (line.read ctx input).events = [] := by
      rw [FieldLine.Reader.events_read, hcallbacks, hok, notices_ok, List.append_nil]
    rw [hsize, hsilent, List.append_nil]
    exact ⟨h.total, h.fits, h.within.read hok⟩
  · obtain ⟨rest, e, field, notes, hfield, hle, hread⟩ :=
      FieldLine.Reader.exists_read_eq_of_done hok
    have hfields : fieldsOf [e] = [field] := by simp [fieldsOf, hfield]
    rw [hread]
    refine ⟨?_, hle, trivial⟩
    rw [fieldsOf, List.filterMap_append, ← fieldsOf, ← fieldsOf, hfields, totalSize_append, h.total]
    rfl

/-- **The account of a section** stays right. -/
theorem lasting : Lasting Balanced where
  start _ := ⟨rfl, Nat.zero_le _, trivial⟩
  begins first h := ⟨h.total, h.fits, FieldLine.Reader.within_ofByte _ first⟩
  read h hok := h.read hok

end Balanced

end Decoder

/-- **The account of a section.** After any calls of a decoder, what has been counted of the section
under way is the sum of the sizes of the fields that have been delivered of it, which is within the
limit; and what has been counted and what is kept of the line that has begun are together within the
limit. That is so as well at every line that a further call comes to, whatever becomes of the call.
-/
theorem Settings.section_account (s : Settings) (calls : List Decoder.Call) :
    let d := s.decoder.performAll calls
    d.size.used = totalSize (fieldsOf (s.decoder.underway [] calls)) ∧
      d.size.used + d.size.remaining = s.maxFieldSectionSize ∧
      d.size.used + d.buffered ≤ s.maxFieldSectionSize ∧
      ∀ (table : TableView) (chunk : Bytes) (w : Decoder.Visit), d.Visits table chunk w →
        w.ctx.size.used + w.ctx.size.remaining = s.maxFieldSectionSize ∧
          w.ctx.size.used + w.line.buffered ≤ s.maxFieldSectionSize := by
  intro d
  have hbalanced : Decoder.Balanced d.size d.line (s.decoder.underway [] calls) :=
    Decoder.Balanced.lasting.performAll (Decoder.Balanced.lasting.start _) calls
  have hlimit : d.size.limit = s.maxFieldSectionSize := s.decoder.limit_performAll calls
  refine ⟨hbalanced.total, ?_, ?_, ?_⟩
  · rw [← hlimit, hbalanced.used_add_remaining]
  · rw [← hlimit]
    exact hbalanced.used_add_buffered_le
  · intro table chunk w hw
    obtain ⟨events, hvisit⟩ := Decoder.Balanced.lasting.visits _ hw hbalanced
    rw [← hlimit, ← Decoder.Visits.limit hw, hvisit.used_add_remaining]
    exact ⟨rfl, hvisit.used_add_buffered_le⟩

end FieldCompression
