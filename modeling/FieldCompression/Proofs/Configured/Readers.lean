import FieldCompression.Proofs.FieldLine.Stages
import FieldCompression.Proofs.FieldSection.Prefix

/-!
# Readers that know what to read

A reader of integers or strings can be in a state in which nothing is expected of it, and then it
fails for being used at all. Readers of prefixes and of lines are made of such readers, and they
must never hand octets to one of them before telling it what to read.

`Configured` says of each kind of reader that it expects something, and that the readers it is made
of do. It is about the stage at hand only: the reader of a value is made when the name has been
read. From a configured reader a call leads to a configured one, and does not fail for misuse.
-/

namespace FieldCompression

/-! ## Integers -/

namespace PrefixedInteger.Reader

/-- An integer is expected. -/
def Configured (r : Reader) : Prop := r ≠ unconfigured

variable {r : Reader} {input : Bytes}

private theorem configured_readContinuation (value shift : Nat) (input : Bytes) :
    (readContinuation value shift input).state.Configured := by
  induction input generalizing value shift with
  | nil => simp [readContinuation, Configured]
  | cons byte rest ih =>
    simp only [readContinuation]
    split
    · simp [Configured]
    · split
      · simp [Configured]
      · exact ih _ _

theorem Configured.read (h : r.Configured) (input : Bytes) :
    (r.read input).state.Configured := by
  cases r with
  | unconfigured => exact absurd rfl h
  | start bits =>
    cases input with
    | nil => exact h
    | cons byte rest =>
      simp only [Reader.read]
      split
      · simp [Configured]
      · exact configured_readContinuation _ _ _
  | continuation value shift => exact configured_readContinuation value shift input
  | done value => exact h

theorem Configured.cause (h : r.Configured) {cause : Error}
    (hcause : (r.read input).result = .error cause) : cause = .integerOverflow := by
  cases r with
  | unconfigured => exact absurd rfl h
  | start bits =>
    cases input with
    | nil => exact absurd hcause (by simp [Reader.read])
    | cons byte rest =>
      simp only [Reader.read] at hcause
      split at hcause
      · exact absurd hcause (by simp)
      · exact cause_readContinuation hcause
  | continuation value shift => exact cause_readContinuation hcause
  | done value => exact absurd hcause (by simp [Reader.read])

end PrefixedInteger.Reader

/-! ## Prefixes of sections -/

namespace SectionPrefix.Reader

/-- A prefix is expected, and the integer of the present stage. -/
def Configured : Reader → Prop
  | insertCount int | delta _ _ int => int.Configured
  | sign _ | done _ => True

variable {r : Reader} {table : TableView} {input : Bytes}

theorem configured_fresh : fresh.Configured := by simp [fresh, Configured,
  PrefixedInteger.Reader.Configured]

theorem configured_readDelta {count : Nat} {negative : Bool} {int : PrefixedInteger.Reader}
    (h : int.Configured) (input : Bytes) :
    (readDelta count negative int input).state.Configured ∧
      (readDelta count negative int input).result ≠ .error .invalidState := by
  simp only [readDelta]
  rcases hint : (int.read input).result with cause | _ | distance
  · obtain rfl := h.cause hint
    exact ⟨h.read input, by simp⟩
  · exact ⟨h.read input, by simp⟩
  · rcases hbase : baseOf count negative distance with cause | base
    · obtain rfl := baseOf_eq_error hbase
      simp only [hbase]
      exact ⟨h.read input, by simp⟩
    · simp [hbase, Configured]

private theorem configured_readSign (count : Nat) (input : Bytes) :
    (readSign count input).state.Configured ∧
      (readSign count input).result ≠ .error .invalidState := by
  cases input with
  | nil => simp [readSign, Configured]
  | cons byte rest =>
    exact configured_readDelta (by simp [PrefixedInteger.Reader.Configured]) (byte :: rest)

/-- **Prefixes.** A call on the octets of a prefix leaves its reader configured, and does not fail
for misuse. -/
theorem Configured.read (h : r.Configured) (table : TableView) (input : Bytes) :
    (r.read table input).state.Configured ∧
      (r.read table input).result ≠ .error .invalidState := by
  cases r with
  | insertCount int =>
    simp only [Reader.read]
    rcases hint : (int.read input).result with cause | _ | encoded
    · obtain rfl := PrefixedInteger.Reader.Configured.cause h hint
      exact ⟨PrefixedInteger.Reader.Configured.read h input, by simp⟩
    · exact ⟨PrefixedInteger.Reader.Configured.read h input, by simp⟩
    · rcases hcount : reconstruct encoded table.maxEntries table.insertCount with cause | count
      · obtain rfl := reconstruct_eq_error hcount
        simp only [hcount]
        exact ⟨PrefixedInteger.Reader.Configured.read h input, by simp⟩
      · simp only [hcount]
        exact configured_readSign count _
  | sign count => exact configured_readSign count input
  | delta count negative int => exact configured_readDelta h input
  | done value => simp [Reader.read, Configured]

end SectionPrefix.Reader

/-! ## Strings -/

namespace StringLiteral.Reader

/-- A string is expected, and the integer of its length once its flag has been read. -/
def Configured (r : Reader) : Prop :=
  match r.phase with
  | .unconfigured => False
  | .length int => int.Configured
  | .flag _ | .payload .. | .done => True

variable {r : Reader} {input : Bytes}

private theorem configured_withLimit {limit : Nat} :
    (r.withLimit limit).Configured ↔ r.Configured := Iff.rfl

theorem configured_start (bits : Nat) : (start bits).Configured := trivial

theorem configured_readPayload (r : Reader) (remaining decoded : Nat) (decoder : Huffman.Decoder)
    (input : Bytes) :
    (r.readPayload remaining decoded decoder input).state.Configured ∧
      (r.readPayload remaining decoded decoder input).result ≠ .error .invalidState := by
  simp only [readPayload]
  (repeat' split) <;> simp [Configured]

private theorem configured_readLength {int : PrefixedInteger.Reader} (h : int.Configured)
    (input : Bytes) :
    (r.readLength int input).state.Configured ∧
      (r.readLength int input).result ≠ .error .invalidState := by
  simp only [readLength]
  rcases hint : (int.read input).result with cause | _ | length
  · obtain rfl := h.cause hint
    exact ⟨h.read input, by simp⟩
  · exact ⟨h.read input, by simp⟩
  · by_cases hlong : r.payloadLimit < length
    · simp only [hlong, if_true]
      exact ⟨h.read input, by simp⟩
    · simp only [hlong, if_false]
      exact configured_readPayload r length 0 {} _

/-- **Strings.** A call on the octets of a string leaves its reader configured, and does not fail
for misuse. -/
theorem Configured.read (h : r.Configured) (input : Bytes) :
    (r.read input).state.Configured ∧ (r.read input).result ≠ .error .invalidState := by
  rcases hphase : r.phase with _ | bits | int | ⟨remaining, decoded, decoder⟩ | _
  · rw [Configured, hphase] at h
    exact absurd h not_false
  · cases input with
    | nil => simp [Reader.read, hphase, Configured]
    | cons byte rest =>
      simp only [Reader.read, hphase]
      exact configured_readLength (by simp [PrefixedInteger.Reader.Configured]) (byte :: rest)
  · rw [Configured, hphase] at h
    simp only [Reader.read, hphase]
    exact configured_readLength h input
  · simp only [Reader.read, hphase]
    exact configured_readPayload r remaining decoded decoder input
  · simp [Reader.read, hphase, Configured]

end StringLiteral.Reader

/-! ## Lines -/

namespace FieldLine.Reader

/-- A line has begun, and the item of its present stage is expected. -/
def Configured : Reader → Prop
  | idle => False
  | entryIndex _ int | nameIndex _ _ int => int.Configured
  | nameValue _ _ _ string _ | literalName _ string _ | literalValue _ _ string _ =>
    string.Configured

variable {ctx : Context} {r : Reader} {input content : Bytes} {int : PrefixedInteger.Reader}
  {string : StringLiteral.Reader}

theorem configured_ofByte (first : UInt8) : (ofByte first).Configured := by
  have hstart (bits : Nat) : (PrefixedInteger.Reader.start bits).Configured := by
    simp [PrefixedInteger.Reader.Configured]
  simp only [ofByte]
  split
  · exact hstart 6
  split
  · exact hstart 4
  split
  · exact StringLiteral.Reader.configured_start 3
  split
  · exact hstart 4
  · exact hstart 3

private theorem configured_valueReader (limit : Nat) : (valueReader limit).Configured :=
  StringLiteral.Reader.configured_start 7

/-- A call that did not fail for misuse, and left its reader configured if the line has not come to
its end. -/
structure Safe (x : Reading) : Prop where
  /-- It did not fail for misuse. -/
  result_ne : x.result ≠ .error .invalidState
  /-- An unfinished line can be read on in. -/
  pending : x.result = .ok none → x.state.Configured

theorem safe_finish (ctx : Context) (line : FieldLine) (r : Reader) (rest : Bytes) :
    Safe (finish ctx line r rest) := by
  refine ⟨?_, fun hpending ↦ absurd hpending (result_finish_ne_pending ctx line r rest)⟩
  by_cases hdenotes : ∃ e, Denotes ctx.sectionPrefix ctx.table line e
  · obtain ⟨e, he⟩ := hdenotes
    obtain ⟨field, hfield⟩ := he.exists_field
    by_cases hle : ctx.size.used + field.size ≤ ctx.size.limit
    · obtain ⟨notes, hfinish⟩ := finish_of_denotes_of_le he hfield hle r rest
      simp [hfinish]
    · obtain ⟨notes, hfinish⟩ := finish_of_denotes_of_lt he hfield (Nat.not_le.mp hle) r rest
      simp [hfinish]
  · obtain ⟨addressing, index, notes, -, hfinish⟩ :=
      finish_of_not_denotes (fun e he ↦ hdenotes ⟨e, he⟩) r rest
    rw [hfinish]
    cases addressing <;> simp [Context.missing]

private theorem safe_readIndex (h : int.Configured) {unfinished : PrefixedInteger.Reader → Reader}
    {next : Nat → Reader → Bytes → Reading}
    (hunfinished : ∀ int, int.Configured → (unfinished int).Configured)
    (hnext : ∀ i r rest, Safe (next i r rest)) :
    Safe (readIndex ctx int input unfinished next) := by
  refine ⟨?_, state_readIndex (fun _ ↦ hunfinished _ (h.read input))
    fun i r rest ↦ (hnext i r rest).pending⟩
  simp only [readIndex]
  rcases hint : (int.read input).result with cause | _ | i
  · obtain rfl := h.cause hint
    simp
  · simp
  · exact (hnext _ _ _).result_ne

theorem safe_readText (h : string.Configured) {unfinished : StringLiteral.Reader → Bytes → Reader}
    {next : StringLiteral → Reader → Bytes → Reading}
    (hunfinished : ∀ string content, string.Configured → (unfinished string content).Configured)
    (hnext : ∀ s r rest, Safe (next s r rest)) :
    Safe (readText ctx string content input unfinished next) := by
  obtain ⟨hstate, hresult⟩ := h.read input
  refine ⟨?_, state_readText (fun _ ↦ hunfinished _ _ hstate)
    fun r rest _ ↦ (hnext _ r rest).pending⟩
  simp only [readText, Context.result_readString]
  rcases hstring : (string.read input).result with cause | _ | _
  · simpa [hstring] using hresult
  · simp
  · exact (hnext _ _ _).result_ne

private theorem safe_read_nameValue (h : string.Configured) (addressing : Addressing)
    (neverIndexed : Bool) (index : Nat) (value input : Bytes) :
    Safe ((nameValue addressing neverIndexed index string value).read ctx input) := by
  rw [read_nameValue]
  exact safe_readText h (fun _ _ hstring ↦ hstring) fun _ ↦ safe_finish ctx _

private theorem safe_read_literalValue (h : string.Configured) (neverIndexed : Bool)
    (name : StringLiteral) (value input : Bytes) :
    Safe ((literalValue neverIndexed name string value).read ctx input) := by
  rw [read_literalValue]
  exact safe_readText h (fun _ _ hstring ↦ hstring) fun _ ↦ safe_finish ctx _

/-- **Lines.** A call on a line that has begun leaves its reader configured if the line has not come
to its end, and does not fail for misuse. -/
theorem Configured.read (h : r.Configured) (ctx : Context) (input : Bytes) :
    Safe (r.read ctx input) := by
  cases r with
  | idle => exact absurd h not_false
  | entryIndex addressing int =>
    rw [read_entryIndex]
    exact safe_readIndex h (fun _ hint ↦ hint) fun _ ↦ safe_finish ctx _
  | nameIndex addressing neverIndexed int =>
    rw [read_nameIndex]
    refine safe_readIndex h (fun _ hint ↦ hint) fun i _ rest ↦ ?_
    exact safe_read_nameValue (configured_valueReader _) addressing neverIndexed i [] rest
  | nameValue addressing neverIndexed index string value =>
    exact safe_read_nameValue h addressing neverIndexed index value input
  | literalName neverIndexed string name =>
    rw [read_literalName]
    refine safe_readText (StringLiteral.Reader.configured_withLimit.mpr h)
      (fun _ _ hstring ↦ hstring) fun name _ rest ↦ ?_
    exact safe_read_literalValue (configured_valueReader _) neverIndexed name [] rest
  | literalValue neverIndexed name string value =>
    exact safe_read_literalValue h neverIndexed name value input

end FieldLine.Reader

end FieldCompression
