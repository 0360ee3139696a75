import FieldCompression.StringLiteral

/-!
# Integers, prefixes and strings cut anywhere

A resumable reader that is given `a` and then `b` must come to the same end as one that is given
`a ++ b`. `Outcome.resume` says what the first reader does: it goes on with `b` if the item was
still incomplete, and otherwise leaves `b` unread.
-/

namespace FieldCompression

/-! ## What a call of a reader leaves

Two things hold of every call of an integer or string reader, whatever state the reader is in. A
call that wants more octets has taken the whole chunk, so nothing is left behind at the end of a
chunk. And a call that fails does so for one of a few causes, which are about the octets: none of
them has to do with a table. -/

/-- The causes that reading octets can fail for, as opposed to what the octets mean. -/
def readingErrors : List Error :=
  [.integerOverflow, .invalidHuffmanEncoding, .headerListTooLarge, .invalidState]

/-- What is true of every call. -/
structure Outcome.Tidy {σ α : Type} (o : Outcome σ α) : Prop where
  /-- A call that wants more has taken the whole chunk. -/
  pending : o.result = .ok none → o.rest = []
  /-- A call that failed did so over the octets. -/
  cause : ∀ cause, o.result = .error cause → cause ∈ readingErrors

namespace Outcome

variable {σ α : Type} {state : σ} {rest : Bytes}

theorem tidy_error {cause : Error} (h : cause ∈ readingErrors) :
    Tidy (⟨.error cause, state, rest⟩ : Outcome σ α) :=
  ⟨by simp, fun _ hcause ↦ Except.error.inj hcause ▸ h⟩

theorem tidy_pending : Tidy (⟨.ok none, state, []⟩ : Outcome σ α) := ⟨fun _ ↦ rfl, by simp⟩

theorem tidy_done (item : α) : Tidy (⟨.ok (some item), state, rest⟩ : Outcome σ α) :=
  ⟨by simp, by simp⟩

end Outcome

open Outcome

/-! ### Integers -/

namespace PrefixedInteger.Reader

private theorem tidy_readContinuation (value shift : Nat) (input : Bytes) :
    (readContinuation value shift input).Tidy := by
  induction input generalizing value shift with
  | nil => exact tidy_pending
  | cons byte rest ih =>
    simp only [readContinuation]
    split
    · exact tidy_error (by decide)
    · split
      · exact tidy_done _
      · exact ih _ _

theorem tidy_read (r : Reader) (input : Bytes) : (r.read input).Tidy := by
  cases r with
  | unconfigured => exact tidy_error (by decide)
  | start bits =>
    cases input with
    | nil => exact tidy_pending
    | cons byte rest =>
      simp only [read]
      split
      · exact tidy_done _
      · exact tidy_readContinuation _ _ _
  | continuation value shift => exact tidy_readContinuation _ _ _
  | done value => exact tidy_done _

theorem cause_readContinuation {value shift : Nat} {input : Bytes} {cause : Error}
    (h : (readContinuation value shift input).result = .error cause) :
    cause = .integerOverflow := by
  induction input generalizing value shift with
  | nil => exact absurd h (by simp [readContinuation])
  | cons byte rest ih =>
    simp only [readContinuation] at h
    split at h
    · exact (Except.error.inj h).symm
    · split at h
      · exact absurd h (by simp)
      · exact ih h

theorem cause_read {r : Reader} {input : Bytes} {cause : Error}
    (h : (r.read input).result = .error cause) :
    cause = .integerOverflow ∨ cause = .invalidState := by
  cases r with
  | unconfigured => exact .inr (Except.error.inj h).symm
  | start bits =>
    cases input with
    | nil => exact absurd h (by simp [read])
    | cons byte rest =>
      simp only [read] at h
      split at h
      · exact absurd h (by simp)
      · exact .inl (cause_readContinuation h)
  | continuation value shift => exact .inl (cause_readContinuation h)
  | done value => exact absurd h (by simp [read])

end PrefixedInteger.Reader

/-! ### Strings -/

namespace StringLiteral.Reader

theorem tidy_readPayload (r : Reader) (remaining decoded : Nat) (decoder : Huffman.Decoder)
    (input : Bytes) : (r.readPayload remaining decoded decoder input).Tidy := by
  simp only [readPayload]
  split
  · exact tidy_error (by decide)
  split
  · exact tidy_error (by decide)
  split
  · rename_i hpart
    rw [List.drop_eq_nil_of_le (by omega)]
    exact tidy_pending
  split
  · exact tidy_error (by decide)
  · exact tidy_done _

private theorem tidy_readLength (r : Reader) (int : PrefixedInteger.Reader) (input : Bytes) :
    (r.readLength int input).Tidy := by
  have hint := int.tidy_read input
  simp only [readLength]
  rcases hresult : (int.read input).result with cause | _ | length
  · exact tidy_error (hint.cause _ hresult)
  · rw [hint.pending hresult]
    exact tidy_pending
  · simp only
    split
    · exact tidy_error (by decide)
    · exact tidy_readPayload _ _ _ _ _

theorem tidy_read (r : Reader) (input : Bytes) : (r.read input).Tidy := by
  rw [read]
  split
  · exact tidy_error (by decide)
  · split
    · exact tidy_pending
    · exact tidy_readLength _ _ _
  · exact tidy_readLength _ _ _
  · exact tidy_readPayload _ _ _ _ _
  · exact tidy_done _

/-! #### The limit -/

theorem limit_readPayload (r : Reader) (remaining decoded : Nat) (decoder : Huffman.Decoder)
    (input : Bytes) : (r.readPayload remaining decoded decoder input).state.limit = r.limit := by
  simp only [readPayload]
  (repeat' split) <;> rfl

private theorem limit_readLength (r : Reader) (int : PrefixedInteger.Reader) (input : Bytes) :
    (r.readLength int input).state.limit = r.limit := by
  simp only [readLength]
  split
  · rfl
  · rfl
  · split
    · rfl
    · exact limit_readPayload _ _ _ _ _

theorem limit_read (r : Reader) (input : Bytes) : (r.read input).state.limit = r.limit := by
  rw [read]
  split
  · rfl
  · split
    · rfl
    · exact limit_readLength _ _ _
  · exact limit_readLength _ _ _
  · exact limit_readPayload _ _ _ _ _
  · rfl

theorem withLimit_of_limit_eq {r : Reader} {limit : Nat} (h : r.limit = limit) :
    r.withLimit limit = r := by
  subst h
  rfl

end StringLiteral.Reader

/-! ## Two calls

For integers and for the prefix of a section the two ways are the same in every respect. For strings
they are the same unless they fail. A call decodes all of the payload that it is given before it
compares with the limit, so a string that is both too long and wrongly coded fails for one reason
or for the other, depending on where it was cut. `StringLiteral.Reading.Agree` leaves that open and
nothing else. -/

/-- Whether a call failed, for whatever cause. -/
def Failed {α : Type} (result : Except Error α) : Prop := ∃ cause, result = .error cause

@[simp] theorem failed_error {α : Type} (cause : Error) :
    Failed (.error cause : Except Error α) := ⟨cause, rfl⟩

@[simp] theorem not_failed_ok {α : Type} (item : α) : ¬Failed (.ok item) := by
  rintro ⟨_, h⟩
  exact absurd h (by simp)

/-- A call on a chunk and, if the item was not complete by then, a call on more octets. -/
def Outcome.resume {σ α : Type} (read : σ → Bytes → Outcome σ α) (o : Outcome σ α)
    (more : Bytes) : Outcome σ α :=
  match o.result with
  | .ok none => read o.state more
  | _ => { o with rest := o.rest ++ more }

/-! ### Integers -/

namespace PrefixedInteger.Reader

private theorem readContinuation_append (value shift : Nat) (a b : Bytes) :
    readContinuation value shift (a ++ b) = (readContinuation value shift a).resume read b := by
  induction a generalizing value shift with
  | nil => rfl
  | cons byte rest ih =>
    simp only [List.cons_append, readContinuation]
    split
    · rfl
    · split
      · rfl
      · exact ih _ _

/-- **Integers cut anywhere.** -/
theorem read_append (r : Reader) (a b : Bytes) : r.read (a ++ b) = (r.read a).resume read b := by
  cases r with
  | unconfigured => rfl
  | start bits =>
    cases a with
    | nil => rfl
    | cons byte rest =>
      simp only [List.cons_append, read]
      split
      · rfl
      · exact readContinuation_append _ _ _ _
  | continuation value shift => exact readContinuation_append _ _ _ _
  | done value => rfl

end PrefixedInteger.Reader

/-! ### Prefixes of sections -/

namespace SectionPrefix.Reader

theorem readDelta_append (table : TableView) (count : Nat) (negative : Bool)
    (int : PrefixedInteger.Reader) (a b : Bytes) :
    readDelta count negative int (a ++ b)
      = (readDelta count negative int a).resume (read table) b := by
  rw [readDelta, readDelta, int.read_append]
  rcases h : (int.read a).result with cause | _ | distance
  · simp [Outcome.resume, h]
  · simp only [Outcome.resume, h, read]
    rw [readDelta]
  · simp only [Outcome.resume, h]
    cases baseOf count negative distance <;> rfl

theorem readSign_append (table : TableView) (count : Nat) (a b : Bytes) :
    readSign count (a ++ b) = (readSign count a).resume (read table) b := by
  cases a with
  | nil => rfl
  | cons byte rest => exact readDelta_append table _ _ _ (byte :: rest) b

/-- **Prefixes cut anywhere.** The table is the same for both calls, since it is what a Required
Insert Count is reconstructed from. -/
theorem read_append (table : TableView) (r : Reader) (a b : Bytes) :
    r.read table (a ++ b) = (r.read table a).resume (read table) b := by
  cases r with
  | insertCount int =>
    rw [read, read, int.read_append]
    rcases h : (int.read a).result with cause | _ | encoded
    · simp [Outcome.resume, h]
    · simp only [Outcome.resume, h, read]
    · simp only [Outcome.resume, h]
      cases reconstruct encoded table.maxEntries table.insertCount with
      | error cause => rfl
      | ok count => exact readSign_append table count _ b
  | sign count => exact readSign_append table count a b
  | delta count negative int => exact readDelta_append table count negative int a b
  | done value => rfl

end SectionPrefix.Reader

/-! ### Strings -/

namespace StringLiteral

/-- A call on a chunk and, if the string was not complete by then, a call on more octets. -/
def Reading.resume (s : Reading) (more : Bytes) : Reading :=
  match s.result with
  | .ok none =>
    let t := s.state.read more
    { t with output := s.output ++ t.output, notes := s.notes ++ t.notes }
  | _ => { s with rest := s.rest ++ more }

/-- Readings that are the same, unless both failed. -/
def Reading.Agree (x y : Reading) : Prop := x = y ∨ Failed x.result ∧ Failed y.result

theorem Reading.failed_resume {s : Reading} (h : Failed s.result) (more : Bytes) :
    Failed (s.resume more).result := by
  obtain ⟨cause, hcause⟩ := h
  exact ⟨cause, by simp [Reading.resume, hcause]⟩

namespace Reader

theorem expand_append_of_accepted {r : Reader} {d : Huffman.Decoder} {a : Bytes}
    (h : (r.expand d a).accepted = true) (b : Bytes) :
    r.expand d (a ++ b) =
      { r.expand (r.expand d a).decoder b with
        output := (r.expand d a).output ++ (r.expand (r.expand d a).decoder b).output } := by
  simp only [expand] at h ⊢
  split at h
  · rename_i hcoded
    simp only [hcoded, if_true]
    exact Huffman.Decoder.decode_append_of_accepted h b
  · rename_i hraw
    simp [hraw]

theorem expand_append_of_refused {r : Reader} {d : Huffman.Decoder} {a : Bytes}
    (h : (r.expand d a).accepted = false) (b : Bytes) : r.expand d (a ++ b) = r.expand d a := by
  simp only [expand] at h ⊢
  split at h
  · rename_i hcoded
    rw [if_pos hcoded, if_pos hcoded]
    exact Huffman.Decoder.decode_append_of_refused h b
  · exact absurd h (by simp)

/-! #### The payload -/

section Payload

variable {r : Reader} {remaining decoded : Nat} {decoder : Huffman.Decoder} {input : Bytes}

theorem failed_readPayload_of_refused
    (h : (r.expand decoder (input.take (min remaining input.length))).accepted = false) :
    Failed (r.readPayload remaining decoded decoder input).result := by
  simp [readPayload, h]

theorem failed_readPayload_of_limit_lt
    (h : r.limit < decoded +
      (r.expand decoder (input.take (min remaining input.length))).output.length) :
    Failed (r.readPayload remaining decoded decoder input).result := by
  simp only [readPayload, if_pos h]
  split <;> exact failed_error _

/-- A call that ends within the payload, if nothing is wrong with what it has got. -/
theorem readPayload_of_length_lt (hlen : input.length < remaining)
    (hacc : (r.expand decoder input).accepted = true)
    (hfit : ¬r.limit < decoded + (r.expand decoder input).output.length) :
    r.readPayload remaining decoded decoder input =
      { result := .ok none
        state :=
          { r with
            phase := .payload (remaining - input.length)
              (decoded + (r.expand decoder input).output.length) (r.expand decoder input).decoder }
        rest := [], output := (r.expand decoder input).output } := by
  simp [readPayload, Nat.min_eq_right (Nat.le_of_lt hlen), hacc, hfit, hlen]

end Payload

theorem exists_take_append {remaining : Nat} {a : Bytes} (hlen : a.length < remaining)
    (b : Bytes) : ∃ more, (a ++ b).take (min remaining (a ++ b).length) = a ++ more := by
  refine ⟨b.take (min remaining (a ++ b).length - a.length), ?_⟩
  rw [List.take_append, List.take_of_length_le]
  rw [List.length_append]
  omega

theorem readPayload_append_of_le {remaining : Nat} {a : Bytes} (hlen : remaining ≤ a.length)
    (r : Reader) (decoded : Nat) (decoder : Huffman.Decoder) (b : Bytes) :
    r.readPayload remaining decoded decoder (a ++ b)
      = (r.readPayload remaining decoded decoder a).resume b := by
  have htake : (a ++ b).take remaining = a.take remaining := List.take_append_of_le_length hlen
  have hdrop : (a ++ b).drop remaining = a.drop remaining ++ b := List.drop_append_of_le_length hlen
  have hmin : min remaining (a ++ b).length = remaining := by
    rw [List.length_append]
    omega
  simp only [readPayload, hmin, Nat.min_eq_left hlen, htake, hdrop, Nat.lt_irrefl, if_false]
  split
  · rfl
  split
  · rfl
  split <;> rfl

/-- The call after one that ended within the payload takes as much as a call on both would have
taken more, and what both decode is what the one would have decoded. If they fail they differ in
what they have stored, but not in the cause. -/
theorem readPayload_append_of_lt {r : Reader} {remaining decoded : Nat} {decoder : Huffman.Decoder}
    {a : Bytes} (hlen : a.length < remaining) (hacc : (r.expand decoder a).accepted = true)
    (hfit : ¬r.limit < decoded + (r.expand decoder a).output.length) (b : Bytes) :
    let x := r.readPayload remaining decoded decoder (a ++ b)
    let y := (r.readPayload remaining decoded decoder a).resume b
    x = y ∨ Failed x.result ∧ x.result = y.result := by
  intro x y
  -- what the second call takes of `b`
  obtain ⟨k, hk⟩ : ∃ k, k = min (remaining - a.length) b.length := ⟨_, rfl⟩
  have hboth : min remaining (a.length + b.length) = a.length + k := by omega
  have htake : (a ++ b).take (a.length + k) = a ++ b.take k := List.take_length_add_append k
  have hdrop : (a ++ b).drop (a.length + k) = b.drop k := List.drop_length_add_append k
  have hcontent := expand_append_of_accepted hacc (b.take k)
  have hphase (phase : Phase) (d : Huffman.Decoder) (part : Bytes) :
      ({ r with phase := phase } : Reader).expand d part = r.expand d part := rfl
  simp only [x, y]
  rw [readPayload_of_length_lt hlen hacc hfit]
  simp only [Reading.resume, read, readPayload, List.length_append, hboth, htake, hdrop, hcontent,
    ← hk, hphase]
  generalize r.expand (r.expand decoder a).decoder (b.take k) = second
  generalize r.expand decoder a = first
  have hlt : a.length + k < remaining ↔ k < remaining - a.length := by omega
  have hsub : remaining - (a.length + k) = remaining - a.length - k := by omega
  simp only [hlt, hsub, Nat.add_assoc]
  split
  · exact .inr ⟨failed_error _, rfl⟩
  split
  · exact .inr ⟨failed_error _, rfl⟩
  split
  · exact .inl rfl
  split
  · exact .inr ⟨failed_error _, rfl⟩
  · exact .inl rfl

private theorem readPayload_append (r : Reader) (remaining decoded : Nat)
    (decoder : Huffman.Decoder) (a b : Bytes) :
    (r.readPayload remaining decoded decoder (a ++ b)).Agree
      ((r.readPayload remaining decoded decoder a).resume b) := by
  by_cases hlen : remaining ≤ a.length
  · exact .inl (readPayload_append_of_le hlen r decoded decoder b)
  -- from here on all of `a` is payload, and a call on both takes at least that
  have hmin : min remaining a.length = a.length := by omega
  obtain ⟨more, hmore⟩ := exists_take_append (Nat.lt_of_not_le hlen) b
  by_cases hacc : (r.expand decoder a).accepted = true
  · by_cases hfit : r.limit < decoded + (r.expand decoder a).output.length
    · refine .inr ⟨failed_readPayload_of_limit_lt ?_, Reading.failed_resume ?_ b⟩
      · rw [hmore, expand_append_of_accepted hacc more, List.length_append]
        omega
      · exact failed_readPayload_of_limit_lt (by rwa [hmin, List.take_length])
    · rcases readPayload_append_of_lt (Nat.lt_of_not_le hlen) hacc hfit b with heq | ⟨hboth, hcause⟩
      · exact .inl heq
      · exact .inr ⟨hboth, hcause ▸ hboth⟩
  · rw [Bool.not_eq_true] at hacc
    refine .inr ⟨failed_readPayload_of_refused ?_, Reading.failed_resume ?_ b⟩
    · rw [hmore, expand_append_of_refused hacc, hacc]
    · exact failed_readPayload_of_refused (by rwa [hmin, List.take_length])

/-! #### The whole string -/

/-- Two calls that come to the same payload, of which the first is given `more` than the second. -/
def BothInPayload (more : Bytes) (x y : Reading) : Prop :=
  ∃ (r : Reader) (remaining decoded : Nat) (decoder : Huffman.Decoder) (rest : Bytes),
    x = r.readPayload remaining decoded decoder (rest ++ more) ∧
      y = r.readPayload remaining decoded decoder rest

private theorem readLength_append_or_payload (r : Reader) (int : PrefixedInteger.Reader)
    (a b : Bytes) :
    r.readLength int (a ++ b) = (r.readLength int a).resume b ∨
      BothInPayload b (r.readLength int (a ++ b)) (r.readLength int a) := by
  simp only [readLength, int.read_append]
  rcases h : (int.read a).result with cause | _ | length
  · exact .inl (by simp [Outcome.resume, h, Reading.resume])
  · left
    simp only [Outcome.resume, h, Reading.resume, read, List.nil_append]
    rfl
  · simp only [Outcome.resume, h]
    by_cases hlimit : r.payloadLimit < length
    · exact .inl (by simp only [hlimit, if_true]; rfl)
    · simp only [hlimit, if_false]
      exact .inr ⟨r, length, 0, {}, _, rfl, rfl⟩

/-- Where the octets are cut makes a difference only to a call that reads of the payload. -/
theorem read_append_or_payload (r : Reader) (a b : Bytes) :
    r.read (a ++ b) = (r.read a).resume b ∨ BothInPayload b (r.read (a ++ b)) (r.read a) := by
  rcases h : r.phase with _ | bits | int | ⟨remaining, decoded, decoder⟩ | _
  · exact .inl (by simp [read, h, Reading.resume])
  · cases a with
    | nil => exact .inl (by simp [read, h, Reading.resume])
    | cons byte rest =>
      simp only [List.cons_append, read, h]
      exact readLength_append_or_payload _ _ (byte :: rest) b
  · simp only [read, h]
    exact readLength_append_or_payload _ _ _ _
  · simp only [read, h]
    exact .inr ⟨r, remaining, decoded, decoder, a, rfl, rfl⟩
  · exact .inl (by simp [read, h, Reading.resume])

/-- **Strings cut anywhere.** -/
theorem read_append (r : Reader) (a b : Bytes) :
    (r.read (a ++ b)).Agree ((r.read a).resume b) := by
  rcases r.read_append_or_payload a b with heq | ⟨r', _, _, _, _, hwhole, hfirst⟩
  · exact .inl heq
  · rw [hwhole, hfirst]
    exact r'.readPayload_append _ _ _ _ _

/-- A string that fails early fails with more octets. -/
theorem failed_read_append {r : Reader} {a : Bytes} (h : Failed (r.read a).result) (b : Bytes) :
    Failed (r.read (a ++ b)).result := by
  rcases r.read_append a b with heq | ⟨hboth, -⟩
  · exact heq ▸ Reading.failed_resume h b
  · exact hboth

theorem read_append_of_done {r : Reader} {a : Bytes} (h : (r.read a).result = .ok (some ()))
    (b : Bytes) : r.read (a ++ b) = { r.read a with rest := (r.read a).rest ++ b } := by
  rcases r.read_append a b with heq | ⟨-, hresume⟩
  · simpa only [Reading.resume, h] using heq
  · exact absurd hresume (by simp [Reading.resume, h])

end Reader

end StringLiteral

/-! ## Any number of calls

A caller that has an item in chunks hands them to a reader one after the other until the item is
complete or the reader fails. `Outcome.readChunks` is this loop. What a call leaves unread is kept,
also where the next chunk is read all the same, so nothing can be skipped between two chunks without
being seen.

For a reader of which `Resumable` holds, the loop comes to what one call on all the octets comes
to. -/

namespace Outcome

variable {σ α : Type}

/-- Hands chunks to a reader until its item is complete or it fails. What was not consumed is what
the calls left unread, and the chunks after the last call. -/
def readChunks (read : σ → Bytes → Outcome σ α) (reader : σ) : List Bytes → Outcome σ α
  | [] => ⟨.ok none, reader, []⟩
  | chunk :: chunks =>
    let o := read reader chunk
    match o.result with
    | .ok none =>
      let more := readChunks read o.state chunks
      { more with rest := o.rest ++ more.rest }
    | _ => { o with rest := o.rest ++ chunks.flatten }

/-- A reader goes on where it stopped, and it stops for want of octets only. -/
structure Resumable (read : σ → Bytes → Outcome σ α) : Prop where
  /-- A call on two chunks is a call on the first, and on the second if need be. -/
  append : ∀ r a b, read r (a ++ b) = (read r a).resume read b
  /-- A call that wants more has taken the whole chunk. -/
  pending : ∀ r input, (read r input).result = .ok none → (read r input).rest = []

variable {read : σ → Bytes → Outcome σ α} {reader : σ}

/-- A reader that wants more is not changed by being given nothing. -/
theorem Resumable.read_nil (h : Resumable read) {chunk : Bytes}
    (hpending : (read reader chunk).result = .ok none) :
    read (read reader chunk).state [] = ⟨.ok none, (read reader chunk).state, []⟩ := by
  have happend := h.append reader chunk []
  rw [List.append_nil, resume] at happend
  simp only [hpending] at happend
  rw [← happend, ← hpending, ← h.pending reader chunk hpending]

/-- **Chunks.** However the octets are cut, reading them comes to the same. -/
theorem Resumable.readChunks_eq (h : Resumable read)
    (hnil : read reader [] = ⟨.ok none, reader, []⟩) (chunks : List Bytes) :
    readChunks read reader chunks = read reader chunks.flatten := by
  induction chunks generalizing reader with
  | nil => rw [readChunks, List.flatten_nil, hnil]
  | cons chunk chunks ih =>
    rw [readChunks, List.flatten_cons, h.append]
    rcases hresult : (read reader chunk).result with cause | _ | item
    · simp only [resume, hresult]
    · -- nothing of this chunk is left to be read before the next
      simp only [resume, hresult, h.pending reader chunk hresult, List.nil_append]
      exact ih (h.read_nil hresult)
    · simp only [resume, hresult]

end Outcome

/-! ### Integers and prefixes -/

theorem PrefixedInteger.Reader.resumable_read : Outcome.Resumable PrefixedInteger.Reader.read :=
  ⟨read_append, fun r input ↦ (tidy_read r input).pending⟩

namespace SectionPrefix.Reader

theorem pending_readDelta {count : Nat} {negative : Bool} {int : PrefixedInteger.Reader}
    {input : Bytes} (h : (readDelta count negative int input).result = .ok none) :
    (readDelta count negative int input).rest = [] := by
  simp only [readDelta] at h ⊢
  rcases hint : (int.read input).result with cause | _ | distance
  · simp [hint] at h
  · exact (int.tidy_read input).pending hint
  · rcases hbase : baseOf count negative distance with cause | base <;> simp [hint, hbase] at h

private theorem pending_readSign {count : Nat} {input : Bytes}
    (h : (readSign count input).result = .ok none) : (readSign count input).rest = [] := by
  cases input with
  | nil => rfl
  | cons byte rest => exact pending_readDelta h

theorem pending_read {r : Reader} {table : TableView} {input : Bytes}
    (h : (r.read table input).result = .ok none) : (r.read table input).rest = [] := by
  cases r with
  | insertCount int =>
    simp only [read] at h ⊢
    rcases hint : (int.read input).result with cause | _ | encoded
    · simp [hint] at h
    · exact (int.tidy_read input).pending hint
    · simp only [hint] at h ⊢
      rcases hcount : reconstruct encoded table.maxEntries table.insertCount with cause | count
      · simp [hcount] at h
      · simp only [hcount] at h
        exact pending_readSign h
  | sign count => exact pending_readSign h
  | delta count negative int => exact pending_readDelta h
  | done value => exact absurd h (by simp [read])

theorem resumable_read (table : TableView) : Outcome.Resumable (Reader.read table) :=
  ⟨read_append table, fun _ _ ↦ pending_read⟩

end SectionPrefix.Reader

end FieldCompression
