import FieldCompression.Proofs.Configured.Readers
import FieldCompression.Proofs.DynamicTable.History

/-!
# Instructions read again

The beginning of an instruction at the end of a chunk is kept, and it is read again from its first
octet with the next chunk after it, by readers that are made for the scan. So nothing has to be
known of a reader that stopped in the middle: neither for how the chunks are cut, nor for what a
call can fail for.
-/

namespace FieldCompression

/-! ## The stream cut anywhere

What is needed is that the front of a buffer is not changed by what comes after it. `Scan.Extends`
says so of what a scan finds: an item stays the item it was, and what no further octets could mend
is not mended. What was incomplete may turn out either way.

A string may be found invalid for another cause when it is read together with more octets, since all
of the payload at hand is decoded before it is compared with the limit. The cause of a failure is
therefore left open; that the call fails and the table it leaves are not. -/

/-! ### The front of a longer buffer -/

namespace Scan

variable {α β : Type} {s t : Scan α} {a more : Bytes}

/-- What the front of a buffer holds once there is more after it, by what it held before. -/
inductive Extends (more : Bytes) : Scan α → Scan α → Prop
  /-- A whole item is the same item. -/
  | item (value : α) (rest : Bytes) : Extends more (item value rest) (item value (rest ++ more))
  /-- The beginning of an item may become anything. -/
  | incomplete (t : Scan α) : Extends more incomplete t
  /-- What is invalid stays invalid. -/
  | invalid (cause cause' : Error) (notes notes' : List Note) :
    Extends more (invalid cause notes) (invalid cause' notes')

private theorem Extends.eq_item {value : α} {rest : Bytes}
    (h : (Scan.item value rest).Extends more t) : t = Scan.item value (rest ++ more) := by
  cases h
  rfl

private theorem Extends.exists_eq_invalid {cause : Error} {notes : List Note}
    (h : (Scan.invalid cause notes : Scan α).Extends more t) :
    ∃ cause' notes', t = Scan.invalid cause' notes' := by
  cases h with
  | invalid _ cause' _ notes' => exact ⟨cause', notes', rfl⟩

theorem Extends.andThen {next : α → Bytes → Scan β} (h : s.Extends more t)
    (hnext : ∀ value rest, (next value rest).Extends more (next value (rest ++ more))) :
    (s.andThen next).Extends more (t.andThen next) := by
  cases h with
  | item value rest => exact hnext value rest
  | incomplete t => exact .incomplete _
  | invalid cause cause' notes notes' => exact .invalid cause cause' notes notes'

theorem Extends.map (h : s.Extends more t) (f : α → β) : (s.map f).Extends more (t.map f) :=
  h.andThen fun value rest ↦ .item (f value) rest

theorem integer_append (bits : Nat) (a more : Bytes) :
    (integer bits a).Extends more (integer bits (a ++ more)) := by
  simp only [integer, PrefixedInteger.Reader.read_append]
  rcases hread : ((PrefixedInteger.Reader.start bits).read a).result with cause | _ | value
  · simp only [Outcome.resume, hread]
    exact .invalid cause cause [] []
  · exact .incomplete _
  · simp only [Outcome.resume, hread]
    exact .item value _

theorem exists_invalid_of_failed {limit bits : Nat} {input : Bytes}
    (h : Failed (((StringLiteral.Reader.start bits).withLimit limit).read input).result) :
    ∃ cause notes, string limit bits input = invalid cause notes := by
  obtain ⟨cause, hcause⟩ := h
  simp only [string, hcause]
  split
  · exact ⟨_, _, rfl⟩
  · exact ⟨_, _, rfl⟩
  · rename_i hok
    exact absurd hok (by simp)
  · rename_i hok
    exact absurd hok (by simp)

theorem string_append (limit bits : Nat) (a more : Bytes) :
    (string limit bits a).Extends more (string limit bits (a ++ more)) := by
  rcases hread : (((StringLiteral.Reader.start bits).withLimit limit).read a).result
    with cause | _ | _
  · have hfailed : Failed (((StringLiteral.Reader.start bits).withLimit limit).read a).result :=
      ⟨cause, hread⟩
    obtain ⟨_, _, ha⟩ := exists_invalid_of_failed hfailed
    obtain ⟨_, _, hboth⟩ :=
      exists_invalid_of_failed (StringLiteral.Reader.failed_read_append hfailed more)
    rw [ha, hboth]
    exact .invalid _ _ _ _
  · have hincomplete : string limit bits a = incomplete := by simp only [string, hread]
    rw [hincomplete]
    exact .incomplete _
  · simp only [string, StringLiteral.Reader.read_append_of_done hread, hread]
    exact .item _ _

end Scan

/-- **The front of a buffer.** More octets after it do not change an instruction. -/
theorem Instruction.scan_append (limit : Nat) (a more : Bytes) :
    (scan limit a).Extends more (scan limit (a ++ more)) := by
  cases a with
  | nil => exact .incomplete _
  | cons first tail =>
    rw [List.cons_append, scan, scan, ← List.cons_append]
    -- the first octet, which is the same, says which instruction it is
    split
    · refine (Scan.integer_append 6 _ more).andThen fun index rest ↦ ?_
      exact (Scan.string_append limit 7 rest more).map _
    split
    · refine (Scan.string_append limit 5 _ more).andThen fun name rest ↦ ?_
      exact (Scan.string_append limit 7 rest more).map _
    split
    · exact (Scan.integer_append 5 _ more).map _
    · exact (Scan.integer_append 5 _ more).map _

namespace DynamicTable

variable {t : DynamicTable} {u v w : Update}

/-! ### Chunk by chunk -/

/-- Two updates fail or succeed alike, and they leave the same table. -/
def Update.Same (u v : Update) : Prop := (Failed u.result ↔ Failed v.result) ∧ u.table = v.table

theorem Update.Same.rfl : u.Same u := ⟨Iff.rfl, Eq.refl _⟩

theorem Update.Same.symm (huv : u.Same v) : v.Same u := ⟨huv.1.symm, huv.2.symm⟩

theorem Update.Same.trans (huv : u.Same v) (hvw : v.Same w) : u.Same w :=
  ⟨huv.1.trans hvw.1, huv.2.trans hvw.2⟩

theorem Update.Same.ok (h : u.Same v) (hv : v.result = .ok ()) : u.result = .ok () := by
  rcases hu : u.result with cause | _
  · exact absurd (h.1.mp ⟨cause, hu⟩) (hv ▸ not_failed_ok ())
  · rfl

/-- Receives a further chunk, unless an earlier one has failed. -/
def Update.resume (u : Update) (chunk : Bytes) : Update :=
  match u.result with
  | .ok () => u.table.receive chunk
  | .error _ => u

theorem Update.Same.withNotes (u : Update) (notes : List Note) :
    u.Same { u with notes := notes } := ⟨Iff.rfl, Eq.refl _⟩

private theorem Update.Same.resume (h : u.Same v) (chunk : Bytes) :
    (u.resume chunk).Same (v.resume chunk) := by
  rcases hu : u.result with cause | _
  · obtain ⟨cause', hv⟩ := h.1.mp ⟨cause, hu⟩
    simp only [Update.resume, hu, hv]
    exact h
  · simp only [Update.resume, hu, h.symm.ok hu, h.2]
    exact .rfl

/-- Receives chunks one after the other, up to the first that fails. -/
def receiveAll (t : DynamicTable) : List Bytes → Update
  | [] => { result := .ok (), table := t }
  | chunk :: chunks =>
    let u := t.receive chunk
    match u.result with
    | .error _ => u
    | .ok () =>
      let more := u.table.receiveAll chunks
      { more with notes := u.notes ++ more.notes }

/-- Executing a buffer and receiving more is executing both, when nothing was kept before. -/
theorem process_append (hpending : t.pending = []) (a b : Bytes) :
    ((t.process a).resume b).Same (t.process (a ++ b)) := by
  induction hlen : a.length using Nat.strongRecOn generalizing t a with
  | ind n ih =>
    have hextends := Instruction.scan_append t.capacity a b
    rcases hscan : Instruction.scan t.capacity a with ⟨i, rest⟩ | _ | ⟨cause, notes⟩
    · rw [hscan] at hextends
      have hboth := hextends.eq_item
      rcases happly : (t.apply i).result with cause | _
      · -- the instruction fails, with or without more after it
        rw [process_of_failed hscan happly, process_of_failed hboth happly]
        have hresume : (t.execute i).resume b = t.execute i := by
          have hexecute : (t.execute i).result = .error cause := happly
          rw [Update.resume, hexecute]
        rw [hresume]
        exact .rfl
      · have hshorter := Instruction.length_rest_of_scan hscan
        have hkept : (t.apply i).table.pending = [] := (t.frame_apply i).2.trans hpending
        rw [process_of_done hscan happly, process_of_done hboth happly]
        refine Update.Same.trans ?_ (.withNotes _ _)
        exact (Update.Same.withNotes _ _).symm.resume b |>.trans
          (ih _ (hlen ▸ hshorter) hkept rest rfl)
    · -- the beginning of an instruction is kept and read again
      have hagain : ({ t with pending := a } : DynamicTable).receive b = t.process (a ++ b) := by
        rw [receive, ← hpending]
      rw [process_of_incomplete hscan, ← hagain]
      exact .rfl
    · rw [hscan] at hextends
      obtain ⟨cause', notes', hboth⟩ := hextends.exists_eq_invalid
      rw [process_of_invalid hscan, process_of_invalid hboth]
      exact ⟨by simp [Update.resume], rfl⟩

theorem receive_append (t : DynamicTable) (a b : Bytes) :
    ((t.receive a).resume b).Same (t.receive (a ++ b)) := by
  rw [receive, receive, ← List.append_assoc]
  exact process_append rfl (t.pending ++ a) b

/-- **The encoder stream cut anywhere.** Whatever a table keeps from before, chunks received one
after the other, up to the first that fails, fail just when their octets fail as one chunk, and
either way they leave the same table, with the same octets kept in it. -/
theorem receiveAll_flatten (t : DynamicTable) (chunk : Bytes) (chunks : List Bytes) :
    (Failed (t.receiveAll (chunk :: chunks)).result ↔
        Failed (t.receive (chunk :: chunks).flatten).result) ∧
      (t.receiveAll (chunk :: chunks)).table = (t.receive (chunk :: chunks).flatten).table := by
  change (t.receiveAll (chunk :: chunks)).Same (t.receive (chunk :: chunks).flatten)
  induction chunks generalizing t chunk with
  | nil =>
    rw [List.flatten_singleton]
    rcases hfirst : (t.receive chunk).result with cause | _
    · simp only [receiveAll, hfirst]
      exact .rfl
    · simp only [receiveAll, hfirst]
      exact ⟨by simp [hfirst], rfl⟩
  | cons next chunks ih =>
    refine .trans ?_ (t.receive_append chunk (next :: chunks).flatten)
    -- what follows the first chunk is received in either way only if that chunk did not fail
    rcases hfirst : (t.receive chunk).result with cause | _
    · rw [receiveAll, Update.resume]
      simp only [hfirst]
      exact .rfl
    · rw [receiveAll, Update.resume]
      simp only [hfirst]
      exact (Update.Same.withNotes _ _).symm.trans (ih _ next)

end DynamicTable

/-! ## What the encoder stream can fail for

A table, whatever it holds, is never asked to read with a reader that has not been told what to
read, and where octets are missing the scan is incomplete, which is not a failure. What is left are
the causes that lie in the octets themselves, in a reference, or in the capacity. -/

/-- The causes that the encoder stream can fail for. -/
def streamErrors : List Error :=
  [.integerOverflow, .invalidHuffmanEncoding, .invalidStaticTableIndex, .invalidDynamicTableIndex,
    .dynamicTableTooBig]

/-! ### Reading an instruction -/

namespace Scan

variable {α β : Type} {cause : Error} {notes : List Note}

theorem andThen_eq_invalid {s : Scan α} {next : α → Bytes → Scan β}
    (h : s.andThen next = invalid cause notes) :
    s = invalid cause notes ∨ ∃ value rest, next value rest = invalid cause notes := by
  cases s with
  | item value rest => exact .inr ⟨value, rest, h⟩
  | incomplete => exact absurd h (by simp [andThen])
  | invalid cause' notes' =>
    obtain ⟨rfl, rfl⟩ := invalid.inj h
    exact .inl rfl

private theorem map_eq_invalid {f : α → β} {s : Scan α} (h : s.map f = invalid cause notes) :
    s = invalid cause notes := by
  rcases andThen_eq_invalid h with h | ⟨_, _, h⟩
  · exact h
  · exact absurd h (by simp)

private theorem cause_integer {bits : Nat} {input : Bytes}
    (h : integer bits input = invalid cause notes) : cause = .integerOverflow := by
  have hstart : (PrefixedInteger.Reader.start bits).Configured := by
    simp [PrefixedInteger.Reader.Configured]
  simp only [integer] at h
  split at h
  · rename_i hcause
    obtain rfl := (invalid.inj h).1
    exact hstart.cause hcause
  · exact absurd h (by simp)
  · exact absurd h (by simp)

private theorem cause_string {limit bits : Nat} {input : Bytes}
    (h : string limit bits input = invalid cause notes) : cause ∈ streamErrors := by
  obtain ⟨-, hmisuse⟩ := StringLiteral.Reader.Configured.read
    (r := (StringLiteral.Reader.start bits).withLimit limit)
    (StringLiteral.Reader.configured_start bits) input
  simp only [string] at h
  split at h
  · obtain rfl := (invalid.inj h).1
    decide
  · rename_i cause' hlarge hcause
    obtain rfl := (invalid.inj h).1
    -- what is wrong with octets, less what is renamed and what is misuse
    have hmem := (StringLiteral.Reader.tidy_read _ _).cause _ hcause
    simp only [readingErrors, List.mem_cons, List.not_mem_nil, or_false] at hmem
    rcases hmem with rfl | rfl | rfl | rfl
    · decide
    · decide
    · exact absurd rfl hlarge
    · exact absurd hcause hmisuse
  · exact absurd h (by simp)
  · exact absurd h (by simp)

end Scan

theorem Instruction.cause_scan {limit : Nat} {input : Bytes} {cause : Error} {notes : List Note}
    (h : scan limit input = .invalid cause notes) : cause ∈ streamErrors := by
  have hinteger {bits : Nat} {input : Bytes} (h : Scan.integer bits input = .invalid cause notes) :
      cause ∈ streamErrors := by
    rw [Scan.cause_integer h]
    decide
  cases input with
  | nil => exact absurd h (by simp [scan])
  | cons first tail =>
    simp only [scan] at h
    split at h
    · rcases Scan.andThen_eq_invalid h with h | ⟨_, _, h⟩
      · exact hinteger h
      · exact Scan.cause_string (Scan.map_eq_invalid h)
    split at h
    · rcases Scan.andThen_eq_invalid h with h | ⟨_, _, h⟩
      · exact Scan.cause_string h
      · exact Scan.cause_string (Scan.map_eq_invalid h)
    split at h
    · exact hinteger (Scan.map_eq_invalid h)
    · exact hinteger (Scan.map_eq_invalid h)

/-! ### Executing it -/

namespace DynamicTable

variable {t : DynamicTable} {cause : Error}

theorem cause_evictTo {target : Nat} (h : (t.evictTo target).result = .error cause) :
    cause = .dynamicTableTooBig := by
  have hgo (entries : List Field) (t : DynamicTable)
      (h : (evictTo.go target t entries).result = .error cause) : cause = .dynamicTableTooBig := by
    induction entries generalizing t with
    | nil =>
      rw [evictTo.go] at h
      split at h
      · exact absurd h (by simp)
      · exact (Except.error.inj h).symm
    | cons oldest newer ih =>
      rw [evictTo.go] at h
      split at h
      · exact absurd h (by simp)
      · exact ih _ h
  exact hgo t.entries t h

theorem cause_insert {field : Field} (h : (t.insert field).result = .error cause) :
    cause = .dynamicTableTooBig := by
  simp only [insert] at h
  split at h
  · exact (Except.error.inj h).symm
  split at h
  · exact cause_evictTo h
  · exact absurd h (by simp)

private theorem cause_setCapacity {capacity : Nat}
    (h : (t.setCapacity capacity).result = .error cause) : cause = .dynamicTableTooBig := by
  rw [setCapacity] at h
  split at h
  · exact (Except.error.inj h).symm
  · exact cause_evictTo h

private theorem cause_referenced {fromStatic : Bool} {index : Nat}
    (h : t.referenced fromStatic index = .error cause) : cause ∈ streamErrors := by
  rw [referenced] at h
  split at h
  · split at h
    · exact absurd h (by simp)
    · obtain rfl := Except.error.inj h
      decide
  · split at h
    · exact absurd h (by simp)
    · obtain rfl := Except.error.inj h
      decide

private theorem cause_insertFound {found : Except Error Field}
    (hfound : ∀ cause, found = .error cause → cause ∈ streamErrors)
    (h : (t.insertFound found).result = .error cause) : cause ∈ streamErrors := by
  cases found with
  | ok field =>
    rw [cause_insert h]
    decide
  | error cause' =>
    obtain rfl : cause' = cause := Except.error.inj h
    exact hfound cause' rfl

private theorem cause_apply {i : Instruction} (h : (t.apply i).result = .error cause) :
    cause ∈ streamErrors := by
  cases i with
  | setCapacity capacity =>
    rw [cause_setCapacity h]
    decide
  | insertNameReference fromStatic index value =>
    refine cause_insertFound (fun cause hfound ↦ ?_) h
    rcases hreferenced : t.referenced fromStatic index with cause' | entry
    · rw [hreferenced] at hfound
      obtain rfl : cause' = cause := Except.error.inj hfound
      exact cause_referenced hreferenced
    · rw [hreferenced] at hfound
      exact absurd hfound (by simp [Except.map])
  | insertLiteralName name value =>
    rw [cause_insert h]
    decide
  | duplicate index => exact cause_insertFound (fun _ ↦ cause_referenced) h

/-! ### The stream -/

theorem cause_process {input : Bytes} (h : (t.process input).result = .error cause) :
    cause ∈ streamErrors := by
  induction hlen : input.length using Nat.strongRecOn generalizing t input with
  | ind n ih =>
    rcases hscan : Instruction.scan t.capacity input with ⟨i, rest⟩ | _ | ⟨cause', notes⟩
    · rcases happly : (t.apply i).result with cause' | _
      · rw [process_of_failed hscan happly] at h
        exact cause_apply h
      · rw [process_of_done hscan happly] at h
        exact ih _ (hlen ▸ Instruction.length_rest_of_scan hscan) h rfl
    · rw [process_of_incomplete hscan] at h
      exact absurd h (by simp)
    · rw [process_of_invalid hscan] at h
      obtain rfl : cause' = cause := Except.error.inj h
      exact Instruction.cause_scan hscan

/-- **Causes.** What a table can refuse a chunk of the encoder stream for. -/
theorem cause_receive {chunk : Bytes} (h : (t.receive chunk).result = .error cause) :
    cause ∈ streamErrors := cause_process h

theorem result_receive_of_append {a b : Bytes} (h : (t.receive (a ++ b)).result = .ok ()) :
    (t.receive a).result = .ok () := by
  rcases ha : (t.receive a).result with cause | _
  · have hboth : Failed (t.receive (a ++ b)).result := by
      refine (t.receive_append a b).1.mp ?_
      simp only [Update.resume, ha]
      exact failed_error cause
    exact absurd (h ▸ hboth) (not_failed_ok ())
  · rfl

end DynamicTable

end FieldCompression
