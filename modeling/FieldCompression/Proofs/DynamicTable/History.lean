import FieldCompression.EncoderStream

/-!
# The history of a table

All the fields that were ever inserted into a table, oldest first, are its *history*. The table
keeps the end of its history and counts the rest: the entry with absolute index `i` is the field at
position `i` of the history, for as long as it is there, and no other field ever gets its index.
-/

namespace FieldCompression

/-! ## What the operations of a table do

Evicting entry by entry until the rest fits is the same as dropping the least number of oldest
entries that leaves few enough. The loop that does it fails only when it runs out of entries with
some size left, and with the kept size equal to the sum of the entries' sizes it never does.

`setCapacity` and `insert` each get two equations, one for the operation that is refused and one
for the operation that is done. Everything else about tables is proved from these. -/

/-! ### Sums of sizes -/

@[simp] theorem totalSize_nil : totalSize [] = 0 := rfl

@[simp] theorem totalSize_cons (field : Field) (rest : List Field) :
    totalSize (field :: rest) = field.size + totalSize rest := rfl

@[simp] theorem totalSize_append (a b : List Field) :
    totalSize (a ++ b) = totalSize a + totalSize b := by
  induction a with
  | nil => simp
  | cons field a ih =>
    rw [List.cons_append, totalSize_cons, totalSize_cons, ih, Nat.add_assoc]

theorem totalSize_drop_le (fields : List Field) (k : Nat) :
    totalSize (fields.drop k) ≤ totalSize fields := by
  have hsplit := totalSize_append (fields.take k) (fields.drop k)
  rw [List.take_append_drop] at hsplit
  omega

namespace DynamicTable

section Operations

variable {t : DynamicTable}

/-! ### Eviction -/

/-- The table without its `k` oldest entries. -/
def evict (t : DynamicTable) (k : Nat) : DynamicTable :=
  { t with
    entries := t.entries.drop k
    size := totalSize (t.entries.drop k)
    evicted := t.evicted + k }

/-- The table with one more entry. -/
def push (t : DynamicTable) (field : Field) : DynamicTable :=
  { t with
    entries := t.entries ++ [field]
    insertCount := t.insertCount + 1
    size := t.size + field.size }

private theorem evict_zero (hsize : t.size = totalSize t.entries) : t.evict 0 = t := by
  rw [evict, List.drop_zero, ← hsize]
  rfl

/-- `k` is the least number of fields to drop from the front so that the sizes of the others add up
to at most `target`. -/
structure Clears (fields : List Field) (target k : Nat) : Prop where
  /-- No more fields are dropped than there are. -/
  le : k ≤ fields.length
  /-- The others fit. -/
  fits : totalSize (fields.drop k) ≤ target
  /-- With one dropped field less they would not. -/
  least : ∀ j < k, target < totalSize (fields.drop j)

theorem Clears.zero {fields : List Field} {target : Nat} (h : totalSize fields ≤ target) :
    Clears fields target 0 := ⟨Nat.zero_le _, h, by simp⟩

theorem Clears.cons {field : Field} {fields : List Field} {target k : Nat}
    (hexceeds : target < totalSize (field :: fields)) (h : Clears fields target k) :
    Clears (field :: fields) target (k + 1) := by
  refine ⟨Nat.succ_le_succ h.le, h.fits, ?_⟩
  intro j hj
  cases j with
  | zero => exact hexceeds
  | succ j => exact h.least j (Nat.lt_of_succ_lt_succ hj)

theorem Clears.unique {fields : List Field} {target k k' : Nat} (h : Clears fields target k)
    (h' : Clears fields target k') : k = k' := by
  rcases Nat.lt_trichotomy k k' with hlt | heq | hlt
  · exact absurd h.fits (Nat.not_le.mpr (h'.least k hlt))
  · exact heq
  · exact absurd h'.fits (Nat.not_le.mpr (h.least k' hlt))

private theorem go_eq {entries : List Field} (hentries : t.entries = entries)
    (hsize : t.size = totalSize t.entries) (target : Nat) :
    ∃ k, Clears t.entries target k ∧
      evictTo.go target t entries = { result := .ok (), table := t.evict k } := by
  induction entries generalizing t with
  | nil =>
    -- no entries are left, so the kept size is zero
    have hfits : t.size ≤ target := by simp [hsize, hentries]
    refine ⟨0, .zero (hsize ▸ hfits), ?_⟩
    rw [evictTo.go, if_pos hfits, evict_zero hsize]
  | cons oldest newer ih =>
    by_cases hfits : t.size ≤ target
    · refine ⟨0, .zero (hsize ▸ hfits), ?_⟩
      rw [evictTo.go, if_pos hfits, evict_zero hsize]
    · have hcons : t.size = oldest.size + totalSize newer := by rw [hsize, hentries, totalSize_cons]
      let next : DynamicTable :=
        { t with entries := newer, size := t.size - oldest.size, evicted := t.evicted + 1 }
      have hnext : next.size = totalSize next.entries := by simp [next, hcons]
      obtain ⟨k, hclears, hgo⟩ := ih (t := next) rfl hnext
      refine ⟨k + 1, ?_, ?_⟩
      · rw [hentries]
        exact hclears.cons (by rw [totalSize_cons, ← hcons]; exact Nat.not_le.mp hfits)
      · rw [evictTo.go, if_neg hfits]
        refine hgo.trans ?_
        simp only [next, evict, hentries, List.drop_succ_cons, Nat.add_assoc, Nat.add_comm 1 k]

/-- **Eviction.** The oldest entries go, as few as need be, and there are always enough. -/
theorem evictTo_eq (hsize : t.size = totalSize t.entries) (target : Nat) :
    ∃ k, Clears t.entries target k ∧
      t.evictTo target = { result := .ok (), table := t.evict k } := go_eq rfl hsize target

/-! ### Changes -/

theorem setCapacity_of_lt {capacity : Nat} (h : t.maxCapacity < capacity) :
    t.setCapacity capacity = { result := .error .dynamicTableTooBig, table := t } := by
  rw [setCapacity, if_pos h]

theorem setCapacity_of_le {capacity : Nat} (hsize : t.size = totalSize t.entries)
    (h : capacity ≤ t.maxCapacity) :
    ∃ k, Clears t.entries capacity k ∧
      t.setCapacity capacity =
        { result := .ok (), table := { t.evict k with capacity := capacity } } := by
  rw [setCapacity, if_neg (Nat.not_lt.mpr h)]
  exact evictTo_eq (t := { t with capacity := capacity }) hsize capacity

theorem insert_of_lt {field : Field} (h : t.capacity < field.size) :
    t.insert field = { result := .error .dynamicTableTooBig, table := t } := by
  rw [insert, if_pos h]

theorem insert_of_le {field : Field} (hsize : t.size = totalSize t.entries)
    (h : field.size ≤ t.capacity) :
    ∃ k, Clears t.entries (t.capacity - field.size) k ∧
      ∃ notes, t.insert field = { result := .ok (), table := (t.evict k).push field, notes } := by
  obtain ⟨k, hclears, hevict⟩ := evictTo_eq hsize (t.capacity - field.size)
  refine ⟨k, hclears, ?_⟩
  rw [insert, if_neg (Nat.not_lt.mpr h), hevict]
  exact ⟨_, rfl⟩

/-! ### What they leave alone

Neither the greatest capacity nor the octets of an unfinished instruction are touched, whatever the
kept size is. -/

theorem frame_go (target : Nat) (t : DynamicTable) (entries : List Field) :
    (evictTo.go target t entries).table.maxCapacity = t.maxCapacity ∧
      (evictTo.go target t entries).table.pending = t.pending := by
  induction entries generalizing t with
  | nil =>
    rw [evictTo.go]
    split <;> exact ⟨rfl, rfl⟩
  | cons oldest newer ih =>
    rw [evictTo.go]
    split
    · exact ⟨rfl, rfl⟩
    · exact ih _

theorem frame_setCapacity (t : DynamicTable) (capacity : Nat) :
    (t.setCapacity capacity).table.maxCapacity = t.maxCapacity ∧
      (t.setCapacity capacity).table.pending = t.pending := by
  rw [setCapacity]
  split
  · exact ⟨rfl, rfl⟩
  · exact frame_go _ _ _

theorem frame_insert (t : DynamicTable) (field : Field) :
    (t.insert field).table.maxCapacity = t.maxCapacity ∧
      (t.insert field).table.pending = t.pending := by
  simp only [insert]
  split
  · exact ⟨rfl, rfl⟩
  · split <;> exact frame_go _ _ _

end Operations

/-! ## What was inserted

The history is said without looking at the entries of a table. `insertion?` is the field that an
instruction is to insert, `executed` are the instructions in a buffer that are executed, and
`inserted` is what an operation adds to the history: the field of an insertion, or those of the
instructions that came with a chunk. An operation that fails adds only what was inserted before it
failed.

`Tracks` relates a history to a table. It is shown for each operation, also a failed one. -/

/-! ### One call -/

/-- The given field, if the operation that was to insert it succeeded. -/
def Update.inserted (u : Update) (field? : Option Field) : List Field :=
  match u.result with
  | .ok () => field?.toList
  | .error _ => []

/-- The field that an instruction is to insert. -/
def insertion? (t : DynamicTable) : Instruction → Option Field
  | .setCapacity _ => none
  | .insertNameReference fromStatic index value =>
    (t.referenced fromStatic index).toOption.map fun entry ↦ ⟨entry.name, value.content⟩
  | .insertLiteralName name value => some ⟨name.content, value.content⟩
  | .duplicate index => (t.referenced false index).toOption

/-- The instructions at the front of a buffer that are executed without failing. -/
def executed (t : DynamicTable) (input : Bytes) : List Instruction :=
  match _h : Instruction.scan t.capacity input with
  | .item i rest =>
    match (t.apply i).result with
    | .ok () => i :: (t.apply i).table.executed rest
    | .error _ => []
  | _ => []
termination_by input.length
decreasing_by exact Instruction.length_rest_of_scan _h

/-- The fields that instructions insert one after the other. -/
def insertions (t : DynamicTable) : List Instruction → List Field
  | [] => []
  | i :: more => (t.apply i).inserted (t.insertion? i) ++ (t.apply i).table.insertions more

/-- A call that changes a table. -/
inductive Operation where
  /-- Receives a chunk of the encoder stream. -/
  | receive (chunk : Bytes)
  /-- Inserts a field. -/
  | insert (field : Field)
  /-- Changes the capacity. -/
  | setCapacity (capacity : Nat)
deriving DecidableEq, Repr

/-- Makes a call. -/
def perform (t : DynamicTable) : Operation → Update
  | .receive chunk => t.receive chunk
  | .insert field => t.insert field
  | .setCapacity capacity => t.setCapacity capacity

/-- The fields that a call inserts. -/
def inserted (t : DynamicTable) : Operation → List Field
  | .receive chunk =>
    let unread := { t with pending := [] }
    unread.insertions (unread.executed (t.pending ++ chunk))
  | .insert field => (t.insert field).inserted (some field)
  | .setCapacity _ => []

/-! ### Instruction by instruction -/

section Process

variable {t : DynamicTable} {input rest : Bytes} {i : Instruction} {cause : Error}

theorem process_of_incomplete (h : Instruction.scan t.capacity input = .incomplete) :
    t.process input = { result := .ok (), table := { t with pending := input } } := by
  rw [process]
  split <;> simp_all

theorem process_of_invalid {notes : List Note}
    (h : Instruction.scan t.capacity input = .invalid cause notes) :
    t.process input = { result := .error cause, table := t, notes := notes } := by
  rw [process]
  split <;> simp_all

theorem process_of_failed (h : Instruction.scan t.capacity input = .item i rest)
    (hfailed : (t.apply i).result = .error cause) : t.process input = t.execute i := by
  have hexecute : (t.execute i).result = .error cause := hfailed
  rw [process]
  split
  · simp_all
  · simp_all
  · rename_i i' rest' h'
    obtain ⟨rfl, rfl⟩ : i' = i ∧ rest' = rest := by simpa [h] using h'.symm
    simp only [hexecute]

theorem process_of_done (h : Instruction.scan t.capacity input = .item i rest)
    (hdone : (t.apply i).result = .ok ()) :
    t.process input =
      let more := (t.apply i).table.process rest
      { more with notes := (t.execute i).notes ++ more.notes } := by
  have hexecute : (t.execute i).result = .ok () := hdone
  rw [process]
  split
  · simp_all
  · simp_all
  · rename_i i' rest' h'
    obtain ⟨rfl, rfl⟩ : i' = i ∧ rest' = rest := by simpa [h] using h'.symm
    simp only [hexecute]
    rfl

private theorem executed_of_stop (h : ∀ i rest, Instruction.scan t.capacity input ≠ .item i rest) :
    t.executed input = [] := by
  rw [executed]
  split
  · rename_i h'
    exact absurd h' (h _ _)
  · rfl

private theorem executed_of_failed (h : Instruction.scan t.capacity input = .item i rest)
    (hfailed : (t.apply i).result = .error cause) : t.executed input = [] := by
  rw [executed]
  split
  · rename_i i' rest' h'
    obtain ⟨rfl, rfl⟩ : i' = i ∧ rest' = rest := by simpa [h] using h'.symm
    simp only [hfailed]
  · rfl

private theorem executed_of_done (h : Instruction.scan t.capacity input = .item i rest)
    (hdone : (t.apply i).result = .ok ()) :
    t.executed input = i :: (t.apply i).table.executed rest := by
  rw [executed]
  split
  · rename_i i' rest' h'
    obtain ⟨rfl, rfl⟩ : i' = i ∧ rest' = rest := by simpa [h] using h'.symm
    simp only [hdone]
  · rename_i h'
    exact absurd h (h' _ _)

end Process

theorem frame_apply (t : DynamicTable) (i : Instruction) :
    (t.apply i).table.maxCapacity = t.maxCapacity ∧ (t.apply i).table.pending = t.pending := by
  have hfound (found : Except Error Field) :
      (t.insertFound found).table.maxCapacity = t.maxCapacity ∧
        (t.insertFound found).table.pending = t.pending := by
    cases found with
    | ok field => exact frame_insert t field
    | error cause => exact ⟨rfl, rfl⟩
  cases i with
  | setCapacity capacity => exact frame_setCapacity t capacity
  | insertNameReference fromStatic index value => exact hfound _
  | insertLiteralName name value => exact frame_insert t _
  | duplicate index => exact hfound _

/-! ### The invariant -/

/-- The table keeps the end of the given history, and its numbers are right. -/
structure Tracks (history : List Field) (t : DynamicTable) : Prop where
  /-- The live entries are what has not been evicted. -/
  entries : t.entries = history.drop t.evicted
  /-- Every insertion was counted. -/
  insertCount : t.insertCount = history.length
  /-- No more was evicted than inserted. -/
  evicted : t.evicted ≤ t.insertCount
  /-- The kept size is the size. -/
  size : t.size = totalSize t.entries
  /-- The entries fit. -/
  fits : t.size ≤ t.capacity
  /-- The capacity is allowed. -/
  capacity : t.capacity ≤ t.maxCapacity
  /-- The greatest capacity has at most 32 bits. -/
  maxCapacity : t.maxCapacity < UInt32.size

theorem tracks_empty (maxCapacity : Nat) : Tracks [] (empty maxCapacity) where
  entries := rfl
  insertCount := rfl
  evicted := Nat.le_refl _
  size := rfl
  fits := Nat.le_refl _
  capacity := Nat.zero_le _
  maxCapacity := by
    have hbound : min maxCapacity (UInt32.size - 1) ≤ UInt32.size - 1 := Nat.min_le_right _ _
    exact Nat.lt_of_le_pred (by decide) hbound

namespace Tracks

variable {history : List Field} {t : DynamicTable}

theorem length_entries (h : Tracks history t) : t.entries.length = history.length - t.evicted := by
  rw [h.entries, List.length_drop]

/-- What has not arrived completely is of no concern to the history. -/
theorem withPending (h : Tracks history t) (pending : Bytes) :
    Tracks history { t with pending := pending } :=
  ⟨h.entries, h.insertCount, h.evicted, h.size, h.fits, h.capacity, h.maxCapacity⟩

/-! #### Look-up -/

/-- **Absolute indices.** The entry with an absolute index is the field at that position of the
history, unless it has been evicted. -/
theorem get?_eq (h : Tracks history t) (index : Nat) :
    t.get? index = if t.evicted ≤ index then history[index]? else none := by
  rw [get?]
  by_cases hlive : t.evicted ≤ index
  · rw [if_pos hlive, if_pos hlive, h.entries, List.getElem?_drop, Nat.add_sub_cancel' hlive]
  · rw [if_neg hlive, if_neg hlive]

theorem get?_eq_some_iff (h : Tracks history t) {index : Nat} {field : Field} :
    t.get? index = some field ↔ t.evicted ≤ index ∧ history[index]? = some field := by
  rw [h.get?_eq]
  split <;> simp [*]

theorem exists_get? (h : Tracks history t) {index : Nat} (hlive : t.evicted ≤ index)
    (hcount : index < t.insertCount) : ∃ field, t.get? index = some field := by
  rw [h.insertCount] at hcount
  exact ⟨history[index], h.get?_eq_some_iff.mpr ⟨hlive, List.getElem?_eq_getElem hcount⟩⟩

/-! #### Operations -/

theorem evict (h : Tracks history t) {k : Nat} (hk : k ≤ t.entries.length) :
    Tracks history (t.evict k) where
  entries := by
    rw [DynamicTable.evict, h.entries, List.drop_drop]
  insertCount := h.insertCount
  evicted := by
    have hlength := h.length_entries
    have hcount := h.insertCount
    have hevicted := h.evicted
    change t.evicted + k ≤ t.insertCount
    omega
  size := rfl
  fits := by
    have hdrop := totalSize_drop_le t.entries k
    rw [← h.size] at hdrop
    exact Nat.le_trans hdrop h.fits
  capacity := h.capacity
  maxCapacity := h.maxCapacity

theorem push (h : Tracks history t) {field : Field} (hfits : t.size + field.size ≤ t.capacity) :
    Tracks (history ++ [field]) (t.push field) where
  entries := by
    have hle : t.evicted ≤ history.length := h.insertCount ▸ h.evicted
    rw [DynamicTable.push, List.drop_append_of_le_length hle, h.entries]
  insertCount := by
    rw [DynamicTable.push, h.insertCount, List.length_append, List.length_singleton]
  evicted := Nat.le_succ_of_le h.evicted
  size := by
    rw [DynamicTable.push, h.size, totalSize_append]
    rfl
  fits := hfits
  capacity := h.capacity
  maxCapacity := h.maxCapacity

theorem setCapacity (h : Tracks history t) (capacity : Nat) :
    Tracks history (t.setCapacity capacity).table := by
  by_cases hallowed : capacity ≤ t.maxCapacity
  · obtain ⟨k, hclears, hset⟩ := setCapacity_of_le h.size hallowed
    have hevict := h.evict hclears.le
    rw [hset]
    exact ⟨hevict.entries, hevict.insertCount, hevict.evicted, hevict.size, hclears.fits,
      hallowed, hevict.maxCapacity⟩
  · rw [setCapacity_of_lt (Nat.not_le.mp hallowed)]
    exact h

theorem insert (h : Tracks history t) (field : Field) :
    Tracks (history ++ (t.insert field).inserted (some field)) (t.insert field).table := by
  by_cases hfits : field.size ≤ t.capacity
  · obtain ⟨k, hclears, notes, hinsert⟩ := insert_of_le h.size hfits
    rw [hinsert]
    refine (h.evict hclears.le).push ?_
    have hroom := hclears.fits
    change totalSize (t.entries.drop k) + field.size ≤ t.capacity
    omega
  · rw [insert_of_lt (Nat.not_le.mp hfits)]
    simpa [Update.inserted] using h

theorem apply (h : Tracks history t) (i : Instruction) :
    Tracks (history ++ (t.apply i).inserted (t.insertion? i)) (t.apply i).table := by
  have hfound (found : Except Error Field) :
      Tracks (history ++ (t.insertFound found).inserted found.toOption)
        (t.insertFound found).table := by
    cases found with
    | ok field => exact h.insert field
    | error cause => simpa [insertFound, Update.inserted] using h
  cases i with
  | setCapacity capacity =>
    have hnone : (t.setCapacity capacity).inserted none = [] := by
      rw [Update.inserted]
      split <;> rfl
    rw [insertion?, DynamicTable.apply, hnone, List.append_nil]
    exact h.setCapacity capacity
  | insertNameReference fromStatic index value =>
    let named (entry : Field) : Field := ⟨entry.name, value.content⟩
    have hmap : (t.referenced fromStatic index).toOption.map named =
        ((t.referenced fromStatic index).map named).toOption := by
      cases t.referenced fromStatic index <;> rfl
    rw [insertion?, hmap]
    exact hfound _
  | insertLiteralName name value => exact h.insert _
  | duplicate index => exact hfound _

theorem process (h : Tracks history t) (input : Bytes) :
    Tracks (history ++ t.insertions (t.executed input)) (t.process input).table := by
  induction hlen : input.length using Nat.strongRecOn generalizing history t input with
  | ind n ih =>
    rcases hscan : Instruction.scan t.capacity input with ⟨i, rest⟩ | _ | ⟨cause, notes⟩
    · rcases happly : (t.apply i).result with cause | _
      · have hstep := h.apply i
        rw [Update.inserted, happly] at hstep
        rw [executed_of_failed hscan happly, process_of_failed hscan happly]
        exact hstep
      · have hshorter := Instruction.length_rest_of_scan hscan
        rw [executed_of_done hscan happly, process_of_done hscan happly, insertions,
          ← List.append_assoc]
        exact ih _ (hlen ▸ hshorter) (h.apply i) rest rfl
    · rw [executed_of_stop (by simp [hscan]), process_of_incomplete hscan, insertions,
        List.append_nil]
      exact h.withPending input
    · rw [executed_of_stop (by simp [hscan]), process_of_invalid hscan, insertions,
        List.append_nil]
      exact h

/-- **Every call.** Whatever a call does, and also if it fails, the table keeps the end of the
history with what the call inserted. -/
theorem perform (h : Tracks history t) (op : Operation) :
    Tracks (history ++ t.inserted op) (t.perform op).table := by
  cases op with
  | receive chunk => exact (h.withPending []).process (t.pending ++ chunk)
  | insert field => exact h.insert field
  | setCapacity capacity =>
    rw [inserted, List.append_nil]
    exact h.setCapacity capacity

end Tracks

end DynamicTable

end FieldCompression
