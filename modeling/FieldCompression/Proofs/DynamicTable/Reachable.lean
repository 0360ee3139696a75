import Mathlib.Order.Bounds.Defs
import FieldCompression.Proofs.DynamicTable.History
import FieldCompression.Proofs.Fragmentation.Items

/-!
# Tables that calls can reach

A table starts empty, and every call that changes it keeps its invariant, also a call that fails.
So the invariant holds after any calls, and the numbers that the table keeps can be read off its
history: they never disagree with the entries.
-/

namespace FieldCompression.DynamicTable

/-! ## Evicting goes well

Eviction takes one entry after the other, and each time it could find no entry, or one that is
larger than what the kept size has left. `Evicts` is the course of an eviction in which neither
happens. It is the course of every eviction as long as the kept size is right, so from a table that
calls can reach an operation is either refused at once or done. The same holds of the tables between
two instructions of one chunk. -/

variable {t t' : DynamicTable} {history : List Field}

/-! ### The course of an eviction -/

/-- Entries are evicted until the size is at most `target`. Whenever one has to go there is an
oldest one, and the kept size is at least its size. -/
inductive Evicts (target : Nat) : DynamicTable → DynamicTable → Prop
  /-- No more has to go. -/
  | done {t : DynamicTable} (hfits : t.size ≤ target) : Evicts target t t
  /-- The oldest entry goes. -/
  | one {t t' : DynamicTable} {oldest : Field} {newer : List Field} (hexceeds : target < t.size)
    (hentries : t.entries = oldest :: newer) (hcounted : oldest.size ≤ t.size)
    (hmore : Evicts target
      { t with entries := newer, size := t.size - oldest.size, evicted := t.evicted + 1 } t') :
    Evicts target t t'

theorem Evicts.evictTo_eq {target : Nat} (h : Evicts target t t') :
    t.evictTo target = { result := .ok (), table := t' } := by
  rw [evictTo]
  induction h with
  | @done t hfits =>
    cases hentries : t.entries with
    | nil => rw [evictTo.go, if_pos hfits]
    | cons oldest newer => rw [evictTo.go, if_pos hfits]
  | one hexceeds hentries hcounted hmore ih =>
    rw [hentries, evictTo.go, if_neg (Nat.not_le.mpr hexceeds)]
    exact ih

/-- With the kept size right, every eviction has this course. -/
theorem exists_evicts (hsize : t.size = totalSize t.entries) (target : Nat) :
    ∃ t', Evicts target t t' := by
  induction hentries : t.entries generalizing t with
  | nil =>
    refine ⟨t, .done ?_⟩
    rw [hsize, hentries]
    exact Nat.zero_le _
  | cons oldest newer ih =>
    by_cases hfits : t.size ≤ target
    · exact ⟨t, .done hfits⟩
    · have hsum : t.size = oldest.size + totalSize newer := by rw [hsize, hentries, totalSize_cons]
      have hrest : t.size - oldest.size = totalSize newer := by omega
      obtain ⟨t', hmore⟩ := ih (t := { t with
        entries := newer, size := t.size - oldest.size, evicted := t.evicted + 1 }) hrest rfl
      exact ⟨t', .one (Nat.not_le.mp hfits) hentries (hsum ▸ Nat.le_add_right _ _) hmore⟩

/-- An operation that is not refused at once evicts what it has to and is done. -/
structure EvictsWell (t : DynamicTable) : Prop where
  /-- Every capacity that is allowed is set. -/
  setCapacity : ∀ capacity ≤ t.maxCapacity, ∃ t',
    Evicts capacity { t with capacity := capacity } t' ∧
      t.setCapacity capacity = { result := .ok (), table := t' }
  /-- Every field that fits is inserted. -/
  insert : ∀ field, field.size ≤ t.capacity → ∃ t',
    Evicts (t.capacity - field.size) t t' ∧
      (t.insert field).result = .ok () ∧ (t.insert field).table = t'.push field

private theorem evictsWell_of_size (hsize : t.size = totalSize t.entries) : t.EvictsWell where
  setCapacity := by
    intro capacity hallowed
    let changed : DynamicTable := { t with capacity := capacity }
    obtain ⟨t', hevicts⟩ := exists_evicts (t := changed) hsize capacity
    refine ⟨t', hevicts, ?_⟩
    rw [DynamicTable.setCapacity, if_neg (Nat.not_lt.mpr hallowed)]
    exact hevicts.evictTo_eq
  insert := by
    intro field hfits
    obtain ⟨t', hevicts⟩ := exists_evicts hsize (t.capacity - field.size)
    refine ⟨t', hevicts, ?_⟩
    rw [DynamicTable.insert, if_neg (Nat.not_lt.mpr hfits), hevicts.evictTo_eq]
    exact ⟨rfl, rfl⟩

/-! ### Runs -/

/-- Makes calls one after the other. -/
def run (t : DynamicTable) (ops : List Operation) : DynamicTable :=
  ops.foldl (fun t op ↦ (t.perform op).table) t

/-- The fields that calls insert one after the other. -/
def insertedBy (t : DynamicTable) : List Operation → List Field
  | [] => []
  | op :: ops => t.inserted op ++ (t.perform op).table.insertedBy ops

/-- Executes instructions one after the other, as within a chunk. -/
def applyAll (t : DynamicTable) (instructions : List Instruction) : DynamicTable :=
  instructions.foldl (fun t i ↦ (t.apply i).table) t

namespace Tracks

theorem run (h : Tracks history t) (ops : List Operation) :
    Tracks (history ++ t.insertedBy ops) (t.run ops) := by
  induction ops generalizing history t with
  | nil =>
    rw [insertedBy, List.append_nil]
    exact h
  | cons op ops ih =>
    rw [insertedBy, ← List.append_assoc]
    exact ih (h.perform op)

theorem exists_applyAll (h : Tracks history t) (instructions : List Instruction) :
    ∃ history', Tracks history' (t.applyAll instructions) := by
  induction instructions generalizing history t with
  | nil => exact ⟨history, h⟩
  | cons i instructions ih => exact ih (h.apply i)

/-! #### What the invariant says of the numbers -/

theorem insertCount_eq (h : Tracks history t) : t.insertCount = t.evicted + t.entries.length := by
  have hlength := h.length_entries
  have hcount := h.insertCount
  have hevicted := h.evicted
  omega

theorem length_entries_le (h : Tracks history t) : t.entries.length ≤ t.maxEntries := by
  have hoverhead : t.entries.length * fieldOverhead ≤ totalSize t.entries := by
    induction t.entries with
    | nil => exact Nat.le_refl _
    | cons field rest ih =>
      have hfield := field.fieldOverhead_le_size
      rw [List.length_cons, Nat.succ_mul, totalSize_cons]
      omega
  rw [maxEntries, Nat.le_div_iff_mul_le (by decide)]
  calc t.entries.length * fieldOverhead
      ≤ totalSize t.entries := hoverhead
    _ = t.size := h.size.symm
    _ ≤ t.capacity := h.fits
    _ ≤ t.maxCapacity := h.capacity

theorem entries_eq (h : Tracks history t) :
    t.entries = history.drop (history.length - t.entries.length) := by
  have hcount := h.insertCount
  have hsum := h.insertCount_eq
  have hevicted : history.length - t.entries.length = t.evicted := by omega
  rw [hevicted]
  exact h.entries

theorem get?_eq_none_iff (h : Tracks history t) {index : Nat} :
    t.get? index = none ↔ ¬(t.evicted ≤ index ∧ index < t.insertCount) := by
  rw [h.get?_eq, h.insertCount]
  split
  · rename_i hlive
    rw [List.getElem?_eq_none_iff]
    omega
  · rename_i hevicted
    exact ⟨fun _ hlive ↦ hevicted hlive.1, fun _ ↦ rfl⟩

end Tracks

/-! ### The greatest capacity is fixed -/

private theorem maxCapacity_process (t : DynamicTable) (input : Bytes) :
    (t.process input).table.maxCapacity = t.maxCapacity := by
  induction hlen : input.length using Nat.strongRecOn generalizing t input with
  | ind n ih =>
    rcases hscan : Instruction.scan t.capacity input with ⟨i, rest⟩ | _ | ⟨cause, notes⟩
    · rcases happly : (t.apply i).result with cause | _
      · rw [process_of_failed hscan happly]
        exact (t.frame_apply i).1
      · have hshorter := Instruction.length_rest_of_scan hscan
        rw [process_of_done hscan happly]
        exact (ih _ (hlen ▸ hshorter) (t.apply i).table rest rfl).trans (t.frame_apply i).1
    · rw [process_of_incomplete hscan]
    · rw [process_of_invalid hscan]

theorem maxCapacity_perform (t : DynamicTable) (op : Operation) :
    (t.perform op).table.maxCapacity = t.maxCapacity := by
  cases op with
  | receive chunk => exact maxCapacity_process { t with pending := [] } (t.pending ++ chunk)
  | insert field => exact (t.frame_insert field).1
  | setCapacity capacity => exact (t.frame_setCapacity capacity).1

theorem maxCapacity_run (t : DynamicTable) (ops : List Operation) :
    (t.run ops).maxCapacity = t.maxCapacity := by
  induction ops generalizing t with
  | nil => rfl
  | cons op ops ih => exact (ih _).trans (t.maxCapacity_perform op)

/-! ### The result -/

/-- **A table agrees with its history.** After any calls on an empty table, also if some of them
failed, the kept numbers are right and within their bounds, the live entries are the latest fields
of all that were inserted, an absolute index leads to the field at that place of the history as long
as the entry is live and nowhere else, and no eviction comes to grief, at the next call or between
two instructions of a chunk. -/
theorem consistent_run (maxCapacity : Nat) (ops : List Operation) :
    let t := (empty maxCapacity).run ops
    let history := (empty maxCapacity).insertedBy ops
    t.size = totalSize t.entries ∧
      (t.size ≤ t.capacity ∧ t.capacity ≤ t.maxCapacity ∧
        t.maxCapacity = min maxCapacity (UInt32.size - 1)) ∧
      t.insertCount = t.evicted + t.entries.length ∧
      t.entries.length ≤ t.maxEntries ∧
      (t.insertCount = history.length ∧
        t.entries = history.drop (history.length - t.entries.length)) ∧
      (∀ index field, t.get? index = some field ↔
        t.evicted ≤ index ∧ index < t.insertCount ∧ history[index]? = some field) ∧
      (∀ index, t.get? index = none ↔ ¬(t.evicted ≤ index ∧ index < t.insertCount)) ∧
      t.EvictsWell ∧
      ∀ instructions, ({ t with pending := [] }.applyAll instructions).EvictsWell := by
  intro t history
  have h : Tracks history t := (tracks_empty maxCapacity).run ops
  refine ⟨h.size, ⟨h.fits, h.capacity, maxCapacity_run _ ops⟩, h.insertCount_eq,
    h.length_entries_le, ⟨h.insertCount, h.entries_eq⟩, ?_, fun _ ↦ h.get?_eq_none_iff,
    evictsWell_of_size h.size, ?_⟩
  · intro index field
    rw [h.get?_eq_some_iff]
    constructor
    · rintro ⟨hlive, hplace⟩
      obtain ⟨hinserted, -⟩ := List.getElem?_eq_some_iff.mp hplace
      exact ⟨hlive, h.insertCount ▸ hinserted, hplace⟩
    · rintro ⟨hlive, -, hplace⟩
      exact ⟨hlive, hplace⟩
  · intro instructions
    obtain ⟨_, hbetween⟩ := (h.withPending []).exists_applyAll instructions
    exact evictsWell_of_size hbetween.size

/-! ## Which entries go

A peer counts entries by their place in the history, so both sides must agree on which of them are
still there. They do because nothing is left open: the oldest entries go first, and of them the
least number that leaves room for what is to come. A field that could not fit in an empty table, or
a capacity that is not allowed, is refused before any entry goes.

`EvictsLeast` says this of the two operations. It asks nothing of a table but that its kept size is
right, so it holds of every table that calls can reach and of the tables between two instructions of
one chunk.

### The loop

An insertion goes on evicting while the kept size and the size of the field together exceed the
capacity. The least number of entries is therefore said with that sum. The course of the eviction is
`Evicts`, as for a change of the capacity, and its target is what the field leaves of the
capacity. -/

/-! ### The least number -/

theorem Clears.isLeast {fields : List Field} {target k : Nat} (h : Clears fields target k) :
    IsLeast {n | totalSize (fields.drop n) ≤ target} k := by
  constructor
  · exact h.fits
  · intro n hfits
    refine Nat.not_lt.mp ?_
    intro hless
    exact absurd hfits (Nat.not_le.mpr (h.least n hless))

/-- Making room for a field is leaving the rest of the capacity to the other entries. -/
theorem fits_beside_iff {fields : List Field} {capacity size : Nat} (hsize : size ≤ capacity) :
    totalSize fields + size ≤ capacity ↔ totalSize fields ≤ capacity - size := by
  omega

/-- An eviction takes away the least number of entries, whatever else is known of its course. -/
theorem Evicts.eq_evict {target k : Nat} {t' : DynamicTable} (h : Evicts target t t')
    (hevict : t.evictTo target = { result := .ok (), table := t.evict k }) : t' = t.evict k := by
  have heq := h.evictTo_eq.symm.trans hevict
  exact congrArg Update.table heq

/-! ### The operations -/

/-- An operation is refused at once and changes nothing, or it lets the oldest entries go, as few as
need be, and is done. -/
structure EvictsLeast (t : DynamicTable) : Prop where
  /-- A field that exceeds the capacity is refused. Any other is inserted after the least number of
  entries that makes room for it. -/
  insert : ∀ field : Field,
    (Failed (t.insert field).result ↔ t.capacity < field.size) ∧
      (Failed (t.insert field).result →
        (t.insert field).result = .error .dynamicTableTooBig ∧ (t.insert field).table = t) ∧
      (¬Failed (t.insert field).result → ∃ k,
        IsLeast {n | totalSize (t.entries.drop n) + field.size ≤ t.capacity} k ∧
          Evicts (t.capacity - field.size) t (t.evict k) ∧
          (t.insert field).table =
            { t with
              entries := t.entries.drop k ++ [field]
              insertCount := t.insertCount + 1
              evicted := t.evicted + k
              size := totalSize (t.entries.drop k) + field.size })
  /-- A capacity that is not allowed is refused. Any other is set, and the least number of entries
  goes that leaves the others within it. -/
  setCapacity : ∀ capacity : Nat,
    (Failed (t.setCapacity capacity).result ↔ t.maxCapacity < capacity) ∧
      (Failed (t.setCapacity capacity).result →
        (t.setCapacity capacity).result = .error .dynamicTableTooBig ∧
          (t.setCapacity capacity).table = t) ∧
      (¬Failed (t.setCapacity capacity).result → ∃ k,
        IsLeast {n | totalSize (t.entries.drop n) ≤ capacity} k ∧
          Evicts capacity { t with capacity := capacity }
            ({ t with capacity := capacity }.evict k) ∧
          (t.setCapacity capacity).table =
            { t with
              entries := t.entries.drop k
              evicted := t.evicted + k
              size := totalSize (t.entries.drop k)
              capacity := capacity })

section OfSize

variable (hsize : t.size = totalSize t.entries)

include hsize

theorem exists_evicts_evict (target : Nat) :
    ∃ k, Clears t.entries target k ∧ Evicts target t (t.evict k) := by
  obtain ⟨k, hclears, hevict⟩ := evictTo_eq hsize target
  obtain ⟨t', hevicts⟩ := exists_evicts hsize target
  refine ⟨k, hclears, ?_⟩
  rw [← hevicts.eq_evict hevict]
  exact hevicts

theorem insert_of_fits {field : Field} (hfits : field.size ≤ t.capacity) :
    ∃ k, IsLeast {n | totalSize (t.entries.drop n) + field.size ≤ t.capacity} k ∧
      Evicts (t.capacity - field.size) t (t.evict k) ∧
      ∃ notes, t.insert field = { result := .ok (), table := (t.evict k).push field, notes } := by
  obtain ⟨k, hclears, hevicts⟩ := exists_evicts_evict hsize (t.capacity - field.size)
  obtain ⟨k', hclears', hinsert⟩ := insert_of_le hsize hfits
  obtain rfl := hclears.unique hclears'
  refine ⟨k, ?_, hevicts, hinsert⟩
  simp only [fits_beside_iff hfits]
  exact hclears.isLeast

theorem setCapacity_of_allowed {capacity : Nat} (hallowed : capacity ≤ t.maxCapacity) :
    ∃ k, IsLeast {n | totalSize (t.entries.drop n) ≤ capacity} k ∧
      Evicts capacity { t with capacity := capacity } ({ t with capacity := capacity }.evict k) ∧
      t.setCapacity capacity =
        { result := .ok (), table := { t.evict k with capacity := capacity } } := by
  obtain ⟨k, hclears, hevicts⟩ :=
    exists_evicts_evict (t := { t with capacity := capacity }) hsize capacity
  obtain ⟨k', hclears', hset⟩ := setCapacity_of_le hsize hallowed
  obtain rfl := hclears.unique hclears'
  exact ⟨k, hclears.isLeast, hevicts, hset⟩

private theorem evictsLeast_of_size : t.EvictsLeast where
  insert := by
    intro field
    by_cases hfits : field.size ≤ t.capacity
    · obtain ⟨k, hleast, hevicts, notes, hinsert⟩ := insert_of_fits hsize hfits
      have hdone : ¬Failed (t.insert field).result := by rw [hinsert]; exact not_failed_ok ()
      refine ⟨?_, fun hfailed ↦ absurd hfailed hdone, ?_⟩
      · exact iff_of_false hdone (Nat.not_lt.mpr hfits)
      · intro _
        refine ⟨k, hleast, hevicts, ?_⟩
        rw [hinsert]
        rfl
    · have hexceeds := Nat.not_le.mp hfits
      rw [insert_of_lt hexceeds]
      refine ⟨iff_of_true (failed_error _) hexceeds, fun _ ↦ ⟨rfl, rfl⟩, ?_⟩
      intro hdone
      exact absurd (failed_error _) hdone
  setCapacity := by
    intro capacity
    by_cases hallowed : capacity ≤ t.maxCapacity
    · obtain ⟨k, hleast, hevicts, hset⟩ := setCapacity_of_allowed hsize hallowed
      have hdone : ¬Failed (t.setCapacity capacity).result := by rw [hset]; exact not_failed_ok ()
      refine ⟨?_, fun hfailed ↦ absurd hfailed hdone, ?_⟩
      · exact iff_of_false hdone (Nat.not_lt.mpr hallowed)
      · intro _
        refine ⟨k, hleast, hevicts, ?_⟩
        rw [hset]
        rfl
    · have hexceeds := Nat.not_le.mp hallowed
      rw [setCapacity_of_lt hexceeds]
      refine ⟨iff_of_true (failed_error _) hexceeds, fun _ ↦ ⟨rfl, rfl⟩, ?_⟩
      intro hdone
      exact absurd (failed_error _) hdone

end OfSize

/-! ### The result -/

/-- **Eviction is oldest first and minimal.** In every table that calls can reach, and between two
instructions of a chunk, an operation that cannot be done is refused and changes nothing. Any other
lets go the least number of oldest entries that it has to, taking one after the other without ever
missing one or taking more from the kept size than it holds. -/
theorem evicts_least (maxCapacity : Nat) (ops : List Operation) :
    let t := (empty maxCapacity).run ops
    t.EvictsLeast ∧
      ∀ instructions, ({ t with pending := [] }.applyAll instructions).EvictsLeast := by
  intro t
  have h : Tracks _ t := (tracks_empty maxCapacity).run ops
  constructor
  · exact evictsLeast_of_size h.size
  · intro instructions
    obtain ⟨_, hbetween⟩ := (h.withPending []).exists_applyAll instructions
    exact evictsLeast_of_size hbetween.size

end FieldCompression.DynamicTable
