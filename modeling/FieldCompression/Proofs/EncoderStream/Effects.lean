import FieldCompression.Proofs.EncoderStream.Readings

/-!
# What a call on the encoder stream leaves

What a table has kept and what a chunk brings are some valid instructions, and after them there is
nothing, or the beginning of an instruction, or something wrong. This is all that has to be told
apart to say what a call makes of the table, and what of the octets it keeps.
-/

namespace FieldCompression

/-! ## What a call leaves

The octets that a table has kept and those of a chunk begin with some instructions, each of which is
valid for the table as the ones before it leave it. A call executes these instructions and nothing
else. The beginning of an instruction it keeps as it is, and what is wrong makes it fail and leaves
no trace.

`Refuses` says of any octets that they are wrong, and in the negative: they do not end too early,
and if they hold an instruction then the table refuses that. So nothing has to be known of how
octets may be wrong, and no octets are left out. That a failing instruction has not begun to change
the table when it fails is in `Executes` and `Invalid`: there is no table in between for an
instruction to leave. -/

/-- The input begins with instructions one after the other, and `rest` is what follows. -/
inductive Instruction.HoldsAll : Bytes → List Instruction → Bytes → Prop
  /-- With none. -/
  | nil (rest : Bytes) : HoldsAll rest [] rest
  /-- With a first one, and the others after it. -/
  | cons {input middle rest : Bytes} {i : Instruction} {more : List Instruction}
    (hfirst : Holds input i middle) (hmore : HoldsAll middle more rest) :
    HoldsAll input (i :: more) rest

namespace DynamicTable

open Instruction (Holds HoldsAll Lacks scan scan_reads)

variable {t t' : DynamicTable} {history : List Field} {i : Instruction} {input rest : Bytes}

/-- The input is neither the beginning of an instruction nor an instruction that is valid. -/
structure Refuses (t : DynamicTable) (input : Bytes) : Prop where
  /-- It does not end too early. -/
  not_lacks : ¬Lacks t.capacity input
  /-- If it begins with an instruction, the table refuses that. -/
  invalid : ∀ i rest, Holds input i rest → t.Invalid i

namespace Tracks

/-! ### One instruction -/

theorem scan_of_executes (h : Tracks history t) (hholds : Holds input i rest)
    (hexecutes : Executes t i t') : scan t.capacity input = .item i rest :=
  ((scan_reads t.capacity input).item_iff i rest).mpr ⟨hholds, h.readable_of_executes hexecutes⟩

/-- What a scan does not find incomplete is refused unless it finds a valid instruction. -/
theorem refuses_of_scan (h : Tracks history t) (hcomplete : scan t.capacity input ≠ .incomplete)
    (hinvalid : ∀ i rest, scan t.capacity input = .item i rest → t.Invalid i) :
    t.Refuses input where
  not_lacks := by
    intro hlacks
    exact hcomplete ((scan_reads t.capacity input).incomplete_iff.mpr hlacks)
  invalid := by
    intro i rest hholds
    rcases h.executes_or_invalid i with ⟨t', hexecutes⟩ | hrefused
    · exact hinvalid i rest (h.scan_of_executes hholds hexecutes)
    · exact hrefused

theorem process_of_refuses (h : Tracks history t) (hrefuses : t.Refuses input) :
    Failed (t.process input).result ∧ (t.process input).table = t := by
  rcases hscan : scan t.capacity input with ⟨i, rest⟩ | _ | ⟨cause, notes⟩
  · obtain ⟨hholds, -⟩ := ((scan_reads t.capacity input).item_iff i rest).mp hscan
    exact h.process_of_scan_of_invalid hscan (hrefuses.invalid i rest hholds)
  · exact absurd ((scan_reads t.capacity input).incomplete_iff.mp hscan) hrefuses.not_lacks
  · rw [DynamicTable.process_of_invalid hscan]
    exact ⟨failed_error cause, rfl⟩

/-! ### Instruction after instruction -/

theorem process_of_holdsAll (h : Tracks history t) {instructions : List Instruction}
    (hholds : HoldsAll input instructions rest) (hexecutes : ExecutesAll t instructions t') :
    (t.process input).Same (t'.process rest) := by
  induction hexecutes generalizing history input with
  | nil t =>
    cases hholds
    exact .rfl
  | cons hfirst hmore ih =>
    cases hholds with
    | cons hholds hholdsMore =>
      obtain ⟨_, hnext⟩ := h.executes hfirst
      have hsame := h.process_of_scan (h.scan_of_executes hholds hfirst) hfirst
      exact hsame.trans (ih hnext hholdsMore)

theorem exists_holdsAll (h : Tracks history t) (input : Bytes) :
    ∃ instructions t' rest, HoldsAll input instructions rest ∧ ExecutesAll t instructions t' ∧
      (Lacks t'.capacity rest ∨ t'.Refuses rest) := by
  induction hlen : input.length using Nat.strongRecOn generalizing history t input with
  | ind n ih =>
    rcases hscan : scan t.capacity input with ⟨i, rest⟩ | _ | ⟨cause, notes⟩
    · obtain ⟨hholds, -⟩ := ((scan_reads t.capacity input).item_iff i rest).mp hscan
      rcases h.executes_or_invalid i with ⟨t', hexecutes⟩ | hinvalid
      · have hshorter := Instruction.length_rest_of_scan hscan
        obtain ⟨_, hnext⟩ := h.executes hexecutes
        obtain ⟨instructions, t'', last, hmore, hall, hend⟩ := ih _ (hlen ▸ hshorter) hnext rest rfl
        exact ⟨i :: instructions, t'', last, .cons hholds hmore, .cons hexecutes hall, hend⟩
      · refine ⟨[], t, input, .nil input, .nil t, .inr (h.refuses_of_scan (by simp [hscan]) ?_)⟩
        intro i' rest' hscan'
        obtain ⟨rfl, -⟩ := Scan.item.inj (hscan.symm.trans hscan')
        exact hinvalid
    · have hlacks := (scan_reads t.capacity input).incomplete_iff.mp hscan
      exact ⟨[], t, input, .nil input, .nil t, .inl hlacks⟩
    · exact ⟨[], t, input, .nil input, .nil t,
        .inr (h.refuses_of_scan (by simp [hscan]) (by simp [hscan]))⟩

end Tracks

/-! ### The result -/

/-- **No effect but that of whole, valid instructions.** In a table that calls can reach, what was
kept and any further chunk begin with instructions that are valid one after the other, and after
them the octets end too early or are wrong. A call on the chunk leaves the table that these
instructions make. If the octets end too early it succeeds and keeps just the ones after the
instructions, and if they are wrong it fails and keeps none. -/
theorem receive_effect (maxCapacity : Nat) (ops : List Operation) (chunk : Bytes) :
    let t := (empty maxCapacity).run ops
    let u := t.receive chunk
    (∀ instructions t' rest, HoldsAll (t.pending ++ chunk) instructions rest →
      ExecutesAll { t with pending := [] } instructions t' →
        (Lacks t'.capacity rest → u.result = .ok () ∧ u.table = { t' with pending := rest }) ∧
        (t'.Refuses rest → Failed u.result ∧ u.table = t' ∧ u.table.pending = [])) ∧
      ∃ instructions t' rest, HoldsAll (t.pending ++ chunk) instructions rest ∧
        ExecutesAll { t with pending := [] } instructions t' ∧
          (Lacks t'.capacity rest ∨ t'.Refuses rest) := by
  intro t u
  have h : Tracks _ { t with pending := [] } := ((tracks_empty maxCapacity).run ops).withPending []
  refine ⟨?_, h.exists_holdsAll (t.pending ++ chunk)⟩
  intro instructions t' rest hholds hexecutes
  have hsame : u.Same (t'.process rest) := h.process_of_holdsAll hholds hexecutes
  constructor
  · intro hlacks
    rw [process_of_incomplete ((scan_reads t'.capacity rest).incomplete_iff.mpr hlacks)] at hsame
    exact ⟨hsame.ok rfl, hsame.2⟩
  · intro hrefuses
    obtain ⟨_, hreached⟩ := h.executesAll hexecutes
    obtain ⟨hfailed, htable⟩ := hreached.process_of_refuses hrefuses
    have hkept : u.table = t' := hsame.2.trans htable
    exact ⟨hsame.1.mpr hfailed, hkept, hkept ▸ hexecutes.pending⟩

end DynamicTable

/-! ## How much is kept

A peer need never finish an instruction, and what there is of it is kept until more arrives. It is
not much. An integer that has not ended has a first octet and ten digits at most. Where a string has
not ended, its length was allowed, so the payload has at most four times the limit, which is the
capacity of the table. An instruction consists of at most two such items.

An instruction is read under the capacity that the table has then, and the capacity may be lowered
afterwards while the beginning of the instruction stays. So the invariant, `KeepsBeginning`, speaks
of some capacity that was allowed, and the bound is that of the greatest. -/

/-! ### Items -/

namespace PrefixedInteger

variable {bits v : Nat} {input rest : Bytes}

theorem Holds.length_le (h : Holds bits input v rest) : input.length ≤ rest.length + 11 := by
  cases h with
  | short => exact Nat.add_le_add_left (by decide) _
  | long hfull hmore hlast hfits =>
    rw [Exceeds, not_or, List.length_append, List.length_singleton] at hfits
    rw [List.length_cons, List.length_append, List.length_cons]
    omega

theorem Lacks.length_le (h : Lacks bits input) : input.length ≤ 11 := by
  cases h with
  | nothing => exact Nat.zero_le _
  | digits hfull hmore hfits =>
    rw [Exceeds, not_or] at hfits
    rw [List.length_cons]
    omega

end PrefixedInteger

namespace StringLiteral

variable {bits limit length : Nat} {huffman : Bool} {input rest : Bytes} {s : StringLiteral}

theorem greatestPayload_le (huffman : Bool) (limit : Nat) :
    greatestPayload huffman limit ≤ 4 * limit := by
  rw [greatestPayload, maxExpansion]
  split <;> omega

theorem Announces.length_le (h : Announces bits input huffman length rest) :
    input.length ≤ rest.length + 11 := by
  cases h with
  | intro h => exact h.length_le

theorem Holds.length_le (h : Holds bits input s rest) (hfits : s.content.length ≤ limit) :
    input.length ≤ rest.length + 4 * limit + 11 := by
  have hinput := Announces.length_le h
  have hpayload : s.payload.length ≤ greatestPayload s.huffman limit :=
    length_payload_le_greatestPayload hfits
  have hgreatest := greatestPayload_le s.huffman limit
  rw [List.length_append] at hinput
  omega

theorem Lacks.length_le (h : Lacks limit bits input) : input.length ≤ 4 * limit + 11 := by
  cases h with
  | length hlength => exact Nat.le_trans hlength.length_le (Nat.le_add_left _ _)
  | @payload huffman length part content hlength hallowed hpart hbegins hfits =>
    have hinput := hlength.length_le
    have hgreatest := greatestPayload_le huffman limit
    omega

end StringLiteral

/-- An instruction that has not ended consists of at most two items. -/
theorem Instruction.Lacks.length_le {limit : Nat} {input : Bytes} (h : Lacks limit input) :
    input.length ≤ 8 * limit + 22 := by
  cases h with
  | nothing => exact Nat.zero_le _
  | nameIndex hfirst hindex =>
    have hinput := hindex.length_le
    omega
  | indexedValue hfirst hindex hvalue =>
    have hinput := hindex.length_le
    have hmiddle := hvalue.length_le
    omega
  | name hle hlt hname =>
    have hinput := hname.length_le
    omega
  | namedValue hle hlt hname hfits hvalue =>
    have hinput := hname.length_le hfits
    have hmiddle := hvalue.length_le
    omega
  | number hlt hnumber =>
    have hinput := hnumber.length_le
    omega

namespace DynamicTable

open Instruction (Lacks scan_reads)

variable {t : DynamicTable} {history : List Field}

/-! ### What is kept -/

/-- What is kept is the beginning of an instruction, read under a capacity that was allowed. -/
def KeepsBeginning (t : DynamicTable) : Prop := ∃ limit ≤ t.maxCapacity, Lacks limit t.pending

theorem keepsBeginning_of_nil (h : t.pending = []) : t.KeepsBeginning := by
  refine ⟨0, Nat.zero_le _, ?_⟩
  rw [h]
  exact .nothing

theorem KeepsBeginning.of_frame {t' : DynamicTable} (h : t.KeepsBeginning)
    (hframe : t'.maxCapacity = t.maxCapacity ∧ t'.pending = t.pending) : t'.KeepsBeginning := by
  rw [KeepsBeginning, hframe.1, hframe.2]
  exact h

namespace Tracks

/-- After the instructions that are executed, the rest is kept if it ends too early. -/
theorem keepsBeginning_process (h : Tracks history t) (hpending : t.pending = []) (input : Bytes) :
    (t.process input).table.KeepsBeginning := by
  obtain ⟨instructions, t', rest, hholds, hexecutes, hend⟩ := h.exists_holdsAll input
  obtain ⟨_, hreached⟩ := h.executesAll hexecutes
  rw [(h.process_of_holdsAll hholds hexecutes).2]
  rcases hend with hlacks | hrefuses
  · rw [process_of_incomplete ((scan_reads t'.capacity rest).incomplete_iff.mpr hlacks)]
    exact ⟨t'.capacity, hreached.capacity, hlacks⟩
  · rw [(hreached.process_of_refuses hrefuses).2]
    exact keepsBeginning_of_nil (hexecutes.pending.trans hpending)

theorem keepsBeginning_perform (h : Tracks history t) (hkeeps : t.KeepsBeginning)
    (op : Operation) : (t.perform op).table.KeepsBeginning := by
  cases op with
  | receive chunk => exact (h.withPending []).keepsBeginning_process rfl (t.pending ++ chunk)
  | insert field => exact hkeeps.of_frame (t.frame_insert field)
  | setCapacity capacity => exact hkeeps.of_frame (t.frame_setCapacity capacity)

theorem keepsBeginning_run (h : Tracks history t) (hkeeps : t.KeepsBeginning)
    (ops : List Operation) : (t.run ops).KeepsBeginning := by
  induction ops generalizing history t with
  | nil => exact hkeeps
  | cons op ops ih => exact ih (h.perform op) (h.keepsBeginning_perform hkeeps op)

end Tracks

/-! ### The result -/

/-- **The buffer is bounded.** After any calls on an empty table, also if some of them failed, what
it keeps of the encoder stream has at most eight times as many octets as the greatest capacity, and
twenty-two. -/
theorem length_pending_le (maxCapacity : Nat) (ops : List Operation) :
    ((empty maxCapacity).run ops).pending.length ≤
      8 * min maxCapacity (UInt32.size - 1) + 22 := by
  obtain ⟨limit, hlimit, hlacks⟩ :=
    (tracks_empty maxCapacity).keepsBeginning_run (keepsBeginning_of_nil rfl) ops
  have hmax : ((empty maxCapacity).run ops).maxCapacity = min maxCapacity (UInt32.size - 1) :=
    maxCapacity_run _ ops
  have hlength := hlacks.length_le
  omega

/-- Without any capacity, an index of eleven octets may be kept, and as many of the length of a
value. -/
example :
    let index : Bytes := 255 :: (List.replicate 9 128 ++ [0])
    let length : Bytes := 127 :: List.replicate 10 128
    ((empty 0).receive (index ++ length)).table.pending.length = 22 := by cbv

end DynamicTable

end FieldCompression
