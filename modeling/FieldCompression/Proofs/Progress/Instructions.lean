import FieldCompression.Proofs.Progress.Lines

/-!
# The loop over instructions comes to its end

The instructions in a chunk are executed in a loop as well. A turn of it takes a whole instruction
from what the table has kept and the chunk, or else the loop ends there. So it is not the table that
makes the loop end but the scan of an instruction, and no invariant of tables is needed: whatever a
table holds, an instruction is at least one octet, and what follows it is the end of the input.

`Turns` are turns that have executed an instruction each. Where they stop, an instruction fails, or
is wrong, or has not arrived. In the last case what has arrived is kept, and a call that does not
fail leaves no octet that is neither kept nor part of an executed instruction.
-/

namespace FieldCompression

/-! ## What a scan takes -/

namespace Scan

private theorem suffix_of_integer {bits value : Nat} {input rest : Bytes}
    (h : integer bits input = item value rest) : rest <:+ input := by
  have hread := (PrefixedInteger.Reader.start bits).rest_read_suffix input
  simp only [integer] at h
  split at h
  · exact absurd h (by simp)
  · exact absurd h (by simp)
  · obtain ⟨-, rfl⟩ := item.inj h
    exact hread

private theorem suffix_of_string {limit bits : Nat} {s : StringLiteral} {input rest : Bytes}
    (h : string limit bits input = item s rest) : rest <:+ input := by
  have hread := ((StringLiteral.Reader.start bits).withLimit limit).rest_read_suffix input
  simp only [string] at h
  split at h
  · exact absurd h (by simp)
  · exact absurd h (by simp)
  · exact absurd h (by simp)
  · obtain ⟨-, rfl⟩ := item.inj h
    exact hread

private theorem suffix_of_map {α β : Type} {f : α → β} {s : Scan α} {b : β} {input rest : Bytes}
    (hs : ∀ a rest, s = item a rest → rest <:+ input) (h : s.map f = item b rest) :
    rest <:+ input := by
  obtain ⟨a, middle, hitem, hmap⟩ := andThen_eq_item h
  obtain ⟨-, rfl⟩ := item.inj hmap
  exact hs a middle hitem

end Scan

theorem Instruction.suffix_of_scan {limit : Nat} {i : Instruction} {input rest : Bytes}
    (h : scan limit input = .item i rest) : rest <:+ input := by
  cases input with
  | nil => exact absurd h (by simp [scan])
  | cons first tail =>
    simp only [scan] at h
    split at h
    · obtain ⟨_, _, hindex, hvalue⟩ := Scan.andThen_eq_item h
      exact (Scan.suffix_of_map (fun _ _ ↦ Scan.suffix_of_string) hvalue).trans
        (Scan.suffix_of_integer hindex)
    · split at h
      · obtain ⟨_, _, hname, hvalue⟩ := Scan.andThen_eq_item h
        exact (Scan.suffix_of_map (fun _ _ ↦ Scan.suffix_of_string) hvalue).trans
          (Scan.suffix_of_string hname)
      · split at h
        · exact Scan.suffix_of_map (fun _ _ ↦ Scan.suffix_of_integer) h
        · exact Scan.suffix_of_map (fun _ _ ↦ Scan.suffix_of_integer) h

/-! ## Turns -/

namespace DynamicTable

open Instruction (scan)

/-- A turn of the loop that executes an instruction. -/
structure Turn where
  /-- The octets that the turn takes. -/
  taken : Bytes
  /-- The instruction that they are. -/
  instruction : Instruction
deriving DecidableEq, Repr

/-- Turns of the loop that execute an instruction each, from a table and some octets to the table
and the octets that they leave. -/
inductive Turns : DynamicTable → Bytes → List Turn → DynamicTable → Bytes → Prop
  /-- There are none. -/
  | nil (t : DynamicTable) (input : Bytes) : Turns t input [] t input
  /-- There is a first one, and there are the others after it. -/
  | cons {t t' : DynamicTable} {input middle rest : Bytes} {i : Instruction} {more : List Turn}
    (hscan : scan t.capacity input = .item i middle) (hdone : (t.execute i).result = .ok ())
    (hmore : Turns (t.execute i).table middle more t' rest) :
    Turns t input (⟨consumed input middle, i⟩ :: more) t' rest

/-- No turn executes an instruction at the front of these octets. -/
def Stops (t : DynamicTable) (input : Bytes) : Prop :=
  ∀ i rest, scan t.capacity input = .item i rest → Failed (t.execute i).result

variable {t t' : DynamicTable} {input rest : Bytes} {turns : List Turn}

/-- **The loop ends.** There are no more turns than octets. -/
theorem Turns.length_le (h : Turns t input turns t' rest) :
    turns.length + rest.length ≤ input.length := by
  induction h with
  | nil t input => exact Nat.le_of_eq (Nat.zero_add _)
  | cons hscan _ _ ih =>
    have hshorter := Instruction.length_rest_of_scan hscan
    rw [List.length_cons]
    omega

private theorem stops_of_failed {i : Instruction} (hscan : scan t.capacity input = .item i rest)
    (hfailed : Failed (t.execute i).result) : t.Stops input := by
  intro i' rest' hscan'
  obtain ⟨rfl, -⟩ := Scan.item.inj (hscan.symm.trans hscan')
  exact hfailed

theorem stops_of_scan (h : ∀ i rest, scan t.capacity input ≠ .item i rest) : t.Stops input :=
  fun i rest hscan ↦ absurd hscan (h i rest)

private theorem exists_turns (t : DynamicTable) (input : Bytes) :
    ∃ turns t' rest, Turns t input turns t' rest ∧ t'.Stops rest := by
  induction hlength : input.length using Nat.strongRecOn generalizing t input with
  | ind n ih =>
    rcases hscan : scan t.capacity input with ⟨i, middle⟩ | _ | ⟨cause, notes⟩
    · rcases hresult : (t.execute i).result with cause | _
      · exact ⟨[], t, input, .nil t input, stops_of_failed hscan ⟨cause, hresult⟩⟩
      · have hshorter := Instruction.length_rest_of_scan hscan
        obtain ⟨turns, t', rest, hturns, hstops⟩ := ih _ (hlength ▸ hshorter) _ middle rfl
        exact ⟨_, t', rest, .cons hscan hresult hturns, hstops⟩
    · exact ⟨[], t, input, .nil t input, stops_of_scan (by simp [hscan])⟩
    · exact ⟨[], t, input, .nil t input, stops_of_scan (by simp [hscan])⟩

theorem Turns.taken_ne_nil (h : Turns t input turns t' rest) :
    ∀ turn ∈ turns, turn.taken ≠ [] := by
  induction h with
  | nil => exact fun turn hturn ↦ absurd hturn List.not_mem_nil
  | cons hscan _ _ ih =>
    rintro turn (_ | ⟨_, hturn⟩)
    · exact consumed_ne_nil (Instruction.length_rest_of_scan hscan)
    · exact ih turn hturn

theorem Turns.flatMap_taken (h : Turns t input turns t' rest) :
    turns.flatMap Turn.taken ++ rest = input := by
  induction h with
  | nil t input => rfl
  | cons hscan _ _ ih =>
    rw [List.flatMap_cons, List.append_assoc, ih]
    exact consumed_append (Instruction.suffix_of_scan hscan)

/-! ## The turns are the loop -/

theorem Turns.process (h : Turns t input turns t' rest) :
    (t.process input).Same (t'.process rest) := by
  induction h with
  | nil => exact .rfl
  | cons hscan hdone _ ih =>
    rw [process_of_done hscan hdone]
    exact (Update.Same.withNotes _ _).symm.trans ih

/-- Where no turn executes an instruction, the loop keeps all that is left, unless it fails. -/
theorem Stops.table_process (h : t.Stops input) (hok : (t.process input).result = .ok ()) :
    (t.process input).table = { t with pending := input } := by
  rcases hscan : scan t.capacity input with ⟨i, rest⟩ | _ | ⟨cause, notes⟩
  · obtain ⟨cause, hfailed⟩ := h i rest hscan
    rw [process_of_failed hscan hfailed] at hok
    exact absurd (hfailed.symm.trans hok) (by simp)
  · rw [process_of_incomplete hscan]
  · rw [process_of_invalid hscan] at hok
    exact absurd hok (by simp)

private theorem table_receive_of_turns {chunk : Bytes}
    (h : Turns { t with pending := [] } (t.pending ++ chunk) turns t' rest) (hstops : t'.Stops rest)
    (hok : (t.receive chunk).result = .ok ()) :
    (t.receive chunk).table = { t' with pending := rest } := by
  have hsame : (t.receive chunk).Same (t'.process rest) := h.process
  rw [hsame.2]
  exact hstops.table_process (hsame.symm.ok hok)

end DynamicTable

/-! ## Both loops -/

/-- **Progress.** After any calls of a decoder, the loop of a call on a chunk over field lines comes
to its end. It has at most as many turns as the chunk has octets, and each of them takes at least
one octet from the front of what is left, also one that fails. The call reports what the turns
report, and fails just if one of them fails. If it does not fail, the octets of the prefix and those
that the turns take are the chunk, and nothing is left of it.

The loop over instructions comes to its end for any table. Each of its turns takes an instruction of
at least one octet from the front of what the table has kept and the chunk. A call does the same as
one on what turns leave. If it does not fail, the octets that the turns take and those that the
table keeps are all that there were. -/
theorem Settings.loops_progress (s : Settings) (calls : List Decoder.Call) :
    let d := s.decoder.performAll calls
    (∀ (table : TableView) (chunk : Bytes),
      let x := d.decode table chunk
      let loop := Decoder.Visit.Turns (d.firstVisit? table chunk)
      (∃ turns, loop turns) ∧ ∀ turns, loop turns →
        turns.length ≤ chunk.length ∧
        (∀ v ∈ turns, v.taken ≠ [] ∧ v.taken ++ v.turn.rest = v.input) ∧
        x.events = turns.flatMap (·.turn.events) ∧
        (turns ≠ [] → ∀ cause, x.result = .error cause ↔
          ∃ v ∈ turns, v.turn.result = .error cause) ∧
        (x.result = .ok () →
          d.prefixOctets table chunk ++ turns.flatMap (·.taken) = chunk ∧ x.rest = [])) ∧
      ∀ (t : DynamicTable) (chunk : Bytes),
        let u := t.receive chunk
        let loop := DynamicTable.Turns { t with pending := [] } (t.pending ++ chunk)
        (∃ turns t' rest, loop turns t' rest ∧ t'.Stops rest) ∧
          ∀ turns t' rest, loop turns t' rest →
            turns.length ≤ (t.pending ++ chunk).length ∧
            (∀ turn ∈ turns, turn.taken ≠ []) ∧
            turns.flatMap (·.taken) ++ rest = t.pending ++ chunk ∧
            u.Same (t'.process rest) ∧
            (t'.Stops rest → u.result = .ok () → u.table = { t' with pending := rest }) := by
  intro d
  have hline : d.line = .idle ∨ d.line.Awaits :=
    Decoder.Waits.lasting.performAll (Decoder.Waits.lasting.start s.maxFieldSectionSize) calls
  refine ⟨?_, ?_⟩
  · intro table chunk x loop
    obtain ⟨turns, hturns, hle⟩ := Decoder.exists_turns hline table chunk
    refine ⟨⟨turns, hturns⟩, ?_⟩
    intro turns' hturns'
    obtain rfl := hturns.unique hturns'
    obtain ⟨hevents, hresult⟩ := Decoder.decode_of_turns hturns
    refine ⟨hle, ?_, hevents, hresult, ?_⟩
    · intro v hv
      exact ⟨(hturns.ready (fun _ ↦ Decoder.ready_of_firstVisit? hline) v hv).taken_ne_nil,
        v.taken_append⟩
    · intro hok
      exact ⟨Decoder.consumed_of_decode_ok hok hturns, Decoder.rest_decode_of_ok hok⟩
  · intro t chunk u loop
    refine ⟨DynamicTable.exists_turns _ _, ?_⟩
    intro turns t' rest hturns
    exact ⟨Nat.le_of_add_right_le hturns.length_le, hturns.taken_ne_nil, hturns.flatMap_taken,
      hturns.process, DynamicTable.table_receive_of_turns hturns⟩

/-- A name and a value of length zero, after a prefix: two turns for two octets. And a capacity,
with the beginning of an insertion after it: one turn, and the beginning is kept. -/
theorem Settings.loops_progress_empty_strings :
    let table : TableView := ⟨fun _ ↦ none, 0, 0⟩
    let d := ({} : Settings).decoder
    let t := ({} : Settings).table
    (∃ turns, Decoder.Visit.Turns (d.firstVisit? table [0x00, 0x00, 0x20, 0x00]) turns ∧
        turns.map (·.taken) = [[0x20], [0x00]] ∧
        (d.decode table [0x00, 0x00, 0x20, 0x00]).events =
          [.literalName ⟨[], []⟩ false false false]) ∧
      ∃ t', DynamicTable.Turns t [0x20, 0x80] [⟨[0x20], .setCapacity 0⟩] t' [0x80] ∧
        (t.receive [0x20, 0x80]).table.pending = [0x80] := by
  intro table d t
  obtain ⟨hlines, hinstructions⟩ := loops_progress {} []
  refine ⟨?_, ?_⟩
  · let ctx : FieldLine.Context := ⟨⟨0, 0⟩, table, d.size⟩
    let name : Decoder.Visit := ⟨ctx, .ofByte 0x20, [0x20, 0x00]⟩
    let value : Decoder.Visit :=
      ⟨ctx, .literalValue false ⟨false, []⟩ (FieldLine.Reader.valueReader maxWord) [], [0x00]⟩
    have hturns : Decoder.Visit.Turns (d.firstVisit? table [0x00, 0x00, 0x20, 0x00])
        [name, value] := .next rfl (.next rfl .ended)
    obtain ⟨-, -, hevents, -⟩ := (hlines table _).2 _ hturns
    refine ⟨_, hturns, by decide +kernel, hevents.trans ?_⟩
    decide +kernel
  · let after := (t.execute (.setCapacity 0)).table
    have hturns : DynamicTable.Turns t [0x20, 0x80] [⟨[0x20], .setCapacity 0⟩] after [0x80] :=
      .cons rfl rfl (.nil after [0x80])
    obtain ⟨-, -, -, hsame, hkept⟩ := (hinstructions t [0x20, 0x80]).2 _ _ _ hturns
    have hend : Instruction.scan after.capacity [0x80] = .incomplete := rfl
    have hstops := DynamicTable.stops_of_scan fun i rest h ↦ absurd (hend.symm.trans h) (by simp)
    have hok := hsame.ok (by rw [DynamicTable.process_of_incomplete hend])
    exact ⟨after, hturns, congrArg DynamicTable.pending (hkept hstops hok)⟩

end FieldCompression
