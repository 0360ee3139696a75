import FieldCompression.Proofs.DynamicTable.Reachable
import FieldCompression.Proofs.FieldSection.Prefix
import FieldCompression.Proofs.Grammar.Integers
import FieldCompression.Proofs.SizeLimit.Sections

/-!
# Encoding undoes decoding

The converse of reading back what was written: what is accepted is what encoding writes, but for
integers that are spelled longer than they need be.
-/

namespace FieldCompression

/-! ## What is read is spelled

The converse of reading back what was written. When a reader completes an item, the octets that it
took spell that item, so nothing that a reader accepts is outside the grammar, and it passes over no
bit without having it in what it reads.

What stands above the prefix of an integer is not read by the integer's reader. It is whatever the
first octet holds there, `first.toNat >>> bits`, and the reader of the line, of the string or of the
prefix around the integer accounts for it. -/

/-! ### Flags -/

theorem toNat_flagAt (byte : UInt8) (position : Nat) :
    (flagAt byte position).toNat = byte.toNat >>> position % 2 := by
  rw [flagAt]
  by_cases h : byte.toNat >>> position % 2 = 1
  · simp [h]
  · have hzero : byte.toNat >>> position % 2 = 0 := by omega
    simp [hzero]

/-! ### Integers -/

namespace PrefixedInteger.Reader

private theorem digits_of_readContinuation {value shift v : Nat} {input : Bytes}
    (h : (readContinuation value shift input).result = .ok (some v)) :
    ∃ n digits, Digits n digits ∧ v = value + n <<< shift ∧
      input = digits ++ (readContinuation value shift input).rest := by
  induction input generalizing value shift with
  | nil => exact absurd h (by simp [readContinuation])
  | cons byte rest ih =>
    simp only [readContinuation] at h ⊢
    split at h
    · exact absurd h (by simp)
    rename_i hbound
    split at h
    · rename_i hlast
      obtain rfl : _ = v := by simpa using h
      refine ⟨byte.toNat, [byte], ?_, ?_, ?_⟩
      · have hdigits := Digits.last hlast
        rwa [UInt8.ofNat_toNat] at hdigits
      · rw [Nat.mod_eq_of_lt hlast]
      · rw [if_neg hbound, if_pos hlast]
        rfl
    · rename_i hmore
      obtain ⟨n, digits, hdigits, hv, hrest⟩ := ih h
      refine ⟨byte.toNat % 128 + 128 * n, byte :: digits, ?_, ?_, ?_⟩
      · have hbyte := byte.toNat_lt
        have hdigits := Digits.more (Nat.mod_lt byte.toNat (by decide)) hdigits
        rwa [show byte.toNat % 128 + 128 = byte.toNat by omega, UInt8.ofNat_toNat] at hdigits
      · rw [hv, shiftLeft_add_seven, Nat.shiftLeft_eq, Nat.shiftLeft_eq, Nat.shiftLeft_eq,
          Nat.mul_comm n 128, Nat.add_mul, Nat.add_assoc]
      · rw [if_neg hbound, if_neg hmore, List.cons_append, ← hrest]

/-- **What is read is spelled**, for integers. -/
theorem spells_of_read {bits v : Nat} {first : UInt8} {rest : Bytes}
    (h : ((start bits).read (first :: rest)).result = .ok (some v)) :
    ∃ octets, Spells bits (first.toNat >>> bits) v octets ∧
      first :: rest = octets ++ ((start bits).read (first :: rest)).rest := by
  have hfirst : (first.toNat >>> bits) <<< bits + first.toNat % (1 <<< bits) = first.toNat := by
    rw [shiftLeft_eq_mul, Nat.shiftRight_eq_div_pow, ← Nat.one_shiftLeft, Nat.div_add_mod']
  simp only [read] at h ⊢
  split at h
  · rename_i hshort
    obtain rfl : _ = v := by simpa using h
    have hspells : Spells bits (first.toNat >>> bits) _ _ := .short hshort
    rw [hfirst, UInt8.ofNat_toNat] at hspells
    exact ⟨[first], hspells, by rw [if_pos hshort]; rfl⟩
  · rename_i hlong
    obtain ⟨n, digits, hdigits, rfl, hrest⟩ := digits_of_readContinuation h
    have hfull : first.toNat % (1 <<< bits) = greatestIn bits := by
      have := Nat.mod_lt first.toNat (one_shiftLeft_pos bits)
      rw [greatestIn] at hlong ⊢
      omega
    have hspells : Spells bits (first.toNat >>> bits) _ _ := .long hdigits
    rw [← hfull, hfirst, UInt8.ofNat_toNat] at hspells
    refine ⟨first :: digits, by rwa [Nat.shiftLeft_zero], ?_⟩
    rw [if_neg hlong, List.cons_append, ← hrest]

end PrefixedInteger.Reader

/-! ### Strings -/

namespace StringLiteral.Reader

/-- A payload that is read is that of the string that is read from it. -/
theorem eq_payload_of_accepted {r : Reader} {part : Bytes}
    (haccepted : (r.expand {} part).accepted = true)
    (hfinal : r.huffman = true → (r.expand {} part).decoder.isFinal = true) :
    part = StringLiteral.payload ⟨r.huffman, (r.expand {} part).output⟩ := by
  rw [payload]
  by_cases hhuffman : r.huffman = true
  · simp only [expand, hhuffman, if_true] at haccepted hfinal ⊢
    refine Huffman.Decoder.Accepts.eq_encode ⟨_, ?_, hfinal trivial⟩
    rw [← haccepted]
  · simp [expand, hhuffman]

theorem rest_readPayload (r : Reader) (remaining decoded : Nat) (d : Huffman.Decoder)
    (input : Bytes) :
    (r.readPayload remaining decoded d input).rest = input.drop (min remaining input.length) := by
  simp only [readPayload]
  (repeat' split) <;> rfl

theorem huffman_readPayload (r : Reader) (remaining decoded : Nat) (d : Huffman.Decoder)
    (input : Bytes) : (r.readPayload remaining decoded d input).state.huffman = r.huffman := by
  simp only [readPayload]
  (repeat' split) <;> rfl

private theorem spells_of_readLength {r : Reader} {bits : Nat} {first : UInt8} {rest : Bytes}
    (h : (r.readLength (.start bits) (first :: rest)).result = .ok (some ())) :
    let x := r.readLength (.start bits) (first :: rest)
    let s : StringLiteral := ⟨x.state.huffman, x.output⟩
    x.state.huffman = r.huffman ∧
      ∃ octets, PrefixedInteger.Spells bits (first.toNat >>> bits) s.payload.length octets ∧
        first :: rest = octets ++ (s.payload ++ x.rest) := by
  simp only [readLength] at h ⊢
  rcases hint : ((PrefixedInteger.Reader.start bits).read (first :: rest)).result with
    cause | _ | length
  · simp [hint] at h
  · simp [hint] at h
  obtain ⟨octets, hspells, hinput⟩ := PrefixedInteger.Reader.spells_of_read hint
  simp only [hint] at h ⊢
  by_cases hlong : r.payloadLimit < length
  · simp [hlong] at h
  rw [if_neg hlong] at h ⊢
  obtain ⟨hlength, haccepted, hfinal, houtput⟩ := readPayload_of_done h
  have hpayload := eq_payload_of_accepted haccepted hfinal
  refine ⟨huffman_readPayload .., octets, ?_, ?_⟩
  · rw [huffman_readPayload, houtput, ← hpayload, List.length_take, Nat.min_eq_left hlength]
    exact hspells
  · rw [huffman_readPayload, houtput, ← hpayload, rest_readPayload, Nat.min_eq_left hlength,
      List.take_append_drop]
    exact hinput

end StringLiteral.Reader

/-! ### Lines -/

namespace FieldLine.Reader

/-- **What is read is spelled**, for strings. -/
theorem spells_of_text? {string : StringLiteral.Reader} {bits : Nat} {input more : Bytes}
    {s : StringLiteral} (hphase : string.phase = .flag bits)
    (h : text? string [] input = some (s, more)) :
    ∃ first rest octets, input = first :: rest ∧
      PrefixedInteger.Spells bits (first.toNat >>> (bits + 1) * 2 + s.huffman.toNat)
        s.payload.length octets ∧ input = octets ++ (s.payload ++ more) := by
  obtain ⟨phase, huffman, limit⟩ := string
  subst hphase
  rw [text?] at h
  cases input with
  | nil => exact absurd h (by simp [StringLiteral.Reader.read])
  | cons first rest =>
    simp only [StringLiteral.Reader.read] at h
    split at h
    · rename_i hread
      obtain ⟨rfl, rfl⟩ : _ = s ∧ _ = more := by simpa using h
      obtain ⟨hflag, octets, hspells, hinput⟩ := StringLiteral.Reader.spells_of_readLength hread
      refine ⟨first, rest, octets, rfl, ?_, hinput⟩
      have hhigh : first.toNat >>> (bits + 1) * 2 + (flagAt first bits).toNat =
          first.toNat >>> bits := by
        rw [toNat_flagAt, Nat.shiftRight_succ]
        omega
      simp only at hflag ⊢
      rw [hflag, hhigh]
      rwa [hflag] at hspells
    · exact absurd h (by simp)

theorem spelled_of_value {limit : Nat} {input more : Bytes} {s : StringLiteral}
    (h : text? (valueReader limit) [] input = some (s, more)) :
    ∃ integers octets, Spelled [.string 7 0 s] integers octets ∧ input = octets ++ more := by
  obtain ⟨first, rest, octets, rfl, hspells, hinput⟩ := spells_of_text? rfl h
  have hhigh : first.toNat >>> (7 + 1) = 0 := by
    have := first.toNat_lt
    omega
  rw [hhigh] at hspells
  refine ⟨_, _, .string hspells .nil, ?_⟩
  rw [hinput, List.append_nil, List.append_assoc]

section Lines

variable {bits high remaining : Nat} {addressing : Addressing} {neverIndexed : Bool}
  {first : UInt8} {rest more : Bytes} {line : FieldLine}

theorem spells_of_index? {i : Nat} (h : index? (.start bits) (first :: rest) = some (i, more)) :
    ∃ octets, PrefixedInteger.Spells bits (first.toNat >>> bits) i octets ∧
      first :: rest = octets ++ more := by
  simp only [index?] at h
  split at h
  · rename_i hint
    obtain ⟨rfl, rfl⟩ : _ = i ∧ _ = more := by simpa using h
    exact PrefixedInteger.Reader.spells_of_read hint
  · exact absurd h (by simp)

private theorem spelled_of_entryIndex (hhigh : first.toNat >>> bits = high)
    (hparts : ∀ i, (FieldLine.indexed addressing i).parts = [.integer bits high i])
    (h : (entryIndex addressing (.start bits)).complete? remaining (first :: rest) =
      some (line, more)) :
    ∃ integers octets, Spelled line.parts integers octets ∧ first :: rest = octets ++ more := by
  obtain ⟨⟨i, rest⟩, hi, ⟨⟩⟩ := Option.map_eq_some_iff.mp h
  obtain ⟨octets, hspells, hinput⟩ := spells_of_index? hi
  rw [hhigh] at hspells
  rw [hparts]
  refine ⟨_, _, .integer hspells .nil, ?_⟩
  rwa [List.append_nil]

private theorem spelled_of_nameIndex (hhigh : first.toNat >>> bits = high)
    (hparts : ∀ i value, (FieldLine.nameReference addressing neverIndexed i value).parts =
      [.integer bits high i, .string 7 0 value])
    (h : (nameIndex addressing neverIndexed (.start bits)).complete? remaining (first :: rest) =
      some (line, more)) :
    ∃ integers octets, Spelled line.parts integers octets ∧ first :: rest = octets ++ more := by
  obtain ⟨⟨i, middle⟩, hi, h⟩ := Option.bind_eq_some_iff.mp h
  obtain ⟨⟨value, rest⟩, hvalue, ⟨⟩⟩ := Option.map_eq_some_iff.mp h
  obtain ⟨octets, hspells, hinput⟩ := spells_of_index? hi
  obtain ⟨integers, octets', hspelled, rfl⟩ := spelled_of_value hvalue
  rw [hhigh] at hspells
  rw [hparts]
  refine ⟨_, _, .integer hspells hspelled, ?_⟩
  rw [hinput, List.append_assoc]

private theorem spelled_of_literalName (hhigh : first.toNat >>> 4 = 0b0010 + neverIndexed.toNat)
    (h : (literalName neverIndexed (.start 3) []).complete? remaining (first :: rest) =
      some (line, more)) :
    ∃ integers octets, Spelled line.parts integers octets ∧ first :: rest = octets ++ more := by
  obtain ⟨⟨name, middle⟩, hname, h⟩ := Option.bind_eq_some_iff.mp h
  obtain ⟨⟨value, rest⟩, hvalue, ⟨⟩⟩ := Option.map_eq_some_iff.mp h
  obtain ⟨_, _, octets, ⟨⟩, hspells, hinput⟩ := spells_of_text? rfl hname
  obtain ⟨integers, octets', hspelled, rfl⟩ := spelled_of_value hvalue
  rw [hhigh] at hspells
  refine ⟨_, _, .string hspells hspelled, ?_⟩
  rw [hinput, List.append_assoc, List.append_assoc]

/-- **What is read is spelled**, for lines. -/
theorem spelled_of_complete?
    (h : (ofByte first).complete? remaining (first :: rest) = some (line, more)) :
    ∃ integers octets, Spelled line.parts integers octets ∧ first :: rest = octets ++ more := by
  have hfirst := first.toNat_lt
  rw [ofByte] at h
  split at h
  · rw [indexed] at h
    split at h
    · rename_i hstatic
      have hbit := of_decide_eq_true hstatic
      exact spelled_of_entryIndex (by omega) (fun i ↦ rfl) h
    · rename_i hrelative
      have hbit := of_decide_eq_false (eq_false_of_ne_true hrelative)
      exact spelled_of_entryIndex (by omega) (fun i ↦ rfl) h
  split at h
  · have hnever := toNat_flagAt first 5
    rw [nameReference] at h
    split at h
    · rename_i hstatic
      have hbit := of_decide_eq_true hstatic
      exact spelled_of_nameIndex (by omega) (fun i value ↦ rfl) h
    · rename_i hrelative
      have hbit := of_decide_eq_false (eq_false_of_ne_true hrelative)
      exact spelled_of_nameIndex (by omega) (fun i value ↦ rfl) h
  split at h
  · have hnever := toNat_flagAt first 4
    exact spelled_of_literalName (by omega) h
  split at h
  · exact spelled_of_entryIndex (by omega) (fun i ↦ rfl) h
  · have hnever := toNat_flagAt first 3
    exact spelled_of_nameIndex (by omega) (fun i value ↦ rfl) h

end Lines

end FieldLine.Reader

/-! ### Prefixes -/

namespace SectionPrefix

private theorem sign_of_baseOf {count delta base : Nat} {negative : Bool}
    (h : baseOf count negative delta = .ok base) :
    (if count ≤ base then Part.integer 7 0 (base - count)
      else .integer 7 1 (count - base - 1)) = .integer 7 negative.toNat delta := by
  rw [baseOf] at h
  split at h
  · rename_i hnegative
    split at h
    · obtain rfl := Except.ok.inj h
      rw [if_neg (by omega), hnegative]
      congr 1
      omega
    · exact absurd h (by simp)
  · rename_i hpositive
    split at h
    · obtain rfl := Except.ok.inj h
      rw [if_pos (Nat.le_add_right _ _), Nat.add_sub_cancel_left,
        eq_false_of_ne_true hpositive]
      rfl
    · exact absurd h (by simp)

namespace Reader

variable {table : TableView} {input : Bytes} {p : SectionPrefix}

/-- **What is read is spelled**, for prefixes. -/
theorem spelled_of_read (h : (fresh.read table input).result = .ok (some p)) :
    ∃ integers octets, Spelled (p.parts table.maxEntries) integers octets ∧
      input = octets ++ (fresh.read table input).rest := by
  obtain ⟨encoded, hint, hcount, hread⟩ := read_fresh_eq_some h
  rw [hread] at h ⊢
  obtain ⟨byte, rest, hrest, -, hmore, distance, hdistance, hbase⟩ := readSign_eq_some h
  rw [hmore]
  cases input with
  | nil => exact absurd hint (by simp [PrefixedInteger.Reader.read])
  | cons first tail =>
    obtain ⟨octets, hspells, hinput⟩ := PrefixedInteger.Reader.spells_of_read hint
    rw [hrest] at hdistance hinput ⊢
    obtain ⟨octets', hspells', hinput'⟩ := PrefixedInteger.Reader.spells_of_read hdistance
    have hfirst : first.toNat >>> 8 = 0 := by
      have := first.toNat_lt
      omega
    have hbyte : byte.toNat >>> 7 = (flagAt byte 7).toNat := by
      have := byte.toNat_lt
      rw [toNat_flagAt]
      omega
    rw [hfirst, eq_encodeInsertCount_of_reconstruct hcount] at hspells
    rw [hbyte] at hspells'
    rw [parts, sign_of_baseOf hbase]
    refine ⟨_, _, .integer hspells (.integer hspells' .nil), ?_⟩
    rw [List.append_nil, List.append_assoc, ← hinput', ← hinput]

end Reader

end SectionPrefix

/-! ## What is accepted is encoded

The octets of an accepted section spell its prefix and, for each reported field in order, the line
that `FieldLine.Event.line?` gives for it. So every bit of the octets is in what was reported, the
spelling of integers apart, and a section whose integers are minimal is given back by encoding. -/

open FieldLine

namespace FieldLine

private theorem wireIndex_of_names {base index : Nat} {addressing : Addressing} {entry : TableIndex}
    (h : Names base addressing index entry) : wireIndex base entry = (addressing, index) := by
  cases h with
  | static => rfl
  | @relative index absolute habsolute =>
    rw [wireIndex, if_pos (by omega)]
    congr 1
    omega
  | postBase => rw [wireIndex, if_neg (by omega), Nat.add_sub_cancel_left]

/-- The line that stands for an event is the one that was reported as it. -/
theorem line?_of_denotes {p : SectionPrefix} {table : TableView} {line : FieldLine} {e : Event}
    (h : Denotes p table line e) : e.line? p.base = some line := by
  cases h with
  | indexed hnames _ => simp only [Event.line?, wireIndex_of_names hnames]
  | nameReference _ _ hnames _ => simp only [Event.line?, wireIndex_of_names hnames]
  | literalName => rfl

end FieldLine

namespace Decoder

private theorem spelled_of_readLines {ctx : Context} {input : Bytes}
    (hok : (readLines ctx input).result = .ok ()) (hidle : (readLines ctx input).line = .idle) :
    ∃ (lines : List FieldLine) (integers : List Bytes),
      (readLines ctx input).events.map (Event.line? ctx.sectionPrefix.base) = lines.map some ∧
        Spelled (lines.flatMap FieldLine.parts) integers input := by
  induction hlen : input.length using Nat.strongRecOn generalizing ctx input with
  | ind n ih =>
    cases input with
    | nil =>
      rw [readLines_nil]
      exact ⟨[], [], rfl, .nil⟩
    | cons first rest =>
      obtain ⟨line, e, field, more, hcomplete, hdenotes, -, -, hshorter, hmore, hidle', hevents⟩ :=
        exists_first_line hok hidle
      obtain ⟨lines, integers, hlines, hspelled⟩ := ih _ (hlen ▸ hshorter) hmore hidle' rfl
      obtain ⟨found, octets, hline, hinput⟩ := Reader.spelled_of_complete? hcomplete
      refine ⟨line :: lines, found ++ integers, ?_, ?_⟩
      · rw [hevents, List.map_cons, List.map_cons, line?_of_denotes hdenotes, ← hlines]
        rfl
      · rw [hinput, List.flatMap_cons]
        exact hline.append hspelled

/-- **What is read is spelled**, for sections. -/
theorem spelled_of_advance {limit : Nat} {table : TableView} {input : Bytes} {p : SectionPrefix}
    (hok : ((start limit).advance table input).result = .ok ())
    (hphase : ((start limit).advance table input).decoder.phase = .lines p .idle) :
    ∃ (lines : List FieldLine) (integers : List Bytes),
      ((start limit).advance table input).events.map (Event.line? p.base) = lines.map some ∧
        Spelled (sectionParts table.maxEntries p lines) integers input := by
  obtain ⟨hread, hlines⟩ := lines_of_phase hphase
  obtain ⟨hresult, hevents, hphase'⟩ := hlines limit
  have hidle := (Phase.lines.inj (hphase'.symm.trans hphase)).2
  obtain ⟨lines, integers, hmap, hspelled⟩ := spelled_of_readLines (hresult ▸ hok) hidle
  obtain ⟨found, octets, hprefix, hinput⟩ := SectionPrefix.Reader.spelled_of_read hread
  refine ⟨lines, found ++ integers, ?_, ?_⟩
  · rw [hevents]
    exact hmap
  · rw [hinput]
    exact hprefix.append hspelled

theorem spelled_of_run {limit : Nat} {table : TableView} {chunks : List Bytes} {p : SectionPrefix}
    (hok : ((start limit).run table chunks).result = .ok ())
    (hfinish : ((start limit).run table chunks).decoder.finish.result = .ok p) :
    ∃ (lines : List FieldLine) (integers : List Bytes),
      ((start limit).run table chunks).events.map (Event.line? p.base) = lines.map some ∧
        Spelled (sectionParts table.maxEntries p lines) integers chunks.flatten := by
  have hone := result_run_start_iff.mp hok
  rw [run_start_of_ok hone] at hfinish ⊢
  obtain ⟨p', hphase⟩ := exists_idle_of_finish
    (d := ((start limit).advance table chunks.flatten).decoder) (hfinish ▸ not_failed_ok p)
  simp only [finish, hphase] at hfinish
  obtain rfl := Except.ok.inj hfinish
  exact spelled_of_advance hone hphase

end Decoder

/-- **Encoding undoes decoding.** Suppose that a section is accepted, in whatever chunks, with the
prefix `p`. Then each reported field stands for a line, the octets spell the prefix and these lines,
and they are the encoding of the prefix and the lines just if no integer among them has a digit too
many. Two such sections for tables that can have the same number of entries, with the same prefix
and the same reported fields, are therefore the same octets. -/
theorem Settings.encodeSection_decode (s : Settings) {table : TableView} {chunks : List Bytes}
    {p : SectionPrefix} (hok : (s.decoder.run table chunks).result = .ok ())
    (hfinish : (s.decoder.run table chunks).decoder.finish.result = .ok p) :
    let octets := chunks.flatten
    let events := (s.decoder.run table chunks).events
    (∃ lines : List FieldLine, events.map (Event.line? p.base) = lines.map some ∧
        (∃ integers, Spelled (sectionParts table.maxEntries p lines) integers octets) ∧
        (Minimal octets ↔ encodeSection table.maxEntries p lines = octets)) ∧
      ∀ (s' : Settings) (table' : TableView) (chunks' : List Bytes),
        table'.maxEntries = table.maxEntries →
        (s'.decoder.run table' chunks').result = .ok () →
        (s'.decoder.run table' chunks').decoder.finish.result = .ok p →
        (s'.decoder.run table' chunks').events = events →
        Minimal octets → Minimal chunks'.flatten → chunks'.flatten = octets := by
  intro octets events
  obtain ⟨lines, integers, hlines, hspelled⟩ := Decoder.spelled_of_run hok hfinish
  refine ⟨⟨lines, hlines, ⟨integers, hspelled⟩, hspelled.minimal_iff⟩, ?_⟩
  intro s' table' chunks' hentries hok' hfinish' hevents hminimal hminimal'
  obtain ⟨lines', integers', hlines', hspelled'⟩ := Decoder.spelled_of_run hok' hfinish'
  have hsame : lines' = lines := by
    refine (List.map_inj_right fun _ _ ↦ Option.some.inj).mp ?_
    rw [← hlines', ← hlines]
    exact congrArg _ hevents
  calc chunks'.flatten
      = encodeSection table'.maxEntries p lines' := (hspelled'.minimal_iff.mp hminimal').symm
    _ = encodeSection table.maxEntries p lines := by rw [hentries, hsame]
    _ = octets := hspelled.minimal_iff.mp hminimal

/-- A section with references on both sides of its Base, and a name of seven octets, whose length
has a digit that is zero and not superfluous. -/
theorem Settings.encodeSection_decode_seven :
    let s : Settings := { maxTableCapacity := 128 }
    let table := (s.table.run
      [.setCapacity 128, .insert ⟨[97], [98]⟩, .insert ⟨[99], [100]⟩]).view
    let chunks : List Bytes :=
      [[0x03, 0x80], [0x80, 0x10, 0x37, 0x00, 103, 103, 103, 103, 103, 103, 103, 0x81, 0x93]]
    let events := (s.decoder.run table chunks).events
    Minimal chunks.flatten ∧
      ∃ lines : List FieldLine, events.map (Event.line? 1) = lines.map some ∧
        encodeSection table.maxEntries ⟨2, 1⟩ lines = chunks.flatten := by
  intro s table chunks events
  have hok : (s.decoder.run table chunks).result = .ok () := by cbv
  have hfinish : (s.decoder.run table chunks).decoder.finish.result = .ok ⟨2, 1⟩ := by cbv
  have hminimal : Minimal chunks.flatten := by
    have hintegers : sectionIntegers chunks.flatten =
        [[0x03], [0x80], [0x80], [0x10], [0x37, 0x00], [0x81]] := by cbv
    rw [Minimal, hintegers]
    decide
  obtain ⟨⟨lines, hlines, -, hiff⟩, -⟩ := s.encodeSection_decode hok hfinish
  exact ⟨hminimal, lines, hlines, hiff.mp hminimal⟩

end FieldCompression
