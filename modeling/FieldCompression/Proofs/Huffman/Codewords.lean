import FieldCompression.Huffman

/-!
# Codewords

What decoding has to achieve, said without the transition table: bits are held back until together
they are a codeword, which then gives its octet. The word for the end of the string must not occur,
so bits that complete it are refused. Taking a codeword as soon as it is complete is right because
no codeword begins another. That is a property of the table of codewords, so it has to be computed.
-/

namespace FieldCompression.Huffman

/-! ## No codeword begins another

Comparing every two of the 257 words takes too long. `Separated` splits a list of words by their
first bits and goes on with the two halves, so each bit is looked at once: two words of which one
begins the other would stay together until the shorter of them is used up.

Besides that, only the lengths matter: a word has 5 to 30 bits. The first number is why four bits
complete at most one symbol, and the second is why a payload is at most four times as long as its
content. -/

/-! ### Splitting by the first bit -/

section Separated

variable {α : Type}

/-- The entries whose word begins with a bit, without that bit. -/
def after (bit : Bool) (entries : List (List Bool × α)) : List (List Bool × α) :=
  entries.filterMap fun
    | (b :: word, item) => if b = bit then some (word, item) else none
    | ([], _) => none

private theorem mem_after {bit : Bool} {entries : List (List Bool × α)} {word : List Bool}
    {item : α} (h : (bit :: word, item) ∈ entries) : (word, item) ∈ after bit entries :=
  List.mem_filterMap.mpr ⟨_, h, by simp⟩

theorem mem_of_mem_after {bit : Bool} {entries : List (List Bool × α)} {word : List Bool}
    {item : α} (h : (word, item) ∈ after bit entries) : (bit :: word, item) ∈ entries := by
  obtain ⟨entry, hmem, hentry⟩ := List.mem_filterMap.mp h
  match entry, hentry with
  | (b :: w, i), hentry =>
    obtain ⟨rfl, rfl, rfl⟩ : b = bit ∧ w = word ∧ i = item := by simpa using hentry
    exact hmem

/-- Whether splitting by the first bit, at most `depth` times, leaves every entry alone before its
word is used up. -/
def separated : (depth : Nat) → List (List Bool × α) → Bool
  | _, [] | _, [_] => true
  | 0, _ => false
  | depth + 1, entries =>
    entries.all (fun entry ↦ !entry.1.isEmpty) && separated depth (after false entries) &&
      separated depth (after true entries)

private theorem separated_after {depth : Nat} {entries : List (List Bool × α)}
    (hmany : 2 ≤ entries.length) (h : separated depth entries = true) :
    (∀ entry ∈ entries, entry.1 ≠ []) ∧
      ∃ depth', depth = depth' + 1 ∧ ∀ bit, separated depth' (after bit entries) = true := by
  match depth, entries, hmany with
  | 0, _ :: _ :: _, _ => simp [separated] at h
  | depth + 1, x :: y :: rest, _ =>
    simp only [separated, Bool.and_eq_true] at h
    obtain ⟨⟨hall, hfalse⟩, htrue⟩ := h
    refine ⟨fun entry hentry hnil ↦ ?_, depth, rfl, fun bit ↦ by cases bit <;> assumption⟩
    have := List.all_eq_true.mp hall entry hentry
    simp [hnil] at this

theorem eq_of_begins {depth : Nat} {entries : List (List Bool × α)}
    (h : separated depth entries = true) {v w : List Bool} {x y : α} (hv : (v, x) ∈ entries)
    (hw : (w, y) ∈ entries) (hbegins : v <+: w) : x = y := by
  by_cases hmany : 2 ≤ entries.length
  · obtain ⟨hnonempty, depth', rfl, hafter⟩ := separated_after hmany h
    cases v with
    | nil => exact absurd rfl (hnonempty _ hv)
    | cons bit v =>
      obtain ⟨tail, rfl⟩ := hbegins
      exact eq_of_begins (hafter bit) (mem_after hv) (mem_after hw) (List.prefix_append v tail)
  · -- with one entry left there is nothing to tell apart
    match entries, hmany with
    | [_], _ =>
      rw [List.mem_singleton] at hv hw
      exact congrArg Prod.snd (hv.trans hw.symm)
    | _ :: _ :: _, hmany => exact absurd (by simp) hmany
termination_by depth

end Separated

/-! ### The words of the table -/

/-- The place of a symbol in the table. -/
def Symbol.position : Symbol → Nat
  | octet value => value.toNat
  | endOfString => 256

theorem Symbol.position_injective {s t : Symbol} (h : s.position = t.position) : s = t := by
  cases s with
  | octet v =>
    cases t with
    | octet w => rw [UInt8.toNat_inj.mp h]
    | endOfString => exact absurd h (Nat.ne_of_lt v.toNat_lt)
  | endOfString =>
    cases t with
    | octet w => exact absurd h.symm (Nat.ne_of_lt w.toNat_lt)
    | endOfString => rfl

/-- The words in the order of the table. -/
def words : List (List Bool) :=
  octetCodes.map (fun (code, length) ↦ bitsOf length code) ++ [codeword .endOfString]

theorem separated_words : separated 30 words.zipIdx = true := by decide +kernel

theorem length_octetCodes : octetCodes.length = 256 := by decide +kernel

theorem getElem?_words (s : Symbol) : words[s.position]? = some (codeword s) := by
  cases s with
  | octet v =>
    have hv : v.toNat < octetCodes.length := length_octetCodes ▸ v.toNat_lt
    rw [words, Symbol.position, List.getElem?_append_left (by simpa using hv)]
    simp [codeword, hv]
  | endOfString => simp [words, Symbol.position, length_octetCodes]

private theorem codeword_mem_words (s : Symbol) : (codeword s, s.position) ∈ words.zipIdx := by
  rw [List.mem_zipIdx_iff_getElem?]
  exact getElem?_words s

/-- **The code is prefix-free.** -/
theorem eq_of_codeword_begins {s t : Symbol} (h : codeword s <+: codeword t) : s = t :=
  Symbol.position_injective
    (eq_of_begins separated_words (codeword_mem_words s) (codeword_mem_words t) h)

theorem codeword_injective {s t : Symbol} (h : codeword s = codeword t) : s = t :=
  eq_of_codeword_begins (h ▸ List.prefix_refl _)

theorem length_bitsOf (length value : Nat) : (bitsOf length value).length = length := by
  induction length with
  | zero => rfl
  | succ n ih => simp [bitsOf, ih]

private theorem length_words : ∀ word ∈ words, 5 ≤ word.length ∧ word.length ≤ 30 := by
  have hoctets : ∀ code ∈ octetCodes, 5 ≤ code.2 ∧ code.2 ≤ 30 := by decide +kernel
  intro word hword
  rcases List.mem_append.mp hword with h | h
  · obtain ⟨code, hcode, rfl⟩ := List.mem_map.mp h
    rw [length_bitsOf]
    exact hoctets code hcode
  · rw [List.mem_singleton.mp h]
    decide

theorem length_codeword (s : Symbol) :
    5 ≤ (codeword s).length ∧ (codeword s).length ≤ 30 :=
  length_words _ (List.mem_of_getElem? (getElem?_words s))

/-! ### From words to symbols -/

private theorem mem_symbols (s : Symbol) : s ∈ symbols := by
  cases s with
  | octet v =>
    refine List.mem_append_left _ (List.mem_map.mpr ⟨v.toNat, List.mem_range.mpr v.toNat_lt, ?_⟩)
    rw [UInt8.ofNat_toNat]
  | endOfString => exact List.mem_append_right _ (by simp)

/-- Looking up a word gives the symbol it is the word of, and nothing else has a symbol. -/
theorem symbolOf?_eq_some_iff {bits : List Bool} {s : Symbol} :
    symbolOf? bits = some s ↔ bits = codeword s := by
  have hsound {bits : List Bool} {s : Symbol} (h : symbolOf? bits = some s) :
      bits = codeword s := by
    obtain ⟨before, later, hsplit, -⟩ := List.lookup_eq_some_iff.mp h
    have hmem : (bits, s) ∈ codewords := by simp [hsplit]
    obtain ⟨t, -, ht⟩ := List.mem_map.mp hmem
    obtain ⟨rfl, rfl⟩ := Prod.mk.inj ht
    rfl
  constructor
  · exact hsound
  · rintro rfl
    have hsome : (symbolOf? (codeword s)).isSome := by
      rw [symbolOf?, List.lookup_isSome_iff]
      exact ⟨_, List.mem_map.mpr ⟨s, mem_symbols s, rfl⟩, by simp⟩
    obtain ⟨t, ht⟩ := Option.isSome_iff_exists.mp hsome
    rw [ht, codeword_injective (hsound ht)]

private theorem symbolOf?_of_part {s : Symbol} {held rest : List Bool}
    (h : held ++ rest = codeword s) (hrest : rest ≠ []) : symbolOf? held = none := by
  rw [← Option.not_isSome_iff_eq_none]
  intro hsome
  obtain ⟨t, ht⟩ := Option.isSome_iff_exists.mp hsome
  rw [symbolOf?_eq_some_iff] at ht
  obtain rfl : t = s := eq_of_codeword_begins (ht ▸ h ▸ List.prefix_append held rest)
  exact hrest (List.append_right_eq_self.mp (h.trans ht.symm))

/-! ## Reading codewords bit by bit

The statements go in two directions. Whatever bits have been accepted were codewords and the
beginning of one more (`eq_of_readBits?`). Conversely codewords give their octets back, padding
completes no word, and the word for the end of the string is refused wherever it begins. -/

/-- The codewords of a string, one after the other. -/
def bitsOfContent (content : Bytes) : List Bool :=
  content.flatMap fun octet ↦ codeword (.octet octet)

@[simp] theorem bitsOfContent_nil : bitsOfContent [] = [] := rfl

@[simp] theorem bitsOfContent_cons (octet : UInt8) (content : Bytes) :
    bitsOfContent (octet :: content) = codeword (.octet octet) ++ bitsOfContent content := rfl

theorem length_bitsOfContent_le (content : Bytes) :
    (bitsOfContent content).length ≤ 30 * content.length := by
  induction content with
  | nil => simp
  | cons octet content ih =>
    have := (length_codeword (.octet octet)).2
    simp only [bitsOfContent_cons, List.length_append, List.length_cons]
    omega

/-- Reads bits after those held back. Gives the octets that they complete and the bits held back in
the end, or nothing if they complete the word for the end of the string. -/
def readBits? (held : List Bool) : List Bool → Option (Bytes × List Bool)
  | [] => some ([], held)
  | bit :: bits =>
    match symbolOf? (held ++ [bit]) with
    | some (.octet value) => (readBits? [] bits).map fun (output, held) ↦ (value :: output, held)
    | some .endOfString => none
    | none => readBits? (held ++ [bit]) bits

@[simp] theorem readBits?_nil (held : List Bool) : readBits? held [] = some ([], held) := rfl

theorem readBits?_cons (held : List Bool) (bit : Bool) (bits : List Bool) :
    readBits? held (bit :: bits) =
      match symbolOf? (held ++ [bit]) with
      | some (.octet value) => (readBits? [] bits).map fun (output, held) ↦ (value :: output, held)
      | some .endOfString => none
      | none => readBits? (held ++ [bit]) bits := rfl

theorem readBits?_append (held a b : List Bool) :
    readBits? held (a ++ b) =
      (readBits? held a).bind fun (first, held₁) ↦
        (readBits? held₁ b).map fun (second, held₂) ↦ (first ++ second, held₂) := by
  induction a generalizing held with
  | nil => simp
  | cons bit a ih =>
    simp only [List.cons_append, readBits?_cons]
    rcases symbolOf? (held ++ [bit]) with _ | value | _
    · exact ih _
    · rw [ih]
      cases readBits? [] a <;> simp [Function.comp_def]
    · rfl

/-- Whatever bits have been accepted are codewords and the beginning of one more. -/
theorem eq_of_readBits? {held held' bits : List Bool} {output : Bytes}
    (h : readBits? held bits = some (output, held')) :
    held ++ bits = bitsOfContent output ++ held' := by
  induction bits generalizing held output with
  | nil =>
    obtain ⟨rfl, rfl⟩ : [] = output ∧ held = held' := by simpa using h
    simp
  | cons bit bits ih =>
    rw [readBits?_cons] at h
    rw [List.append_cons]
    split at h
    · rename_i value hsymbol
      obtain ⟨⟨output, held'⟩, hread, ⟨⟩⟩ := Option.map_eq_some_iff.mp h
      rw [symbolOf?_eq_some_iff.mp hsymbol, bitsOfContent_cons, List.append_assoc, ← ih hread]
      rfl
    · exact absurd h (by simp)
    · exact ih h

/-! ### Codewords -/

theorem codeword_ne_nil (s : Symbol) : codeword s ≠ [] := by
  intro hnil
  have hlength := (length_codeword s).1
  rw [hnil] at hlength
  exact absurd hlength (by decide)

theorem readBits?_of_part {s : Symbol} {held rest : List Bool} (h : held ++ rest = codeword s)
    (hrest : rest ≠ []) (bits : List Bool) :
    ∃ held' bit, held' ++ [bit] = codeword s ∧
      readBits? held (rest ++ bits) = readBits? held' (bit :: bits) := by
  induction rest generalizing held with
  | nil => exact absurd rfl hrest
  | cons bit rest ih =>
    have hsplit : held ++ [bit] ++ rest = codeword s := by rwa [List.append_assoc]
    by_cases hlast : rest = []
    · subst hlast
      exact ⟨held, bit, h, rfl⟩
    · have hnone : symbolOf? (held ++ [bit]) = none := symbolOf?_of_part hsplit hlast
      obtain ⟨held', bit', hword, hread⟩ := ih hsplit hlast
      refine ⟨held', bit', hword, ?_⟩
      rw [List.cons_append, readBits?_cons]
      simp only [hnone]
      exact hread

theorem readBits?_codeword (octet : UInt8) (bits : List Bool) :
    readBits? [] (codeword (.octet octet) ++ bits) =
      (readBits? [] bits).map fun (output, held) ↦ (octet :: output, held) := by
  obtain ⟨held, bit, hword, hread⟩ :=
    readBits?_of_part (List.nil_append _) (codeword_ne_nil (.octet octet)) bits
  rw [hread, readBits?_cons]
  simp only [symbolOf?_eq_some_iff.mpr hword]

theorem readBits?_endOfString (bits : List Bool) :
    readBits? [] (codeword .endOfString ++ bits) = none := by
  obtain ⟨held, bit, hword, hread⟩ :=
    readBits?_of_part (List.nil_append _) (codeword_ne_nil .endOfString) bits
  rw [hread, readBits?_cons]
  simp only [symbolOf?_eq_some_iff.mpr hword]

theorem readBits?_bitsOfContent (content : Bytes) (bits : List Bool) :
    readBits? [] (bitsOfContent content ++ bits) =
      (readBits? [] bits).map fun (output, held) ↦ (content ++ output, held) := by
  induction content with
  | nil => simp
  | cons octet content ih =>
    rw [bitsOfContent_cons, List.append_assoc, readBits?_codeword, ih]
    simp [Function.comp_def]

/-! ### What follows the last codeword -/

/-- Bits in which no codeword begins are held back. -/
theorem readBits?_of_no_codeword {tail : List Bool} (h : ∀ s, ¬codeword s <+: tail) :
    readBits? [] tail = some ([], tail) := by
  suffices ∀ held bits, held ++ bits = tail → readBits? held bits = some ([], tail) from
    this [] tail rfl
  intro held bits
  induction bits generalizing held with
  | nil =>
    rintro rfl
    rw [readBits?_nil, List.append_nil]
  | cons bit bits ih =>
    intro hsplit
    have hnone : symbolOf? (held ++ [bit]) = none := by
      rw [← Option.not_isSome_iff_eq_none]
      intro hsome
      obtain ⟨s, hs⟩ := Option.isSome_iff_exists.mp hsome
      refine h s ⟨bits, ?_⟩
      rw [← symbolOf?_eq_some_iff.mp hs, List.append_assoc]
      exact hsplit
    rw [readBits?_cons]
    simp only [hnone]
    exact ih _ (by rw [List.append_assoc]; exact hsplit)

theorem no_codeword_of_padding {n : Nat} (hn : n < 30) (s : Symbol) :
    ¬codeword s <+: List.replicate n true := by
  intro h
  have hone : List.replicate n true <+: codeword .endOfString := by
    refine ⟨List.replicate (30 - n) true, ?_⟩
    rw [List.replicate_append_replicate, Nat.add_sub_cancel' (Nat.le_of_lt hn)]
    rfl
  -- so the word would be the one for the end of the string, which is longer
  obtain rfl := eq_of_codeword_begins (h.trans hone)
  have hlength := h.length_le
  rw [codeword, List.length_replicate, List.length_replicate] at hlength
  omega

end FieldCompression.Huffman
