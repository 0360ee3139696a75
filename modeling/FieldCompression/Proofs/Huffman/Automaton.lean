import FieldCompression.Proofs.Huffman.Codewords

/-!
# The transition table reads codewords

A state of the transition table stands for bits that are the beginning of a codeword, and the row of
a state says what four more bits do. That the table agrees with the code is a property of its 4096
entries, so it has to be computed. `codeTree` is the code as a tree in which each branching carries
the number of its state. Two facts about it are computed, each by one walk over the tree:

* its leaves are the codewords, `spells_codeTree`;
* at every branching the row of the state says where four bits lead from there,
  `rowsAgree_codeTree`.

Everything else follows by induction on the bits. `Reads` relates a decoder to the bits that it
holds back, and it is kept by every half of an octet.

## Why a tree

Looking up every beginning of a word among the 257 words takes too long, and so does finding the
row of a state again for every bit. On the tree both are at hand at each branching.
-/

namespace FieldCompression.Huffman

/-- The code as a tree. -/
inductive CodeTree where
  /-- A complete word, with the place of its symbol. -/
  | leaf (position : Nat)
  /-- A beginning of words, with its state and what a zero and a one lead to. -/
  | node (state : Nat) (zero one : CodeTree)

namespace CodeTree

/-- The state of a branching. -/
def state : CodeTree → Nat
  | leaf _ => 0
  | node state _ _ => state

@[simp] theorem state_node (state : Nat) (zero one : CodeTree) :
    (node state zero one).state = state := rfl

/-- Where bits lead. -/
def follow? : CodeTree → List Bool → Option CodeTree
  | t, [] => some t
  | leaf _, _ :: _ => none
  | node _ zero one, bit :: bits => (if bit then one else zero).follow? bits

@[simp] theorem follow?_nil (t : CodeTree) : t.follow? [] = some t := by
  cases t <;> rfl

theorem follow?_append (t : CodeTree) (a b : List Bool) :
    t.follow? (a ++ b) = (t.follow? a).bind fun u ↦ u.follow? b := by
  induction a generalizing t with
  | nil => simp
  | cons bit a ih =>
    cases t with
    | leaf position => rfl
    | node state zero one => exact ih _

private theorem exists_leaf (t : CodeTree) :
    ∃ bits position, t.follow? bits = some (leaf position) := by
  induction t with
  | leaf position => exact ⟨[], position, rfl⟩
  | node state zero one ihzero ihone =>
    obtain ⟨bits, position, hleaf⟩ := ihzero
    exact ⟨false :: bits, position, hleaf⟩

/-- Whether the leaves are the given words, with their places. -/
def spells : List (List Bool × Nat) → CodeTree → Bool
  | entries, leaf position => entries == [([], position)]
  | entries, node _ zero one =>
    zero.spells (after false entries) && one.spells (after true entries)

private theorem mem_of_spells {t : CodeTree} {entries : List (List Bool × Nat)} {bits : List Bool}
    {position : Nat} (h : t.spells entries = true) (hleaf : t.follow? bits = some (leaf position)) :
    (bits, position) ∈ entries := by
  induction bits generalizing t entries with
  | nil =>
    obtain rfl : t = leaf position := by simpa using hleaf
    obtain rfl : entries = [([], position)] := by simpa [spells] using h
    exact List.mem_singleton_self _
  | cons bit bits ih =>
    cases t with
    | leaf p => exact absurd hleaf (by simp [follow?])
    | node state zero one =>
      obtain ⟨hzero, hone⟩ := Bool.and_eq_true_iff.mp h
      refine mem_of_mem_after (ih (t := if bit then one else zero) ?_ hleaf)
      cases bit
      · exact hzero
      · exact hone

end CodeTree

open CodeTree

/-- The code, with the states of the transition table. -/
def codeTree : CodeTree :=
  .node 0 (.node 66 (.node 85 (.node 86 (.node 87 (.leaf 48) (.leaf 49)) (.node 88 (.leaf 50)
  (.leaf 97))) (.node 130 (.node 131 (.leaf 99) (.leaf 101)) (.node 135 (.leaf 105) (.leaf 111))))
  (.node 67 (.node 68 (.node 143 (.leaf 115) (.leaf 116)) (.node 69 (.node 70 (.leaf 32) (.leaf
  37)) (.node 81 (.leaf 45) (.leaf 46)))) (.node 82 (.node 83 (.node 84 (.leaf 47) (.leaf 51))
  (.node 89 (.leaf 52) (.leaf 53))) (.node 90 (.node 91 (.leaf 54) (.leaf 55)) (.node 92 (.leaf 56)
  (.leaf 57)))))) (.node 1 (.node 93 (.node 99 (.node 100 (.node 101 (.leaf 61) (.leaf 65)) (.node
  129 (.leaf 95) (.leaf 98))) (.node 132 (.node 133 (.leaf 100) (.leaf 102)) (.node 134 (.leaf 103)
  (.leaf 104)))) (.node 94 (.node 138 (.node 139 (.leaf 108) (.leaf 109)) (.node 140 (.leaf 110)
  (.leaf 112))) (.node 95 (.node 142 (.leaf 114) (.leaf 117)) (.node 96 (.node 97 (.leaf 58) (.leaf
  66)) (.node 103 (.leaf 67) (.leaf 68)))))) (.node 2 (.node 104 (.node 105 (.node 106 (.node 107
  (.leaf 69) (.leaf 70)) (.node 108 (.leaf 71) (.leaf 72))) (.node 109 (.node 110 (.leaf 73) (.leaf
  74)) (.node 111 (.leaf 75) (.leaf 76)))) (.node 112 (.node 113 (.node 114 (.leaf 77) (.leaf 78))
  (.node 115 (.leaf 79) (.leaf 80))) (.node 116 (.node 117 (.leaf 81) (.leaf 82)) (.node 118 (.leaf
  83) (.leaf 84))))) (.node 3 (.node 119 (.node 120 (.node 121 (.leaf 85) (.leaf 86)) (.node 122
  (.leaf 87) (.leaf 89))) (.node 136 (.node 137 (.leaf 106) (.leaf 107)) (.node 141 (.leaf 113)
  (.leaf 118)))) (.node 4 (.node 144 (.node 145 (.leaf 119) (.leaf 120)) (.node 146 (.leaf 121)
  (.leaf 122))) (.node 5 (.node 75 (.node 76 (.leaf 38) (.leaf 42)) (.node 80 (.leaf 44) (.leaf
  59))) (.node 6 (.node 123 (.leaf 88) (.leaf 90)) (.node 7 (.node 71 (.node 72 (.leaf 33) (.leaf
  34)) (.node 79 (.leaf 40) (.leaf 41))) (.node 8 (.node 77 (.leaf 63) (.node 78 (.leaf 39) (.leaf
  43))) (.node 9 (.node 73 (.leaf 124) (.node 74 (.leaf 35) (.leaf 62))) (.node 10 (.node 11 (.node
  12 (.leaf 0) (.leaf 36)) (.node 102 (.leaf 64) (.leaf 91))) (.node 13 (.node 127 (.leaf 93)
  (.leaf 126)) (.node 14 (.node 128 (.leaf 94) (.leaf 125)) (.node 15 (.node 98 (.leaf 60) (.leaf
  96)) (.node 16 (.leaf 123) (.node 17 (.node 124 (.node 125 (.node 126 (.leaf 92) (.leaf 195))
  (.node 148 (.leaf 208) (.node 149 (.leaf 128) (.leaf 130)))) (.node 155 (.node 156 (.node 157
  (.leaf 131) (.leaf 162)) (.node 204 (.leaf 184) (.leaf 194))) (.node 175 (.node 241 (.leaf 224)
  (.leaf 226)) (.node 176 (.node 177 (.leaf 153) (.leaf 161)) (.node 188 (.leaf 167) (.leaf
  172)))))) (.node 18 (.node 150 (.node 196 (.node 197 (.node 198 (.leaf 176) (.leaf 177)) (.node
  202 (.leaf 179) (.leaf 209))) (.node 235 (.node 236 (.leaf 216) (.leaf 217)) (.node 242 (.leaf
  227) (.leaf 229)))) (.node 151 (.node 152 (.node 153 (.leaf 230) (.node 154 (.leaf 129) (.leaf
  132))) (.node 158 (.node 159 (.leaf 133) (.leaf 134)) (.node 160 (.leaf 136) (.leaf 146))))
  (.node 178 (.node 179 (.node 180 (.leaf 154) (.leaf 156)) (.node 182 (.leaf 160) (.leaf 163)))
  (.node 183 (.node 184 (.leaf 164) (.leaf 169)) (.node 190 (.leaf 170) (.leaf 173)))))) (.node 19
  (.node 20 (.node 199 (.node 200 (.node 201 (.leaf 178) (.leaf 181)) (.node 205 (.leaf 185) (.leaf
  186))) (.node 206 (.node 207 (.leaf 187) (.leaf 189)) (.node 210 (.leaf 190) (.leaf 196))))
  (.node 21 (.node 216 (.node 217 (.leaf 198) (.leaf 228)) (.node 243 (.leaf 232) (.leaf 233)))
  (.node 22 (.node 23 (.node 24 (.leaf 1) (.leaf 135)) (.node 161 (.leaf 137) (.leaf 138))) (.node
  162 (.node 163 (.leaf 139) (.leaf 140)) (.node 164 (.leaf 141) (.leaf 143)))))) (.node 25 (.node
  167 (.node 168 (.node 169 (.node 170 (.leaf 147) (.leaf 149)) (.node 172 (.leaf 150) (.leaf
  151))) (.node 173 (.node 174 (.leaf 152) (.leaf 155)) (.node 181 (.leaf 157) (.leaf 158))))
  (.node 185 (.node 186 (.node 187 (.leaf 165) (.leaf 166)) (.node 189 (.leaf 168) (.leaf 174)))
  (.node 194 (.node 195 (.leaf 175) (.leaf 180)) (.node 203 (.leaf 182) (.leaf 183))))) (.node 26
  (.node 41 (.node 208 (.node 209 (.leaf 188) (.leaf 191)) (.node 215 (.leaf 197) (.leaf 231)))
  (.node 42 (.node 43 (.leaf 239) (.node 44 (.leaf 9) (.leaf 142))) (.node 165 (.node 166 (.leaf
  144) (.leaf 145)) (.node 171 (.leaf 148) (.leaf 159))))) (.node 27 (.node 191 (.node 192 (.node
  193 (.leaf 171) (.leaf 206)) (.node 234 (.leaf 215) (.leaf 225))) (.node 218 (.node 245 (.leaf
  236) (.leaf 237)) (.node 219 (.node 220 (.leaf 199) (.leaf 207)) (.node 244 (.leaf 234) (.leaf
  235))))) (.node 28 (.node 211 (.node 212 (.node 213 (.node 214 (.leaf 192) (.leaf 193)) (.node
  221 (.leaf 200) (.leaf 201))) (.node 222 (.node 223 (.leaf 202) (.leaf 205)) (.node 228 (.leaf
  210) (.leaf 213)))) (.node 224 (.node 237 (.node 238 (.leaf 218) (.leaf 219)) (.node 246 (.leaf
  238) (.leaf 240))) (.node 225 (.node 248 (.leaf 242) (.leaf 243)) (.node 226 (.leaf 255) (.node
  227 (.leaf 203) (.leaf 204)))))) (.node 29 (.node 229 (.node 230 (.node 231 (.node 232 (.leaf
  211) (.leaf 212)) (.node 233 (.leaf 214) (.leaf 221))) (.node 239 (.node 240 (.leaf 222) (.leaf
  223)) (.node 247 (.leaf 241) (.leaf 244)))) (.node 249 (.node 250 (.node 251 (.leaf 245) (.leaf
  246)) (.node 252 (.leaf 247) (.leaf 248))) (.node 253 (.node 254 (.leaf 250) (.leaf 251)) (.node
  255 (.leaf 252) (.leaf 253))))) (.node 30 (.node 31 (.node 32 (.node 33 (.leaf 254) (.node 34
  (.leaf 2) (.leaf 3))) (.node 35 (.node 36 (.leaf 4) (.leaf 5)) (.node 37 (.leaf 6) (.leaf 7))))
  (.node 38 (.node 39 (.node 40 (.leaf 8) (.leaf 11)) (.node 51 (.leaf 12) (.leaf 14))) (.node 52
  (.node 53 (.leaf 15) (.leaf 16)) (.node 54 (.leaf 17) (.leaf 18))))) (.node 45 (.node 55 (.node
  56 (.node 57 (.leaf 19) (.leaf 20)) (.node 58 (.leaf 21) (.leaf 23))) (.node 60 (.node 61 (.leaf
  24) (.leaf 25)) (.node 62 (.leaf 26) (.leaf 27)))) (.node 46 (.node 63 (.node 64 (.leaf 28)
  (.leaf 29)) (.node 65 (.leaf 30) (.leaf 31))) (.node 47 (.node 147 (.leaf 127) (.leaf 220))
  (.node 48 (.leaf 249) (.node 49 (.node 50 (.leaf 10) (.leaf 13)) (.node 59 (.leaf 22) (.leaf
  256))))))))))))))))))))))))))))))

/-! ## The leaves are the codewords -/

theorem spells_codeTree : codeTree.spells words.zipIdx = true := by decide +kernel

private theorem length_words_eq : words.length = 257 := by
  rw [words, List.length_append, List.length_map, length_octetCodes, List.length_singleton]

theorem exists_symbol_of_leaf {bits : List Bool} {position : Nat}
    (h : codeTree.follow? bits = some (leaf position)) :
    ∃ s : Symbol, s.position = position ∧ bits = codeword s := by
  have hword : words[position]? = some bits :=
    List.mem_zipIdx_iff_getElem?.mp (mem_of_spells spells_codeTree h)
  obtain ⟨hlt, -⟩ := List.getElem?_eq_some_iff.mp hword
  rw [length_words_eq] at hlt
  obtain ⟨s, rfl⟩ : ∃ s : Symbol, s.position = position := by
    by_cases hoctet : position < 256
    · refine ⟨.octet (UInt8.ofNat position), ?_⟩
      rw [Symbol.position, UInt8.toNat_ofNat', Nat.mod_eq_of_lt hoctet]
    · exact ⟨.endOfString, by rw [Symbol.position]; omega⟩
  rw [getElem?_words] at hword
  exact ⟨s, rfl, (Option.some.inj hword).symm⟩

/-- Where there is a branching, no word is complete. -/
theorem symbolOf?_of_node {bits : List Bool} {state : Nat} {zero one : CodeTree}
    (h : codeTree.follow? bits = some (node state zero one)) : symbolOf? bits = none := by
  rw [← Option.not_isSome_iff_eq_none]
  intro hsome
  obtain ⟨s, hs⟩ := Option.isSome_iff_exists.mp hsome
  -- some word goes on from here, but a word begins no other
  obtain ⟨more, position, hleaf⟩ := exists_leaf (node state zero one)
  have hbelow : codeTree.follow? (bits ++ more) = some (leaf position) := by
    rw [follow?_append, h]
    exact hleaf
  obtain ⟨s', -, hword⟩ := exists_symbol_of_leaf hbelow
  rw [symbolOf?_eq_some_iff] at hs
  have hsame : s = s' := eq_of_codeword_begins ⟨more, by rw [← hword, hs]⟩
  rw [hs, ← hsame] at hword
  rw [List.append_right_eq_self.mp hword, follow?_nil] at hleaf
  exact absurd hleaf (by simp)

/-! ## Reading on the tree -/

/-- Whether the string may end after bits that are held back. -/
def endsWell (held : List Bool) : Bool := held.length ≤ 7 && held.all id

/-- Reads bits from a place of the tree. Gives the places of the symbols that they complete, and
the bits held back in the end with the place these lead to. -/
def walk : (held : List Bool) → CodeTree → List Bool → Option (List Nat × List Bool × CodeTree)
  | held, t, [] => some ([], held, t)
  | _, leaf _, _ :: _ => none
  | held, node _ zero one, bit :: bits =>
    match (if bit then one else zero) with
    | leaf position =>
      if position = 256 then none
      else
        (walk [] codeTree bits).map fun (positions, place) ↦ (position :: positions, place)
    | t => walk (held ++ [bit]) t bits

/-- Reading on the tree is reading codewords, and it ends at a branching. -/
theorem readBits?_eq_walk {held : List Bool} {state : Nat} {zero one : CodeTree}
    (h : codeTree.follow? held = some (node state zero one)) (bits : List Bool) :
    match walk held (node state zero one) bits with
    | none => readBits? held bits = none
    | some (positions, held', t) =>
      readBits? held bits = some (positions.map UInt8.ofNat, held') ∧
        ∃ state' zero' one', t = node state' zero' one' ∧ codeTree.follow? held' = some t := by
  induction bits generalizing held state zero one with
  | nil => exact ⟨rfl, state, zero, one, rfl, h⟩
  | cons bit bits ih =>
    obtain ⟨t, ht⟩ : ∃ t, t = if bit then one else zero := ⟨_, rfl⟩
    have hnext : codeTree.follow? (held ++ [bit]) = some t := by
      rw [follow?_append, h, ht]
      exact follow?_nil _
    rw [walk, readBits?_cons, ← ht]
    cases t with
    | leaf position =>
      obtain ⟨s, rfl, hword⟩ := exists_symbol_of_leaf hnext
      rw [symbolOf?_eq_some_iff.mpr hword]
      cases s with
      | endOfString => simp [Symbol.position]
      | octet value =>
        have hoctet : value.toNat ≠ 256 := Nat.ne_of_lt value.toNat_lt
        have hrest := ih (follow?_nil codeTree)
        simp only [Symbol.position, hoctet, if_false]
        rcases hwalk : walk [] codeTree bits with _ | ⟨positions, held', t⟩
        · rw [show walk [] (node _ _ _) bits = none from hwalk] at hrest
          rw [hrest]
          rfl
        · rw [show walk [] (node _ _ _) bits = _ from hwalk] at hrest
          obtain ⟨hread, hplace⟩ := hrest
          rw [hread]
          refine ⟨?_, hplace⟩
          simp
    | node state' zero' one' =>
      rw [symbolOf?_of_node hnext]
      exact ih hnext

/-! ## The rows of the table -/

/-- Whether an entry of the table says where a walk has led. Four bits complete at most one word,
so an entry has room for one. -/
def describes (entry : Nat) : Option (List Nat × List Bool × CodeTree) → Bool
  | none => entry == 4
  | some ([], held, t) => entry == t.state * 4096 + (endsWell held).toNat
  | some ([position], held, t) =>
    decide (position < 256) &&
      entry == t.state * 4096 + position * 16 + 2 + (endsWell held).toNat
  | some _ => false

/-- Whether the rows of all states from a place of the tree on are right, and only a place where
the string may end has the state 0. -/
def CodeTree.rowsAgree (held : List Bool) : CodeTree → Bool
  | leaf _ => true
  | node state zero one =>
    (state != 0 || endsWell held) &&
      (List.range 16).all (fun half ↦
        describes (transitionEntry state half) (walk held (node state zero one) (bitsOf 4 half))) &&
      zero.rowsAgree (held ++ [false]) && one.rowsAgree (held ++ [true])

theorem rowsAgree_codeTree : codeTree.rowsAgree [] = true := by decide +kernel

private theorem rowsAgree_of_follow? {t u : CodeTree} {held bits : List Bool}
    (h : t.rowsAgree held = true) (hu : t.follow? bits = some u) :
    u.rowsAgree (held ++ bits) = true := by
  induction bits generalizing t held with
  | nil =>
    obtain rfl : t = u := by simpa using hu
    rwa [List.append_nil]
  | cons bit bits ih =>
    cases t with
    | leaf position => exact absurd hu (by simp [follow?])
    | node state zero one =>
      simp only [rowsAgree, Bool.and_eq_true] at h
      rw [List.append_cons]
      refine ih (t := if bit then one else zero) ?_ hu
      cases bit
      · exact h.1.2
      · exact h.2

theorem agrees_of_follow? {held : List Bool} {state : Nat} {zero one : CodeTree}
    (h : codeTree.follow? held = some (node state zero one)) :
    (state = 0 → endsWell held = true) ∧
      ∀ half < 16, describes (transitionEntry state half)
        (walk held (node state zero one) (bitsOf 4 half)) = true := by
  have hrows := rowsAgree_of_follow? rowsAgree_codeTree h
  simp only [rowsAgree, List.nil_append, Bool.and_eq_true, Bool.or_eq_true, bne_iff_ne,
    List.all_eq_true, List.mem_range] at hrows
  obtain ⟨⟨⟨hzero, hentries⟩, -⟩, -⟩ := hrows
  exact ⟨fun hstate ↦ hzero.resolve_left fun hne ↦ hne hstate, hentries⟩

/-! ## The decoder -/

theorem ofEntry?_refused : Transition.ofEntry? 4 = none := rfl

private theorem ofEntry?_silent (state : Nat) (ends : Bool) :
    Transition.ofEntry? (state * 4096 + ends.toNat) =
      some { next := state, octet? := none, mayEnd := ends } := by
  have hends := ends.toNat_le
  have hrefused : ¬(state * 4096 + ends.toNat) / 4 % 2 = 1 := by omega
  have hoctet : ¬(state * 4096 + ends.toNat) / 2 % 2 = 1 := by omega
  have hmay : (state * 4096 + ends.toNat) % 2 = ends.toNat := by omega
  have hnext : (state * 4096 + ends.toNat) >>> 12 = state := by
    rw [Nat.shiftRight_eq_div_pow]
    omega
  rw [Transition.ofEntry?, if_neg hrefused, if_neg hoctet, hnext, hmay]
  cases ends <;> rfl

private theorem ofEntry?_octet (state : Nat) {position : Nat} (hposition : position < 256)
    (ends : Bool) :
    Transition.ofEntry? (state * 4096 + position * 16 + 2 + ends.toNat) =
      some { next := state, octet? := some (UInt8.ofNat position), mayEnd := ends } := by
  obtain ⟨entry, hentry⟩ : ∃ entry, entry = state * 4096 + position * 16 + 2 + ends.toNat :=
    ⟨_, rfl⟩
  have hends := ends.toNat_le
  have hrefused : ¬entry / 4 % 2 = 1 := by omega
  have hcompleted : entry / 2 % 2 = 1 := by omega
  have hmay : entry % 2 = ends.toNat := by omega
  have hnext : entry >>> 12 = state := by
    rw [Nat.shiftRight_eq_div_pow]
    omega
  have hoctet : UInt8.ofNat (entry >>> 4) = UInt8.ofNat position := by
    rw [← UInt8.toNat_inj, UInt8.toNat_ofNat', UInt8.toNat_ofNat', Nat.shiftRight_eq_div_pow]
    omega
  rw [← hentry, Transition.ofEntry?, if_neg hrefused, if_pos hcompleted, hnext, hoctet, hmay]
  cases ends <;> rfl

/-- A decoder holds back the given bits: it is in their state, and it knows whether the string may
end after them. -/
structure Reads (d : Decoder) (held : List Bool) : Prop where
  /-- The state is that of the bits. -/
  place : ∃ zero one, codeTree.follow? held = some (node d.state zero one)
  /-- The string may end here if it may end after the bits. -/
  final : d.isFinal = endsWell held

theorem reads_start : Reads {} [] := ⟨⟨_, _, follow?_nil codeTree⟩, rfl⟩

namespace Reads

variable {d d' : Decoder} {held : List Bool} {half : Nat} {output : Bytes}

private theorem of_node {state : Nat} {zero one : CodeTree}
    (h : codeTree.follow? held = some (node state zero one)) :
    Reads { state := state, mayEnd := endsWell held } held := by
  refine ⟨⟨zero, one, h⟩, ?_⟩
  by_cases hstate : state = 0
  · simp [Decoder.isFinal, (agrees_of_follow? h).1 hstate]
  · simp [Decoder.isFinal, hstate]

/-- **Four bits.** What a decoder does with half an octet is what reading its four bits after those
held back does. -/
theorem decodeHalf? (h : Reads d held) (hhalf : half < 16) :
    match readBits? held (bitsOf 4 half) with
    | none => d.decodeHalf? half = none
    | some (output, held') => ∃ d', d.decodeHalf? half = some (output, d') ∧ Reads d' held' := by
  obtain ⟨zero, one, hplace⟩ := h.place
  have hentry := (agrees_of_follow? hplace).2 half hhalf
  have hwalk := readBits?_eq_walk hplace (bitsOf 4 half)
  rcases hw : walk held (node d.state zero one) (bitsOf 4 half) with _ | ⟨positions, held', t⟩
  · rw [hw] at hentry hwalk
    have hrefused : transitionEntry d.state half = 4 := by simpa [describes] using hentry
    rw [hwalk]
    simp [Decoder.decodeHalf?, transition?, hrefused, ofEntry?_refused]
  · rw [hw] at hentry hwalk
    obtain ⟨hread, state', zero', one', rfl, hplace'⟩ := hwalk
    rw [hread]
    refine ⟨{ state := state', mayEnd := endsWell held' }, ?_, of_node hplace'⟩
    match positions, hentry with
    | [], hentry =>
      have hsilent : transitionEntry d.state half = state' * 4096 + (endsWell held').toNat := by
        simpa [describes] using hentry
      simp [Decoder.decodeHalf?, transition?, hsilent, ofEntry?_silent]
    | [position], hentry =>
      obtain ⟨hposition, hoctet⟩ : position < 256 ∧ transitionEntry d.state half =
          state' * 4096 + position * 16 + 2 + (endsWell held').toNat := by
        simpa [describes] using hentry
      simp [Decoder.decodeHalf?, transition?, hoctet, ofEntry?_octet _ hposition]

end Reads

end FieldCompression.Huffman
