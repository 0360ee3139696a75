import FieldCompression.Proofs.Configured.Decoders
import FieldCompression.Proofs.Progress.Readers

/-!
# The loop over field lines comes to its end

The lines of a chunk are read in a loop of which each turn is one stage of one line. It goes on
while octets are left, whether or not the stage has completed its line, so it comes to its end only
if every turn takes some of them.

`Turns` are the turns of the loop, as the loop itself makes them, with no bound on their number.
That they end, after as many turns as there are octets at the latest, is `Ready.exists_turns`. It
rests on an invariant of decoders, `Waits`: between two calls there is no line, or one that awaits
octets. That they are all that the loop does is `Turns.loop`.
-/

namespace FieldCompression.Decoder

open FieldLine

/-- No line has begun, or one that awaits octets, whatever the section holds so far. -/
def Waits (_size : SectionSize) (line : FieldLine.Reader) (_events : List Event) : Prop :=
  line = .idle ∨ line.Awaits

theorem Waits.lasting : Lasting Waits where
  start _ := .inl rfl
  begins first _ := .inr (FieldLine.Reader.awaits_ofByte first)
  read {_ _ _ _ item} _ hok := by
    obtain _ | _ := item
    · exact .inr (FieldLine.Reader.awaits_of_pending hok)
    · exact .inl (FieldLine.Reader.state_of_done hok)

namespace Visit

/-! ## Turns -/

/-- What a turn of the loop does: the present stage of the line. -/
def turn (v : Visit) : Reading := v.line.step v.ctx v.input

/-- The octets that a turn takes. -/
def taken (v : Visit) : Bytes := consumed v.input v.turn.rest

/-- Where the next turn begins, if octets are left: at the same line, or at one that they begin. -/
def next? (v : Visit) : Option Visit :=
  first? { v.ctx with size := v.turn.size } v.turn.state v.turn.rest

/-- The turns of the loop from one on. -/
inductive Turns : Option Visit → List Visit → Prop
  /-- No octets are left. -/
  | ended : Turns none []
  /-- A turn fails. -/
  | failed {v : Visit} {cause : Error} (h : v.turn.result = .error cause) : Turns (some v) [v]
  /-- A turn does not fail, and others follow if octets are left. -/
  | next {v : Visit} {item : Option Unit} {more : List Visit} (h : v.turn.result = .ok item)
    (hmore : Turns v.next? more) : Turns (some v) (v :: more)

/-- A turn that consumes: there are octets, and the line awaits some. -/
structure Ready (v : Visit) : Prop where
  /-- The line awaits octets. -/
  line : v.line.Awaits
  /-- There are octets. -/
  input : v.input ≠ []

variable {v w : Visit} {ctx : Context} {line : FieldLine.Reader} {input : Bytes}
  {start? : Option Visit} {turns turns' : List Visit}

theorem input_of_first? (h : first? ctx line input = some v) : v.input = input := by
  obtain _ | ⟨first, rest⟩ := input
  · exact absurd h (by simp [first?])
  · obtain rfl := Option.some.inj h
    rfl

theorem ready_of_first? (hline : line = .idle ∨ line.Awaits)
    (h : first? ctx line input = some v) : v.Ready := by
  obtain _ | ⟨first, rest⟩ := input
  · exact absurd h (by simp [first?])
  obtain rfl := Option.some.inj h
  refine ⟨?_, List.cons_ne_nil _ _⟩
  obtain rfl | hawaits := hline
  · exact FieldLine.Reader.awaits_ofByte first
  · rwa [if_neg hawaits.ne_idle]

theorem Ready.length_rest_lt (h : v.Ready) : v.turn.rest.length < v.input.length :=
  h.line.length_rest_step_lt v.ctx h.input

theorem Ready.taken_ne_nil (h : v.Ready) : v.taken ≠ [] := consumed_ne_nil h.length_rest_lt

theorem taken_append (v : Visit) : v.taken ++ v.turn.rest = v.input :=
  consumed_append (FieldLine.Reader.rest_step_suffix v.ctx v.line v.input)

/-- A call on a line is one turn, unless that leaves octets for the next stage of the line. -/
theorem reading_eq_turn (h : v.turn.result = .ok none → v.turn.rest = []) : v.reading = v.turn :=
  FieldLine.Reader.read_eq_step h

theorem awaits_of_turn_pending (h : v.turn.result = .ok none) : v.turn.state.Awaits :=
  FieldLine.Reader.awaits_of_step_pending h

theorem state_of_turn_done (h : v.turn.result = .ok (some ())) : v.turn.state = .idle := by
  have hreading : v.reading = v.turn := reading_eq_turn fun hpending ↦
    absurd (h.symm.trans hpending) (by simp)
  rw [← hreading] at h ⊢
  exact FieldLine.Reader.state_of_done h

theorem input_of_next? (h : v.next? = some w) : w.input = v.turn.rest := input_of_first? h

theorem ready_of_next? {item : Option Unit} (hok : v.turn.result = .ok item)
    (h : v.next? = some w) : w.Ready := by
  refine ready_of_first? ?_ h
  obtain _ | _ := item
  · exact .inr (awaits_of_turn_pending hok)
  · exact .inl (state_of_turn_done hok)

/-- **The loop ends.** There are no more turns than octets. -/
theorem Ready.exists_turns (h : v.Ready) :
    ∃ turns, Turns (some v) turns ∧ turns.length ≤ v.input.length := by
  induction hlength : v.input.length using Nat.strongRecOn generalizing v with
  | ind n ih =>
    have hconsumes := h.length_rest_lt
    rcases hresult : v.turn.result with cause | item
    · refine ⟨[v], .failed hresult, ?_⟩
      rw [List.length_singleton]
      omega
    · rcases hnext : v.next? with _ | w
      · refine ⟨[v], .next hresult (hnext ▸ .ended), ?_⟩
        rw [List.length_singleton]
        omega
      · have hinput := input_of_next? hnext
        obtain ⟨turns, hturns, hle⟩ :=
          ih _ (by rw [hinput]; omega) (ready_of_next? hresult hnext) rfl
        refine ⟨v :: turns, .next hresult (hnext ▸ hturns), ?_⟩
        rw [hinput] at hle
        rw [List.length_cons]
        omega

theorem Turns.unique (h : Turns start? turns) (h' : Turns start? turns') : turns' = turns := by
  induction h generalizing turns' with
  | ended =>
    cases h'
    rfl
  | failed hfailed =>
    cases h' with
    | failed => rfl
    | next hok => exact absurd (hfailed.symm.trans hok) (by simp)
  | next hok _ ih =>
    cases h' with
    | failed hfailed => exact absurd (hfailed.symm.trans hok) (by simp)
    | next _ hmore => rw [ih hmore]

theorem Turns.ready (h : Turns start? turns) (hstart : ∀ v, start? = some v → v.Ready) :
    ∀ v ∈ turns, v.Ready := by
  induction h with
  | ended => exact fun v hv ↦ absurd hv List.not_mem_nil
  | failed =>
    intro w hw
    rw [List.mem_singleton.mp hw]
    exact hstart _ rfl
  | next hok _ ih =>
    rintro w (_ | ⟨_, hw⟩)
    · exact hstart _ rfl
    · exact ih (fun _ hnext ↦ ready_of_next? hok hnext) w hw

/-! ## The turns are the loop -/

theorem exists_rest_of_next? (h : v.next? = some w) :
    ∃ first rest, v.turn.rest = first :: rest ∧
      w = ⟨{ v.ctx with size := v.turn.size },
        if v.turn.state = .idle then .ofByte first else v.turn.state, first :: rest⟩ := by
  rw [next?] at h
  rcases hrest : v.turn.rest with _ | ⟨first, rest⟩
  · rw [hrest] at h
    exact absurd h (by simp [first?])
  · rw [hrest] at h
    exact ⟨first, rest, rfl, (Option.some.inj h).symm⟩

private theorem loop_of_turn_error {cause : Error} (h : v.turn.result = .error cause) :
    v.loop.result = .error cause ∧ v.loop.events = v.turn.events := by
  have hreading : v.reading = v.turn :=
    reading_eq_turn fun hpending ↦ absurd (h.symm.trans hpending) (by simp)
  rw [loop, hreading, readLinesAfter_of_error h]
  exact ⟨rfl, rfl⟩

private theorem loop_of_last_turn {item : Option Unit} (hok : v.turn.result = .ok item)
    (hlast : v.next? = none) : v.loop.result = .ok () ∧ v.loop.events = v.turn.events := by
  have hrest : v.turn.rest = [] := first?_eq_none_iff.mp hlast
  have hreading : v.reading = v.turn := reading_eq_turn fun _ ↦ hrest
  obtain _ | _ := item
  · rw [loop, hreading, readLinesAfter_of_pending hok]
    exact ⟨rfl, rfl⟩
  · rw [← hreading] at hok hrest
    rw [loop_of_end hok hrest, hreading]
    exact ⟨rfl, rfl⟩

/-- Two turns that are one call: the first has not completed the line and leaves octets. -/
theorem loop_of_second_turn (hok : v.turn.result = .ok none) (hnext : v.next? = some w) :
    v.loop.result = w.loop.result ∧ v.loop.events = v.turn.events ++ w.loop.events := by
  obtain ⟨first, rest, hrest, hw⟩ := exists_rest_of_next? hnext
  rw [if_neg (awaits_of_turn_pending hok).ne_idle] at hw
  have hcall : v.reading =
      { w.turn with
        events := v.turn.events ++ w.turn.events, notes := v.turn.notes ++ w.turn.notes } := by
    have hturn : v.line.step v.ctx v.input = v.turn := rfl
    rw [reading, FieldLine.Reader.read, hturn, hok, hrest, hw]
    rfl
  -- the call takes all octets unless it completes the line, and so does its second stage
  have hsecond : w.reading = w.turn := by
    refine reading_eq_turn fun hpending ↦ ?_
    have hall : v.reading.rest = [] := (pending_read (by rw [← reading, hcall]; exact hpending)).1
    rwa [hcall] at hall
  have hsize : readLinesAfter w.ctx w.turn = readLinesAfter v.ctx w.turn := by
    rw [hw]
    exact readLinesAfter_size v.ctx v.turn.size _
  rw [loop, hcall, readLinesAfter_prepend, loop, hsecond, hsize]
  exact ⟨rfl, rfl⟩

private theorem loop_of_next_turn {item : Option Unit} (hok : v.turn.result = .ok item)
    (hnext : v.next? = some w) :
    v.loop.result = w.loop.result ∧ v.loop.events = v.turn.events ++ w.loop.events := by
  obtain _ | _ := item
  · exact loop_of_second_turn hok hnext
  · obtain ⟨first, rest, hrest, rfl⟩ := exists_rest_of_next? hnext
    have hreading : v.reading = v.turn :=
      reading_eq_turn fun hpending ↦ absurd (hok.symm.trans hpending) (by simp)
    have hfollowing : v.following first rest =
        ⟨{ v.ctx with size := v.turn.size },
          if v.turn.state = .idle then .ofByte first else v.turn.state, first :: rest⟩ := by
      rw [if_pos (state_of_turn_done hok), following, hreading]
    rw [← hreading] at hok hrest
    rw [← hfollowing, loop_of_next hok hrest, hreading]
    exact ⟨rfl, rfl⟩

/-- **The turns are the loop.** The loop reports what its turns report, and fails just if one of
them fails, for the same cause. -/
theorem Turns.loop (h : Turns start? turns) (hv : start? = some v) :
    v.loop.events = turns.flatMap (·.turn.events) ∧
      ∀ cause, v.loop.result = .error cause ↔ ∃ w ∈ turns, w.turn.result = .error cause := by
  induction h generalizing v with
  | ended => exact absurd hv (by simp)
  | failed hfailed =>
    obtain rfl := Option.some.inj hv
    obtain ⟨hresult, hevents⟩ := loop_of_turn_error hfailed
    simp [hresult, hevents, hfailed]
  | @next v item more hok hmore ih =>
    obtain rfl := Option.some.inj hv
    rcases hnext : v.next? with _ | w
    · rw [hnext] at hmore
      obtain ⟨hresult, hevents⟩ := loop_of_last_turn hok hnext
      cases hmore
      simp [hresult, hevents, hok]
    · obtain ⟨hresult, hevents⟩ := loop_of_next_turn hok hnext
      obtain ⟨hmoreEvents, hmoreResult⟩ := ih hnext
      refine ⟨by rw [hevents, hmoreEvents, List.flatMap_cons], fun cause ↦ ?_⟩
      rw [hresult, hmoreResult]
      simp [hok]

theorem Turns.flatMap_taken (h : Turns start? turns) (hv : start? = some v)
    (hok : ∀ w ∈ turns, ∀ cause, w.turn.result ≠ .error cause) :
    turns.flatMap taken = v.input := by
  induction h generalizing v with
  | ended => exact absurd hv (by simp)
  | failed hfailed => exact absurd hfailed (hok _ (List.mem_singleton_self _) _)
  | @next v item more hturn hmore ih =>
    obtain rfl := Option.some.inj hv
    rw [List.flatMap_cons, ← v.taken_append]
    congr 1
    rcases hnext : v.next? with _ | w
    · rw [hnext] at hmore
      cases hmore
      exact (first?_eq_none_iff.mp hnext).symm
    · rw [ih hnext fun w hw ↦ hok w (List.mem_cons_of_mem _ hw)]
      exact input_of_next? hnext

end Visit

/-! ## Calls -/

variable {d : Decoder} {table : TableView} {chunk : Bytes} {v : Visit} {turns : List Visit}

/-- The octets at the front of a chunk that belong to the prefix of a section. -/
def prefixOctets (d : Decoder) (table : TableView) (chunk : Bytes) : Bytes :=
  match d.phase with
  | .opening reader => consumed chunk (reader.read table chunk).rest
  | .lines .. => []

theorem prefixOctets_append {p : SectionPrefix} {line : FieldLine.Reader} {input : Bytes}
    (h : d.linesOf? table chunk = some (p, line, input)) :
    d.prefixOctets table chunk ++ input = chunk := by
  rcases hphase : d.phase with reader | ⟨p', line'⟩
  · simp only [prefixOctets, hphase]
    simp only [linesOf?, hphase] at h
    split at h
    · split at h
      · exact absurd h (by simp)
      · obtain ⟨-, -, rfl⟩ : _ = p ∧ Reader.idle = line ∧ _ = input := by simpa using h
        exact consumed_append (reader.rest_read_suffix table chunk)
    · exact absurd h (by simp)
  · obtain ⟨-, -, rfl⟩ : p' = p ∧ line' = line ∧ chunk = input := by
      simpa [linesOf?, hphase] using h
    simp only [prefixOctets, hphase, List.nil_append]

theorem prefixOctets_append_of_firstVisit? (h : d.firstVisit? table chunk = some v) :
    d.prefixOctets table chunk ++ v.input = chunk := by
  obtain ⟨⟨p, line, input⟩, hlines, hfirst⟩ := Option.bind_eq_some_iff.mp h
  rw [Visit.input_of_first? hfirst]
  exact prefixOctets_append hlines

theorem ready_of_firstVisit? (hline : d.line = .idle ∨ d.line.Awaits)
    (h : d.firstVisit? table chunk = some v) : v.Ready := by
  obtain ⟨⟨p, line, input⟩, hlines, hfirst⟩ := Option.bind_eq_some_iff.mp h
  rw [line_of_linesOf? hlines] at hline
  exact Visit.ready_of_first? hline hfirst

/-- The loop of a call comes to its end, after as many turns as there are octets at the latest. -/
theorem exists_turns (hline : d.line = .idle ∨ d.line.Awaits) (table : TableView)
    (chunk : Bytes) :
    ∃ turns, Visit.Turns (d.firstVisit? table chunk) turns ∧ turns.length ≤ chunk.length := by
  rcases hfirst : d.firstVisit? table chunk with _ | v
  · exact ⟨[], .ended, Nat.zero_le _⟩
  · obtain ⟨turns, hturns, hle⟩ := (ready_of_firstVisit? hline hfirst).exists_turns
    have hsuffix : v.input <:+ chunk := ⟨_, prefixOctets_append_of_firstVisit? hfirst⟩
    exact ⟨turns, hturns, Nat.le_trans hle hsuffix.length_le⟩

private theorem events_advance_of_firstVisit?_eq_none (h : d.firstVisit? table chunk = none) :
    (d.advance table chunk).events = [] := by
  rcases hlines : d.linesOf? table chunk with _ | ⟨p, line, input⟩
  · exact (advance_of_linesOf?_eq_none hlines).1
  · rw [firstVisit?, hlines, Option.bind_some, Visit.first?_eq_none_iff] at h
    obtain ⟨notes, hadvance⟩ := advance_of_linesOf? hlines
    rw [hadvance, h, decodeLines, resumeLines_nil]

/-- A call reports what the turns of its loop report. If there are any, it fails just if one of them
fails, for the same cause. -/
theorem decode_of_turns (h : Visit.Turns (d.firstVisit? table chunk) turns) :
    (d.decode table chunk).events = turns.flatMap (·.turn.events) ∧
      (turns ≠ [] → ∀ cause, (d.decode table chunk).result = .error cause ↔
        ∃ w ∈ turns, w.turn.result = .error cause) := by
  rw [events_decode, result_decode]
  rcases hfirst : d.firstVisit? table chunk with _ | v
  · rw [hfirst] at h
    cases h
    exact ⟨events_advance_of_firstVisit?_eq_none hfirst, fun hne ↦ absurd rfl hne⟩
  · obtain ⟨hresult, hevents⟩ := advance_of_firstVisit? hfirst
    obtain ⟨hloopEvents, hloopResult⟩ := h.loop hfirst
    rw [hresult, hevents]
    exact ⟨hloopEvents, fun _ ↦ hloopResult⟩

theorem rest_decode_of_ok (h : (d.decode table chunk).result = .ok ()) :
    (d.decode table chunk).rest = [] := by
  rw [result_decode] at h
  have hdecode : (d.decode table chunk).rest = (d.advance table chunk).rest := by
    simp only [decode, h]
  rw [hdecode]
  rcases hlines : d.linesOf? table chunk with _ | ⟨p, line, input⟩
  · obtain ⟨reader, hphase, hpending, -⟩ := pending_of_linesOf?_eq_none hlines h
    simp only [advance, hphase, hpending]
    exact SectionPrefix.Reader.pending_read hpending
  · obtain ⟨notes, hadvance⟩ := advance_of_linesOf? hlines
    rw [hadvance] at h ⊢
    exact rest_resumeLines_of_ok _ line input h

theorem consumed_of_decode_ok (h : (d.decode table chunk).result = .ok ())
    (hturns : Visit.Turns (d.firstVisit? table chunk) turns) :
    d.prefixOctets table chunk ++ turns.flatMap Visit.taken = chunk := by
  rcases hfirst : d.firstVisit? table chunk with _ | v
  · rw [hfirst] at hturns
    cases hturns
    rw [List.flatMap_nil]
    rcases hlines : d.linesOf? table chunk with _ | ⟨p, line, input⟩
    · -- the prefix goes on, so it has all of the chunk
      rw [result_decode] at h
      obtain ⟨reader, hphase, hpending, -⟩ := pending_of_linesOf?_eq_none hlines h
      have hrest : (reader.read table chunk).rest = [] := SectionPrefix.Reader.pending_read hpending
      simp only [prefixOctets, hphase, hrest]
      exact consumed_append List.nil_suffix
    · rw [firstVisit?, hlines, Option.bind_some, Visit.first?_eq_none_iff] at hfirst
      rw [← hfirst]
      exact prefixOctets_append hlines
  · have hok : ∀ w ∈ turns, ∀ cause, w.turn.result ≠ .error cause := by
      intro w hw cause hfailed
      have hcause := ((decode_of_turns hturns).2 (List.ne_nil_of_mem hw) cause).mpr ⟨w, hw, hfailed⟩
      exact absurd (h.symm.trans hcause) (by simp)
    rw [hturns.flatMap_taken hfirst hok]
    exact prefixOctets_append_of_firstVisit? hfirst

end FieldCompression.Decoder
