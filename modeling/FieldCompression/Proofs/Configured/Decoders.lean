import FieldCompression.Proofs.DynamicTable.Reachable
import FieldCompression.Proofs.EncoderStream.Fragmentation
import FieldCompression.Proofs.Reuse.Storage

/-!
# What decoding can fail for

A decoder keeps two things that octets are handed to, the reader of the prefix and the line that has
begun, and both are configured after any calls, whatever came of them: a section that fails is given
up, and the decoder that is left knows what to read next. So no reader within it fails for misuse.

Neither does a call fail because octets are missing. Of a chunk that is the beginning of another
one, all is read that is there; if that fails, the other one fails as well.
-/

namespace FieldCompression

open FieldLine

namespace Decoder

/-- The causes that decoding a chunk of a section can fail for. -/
def sectionErrors : List Error :=
  [.integerOverflow, .invalidHuffmanEncoding, .invalidStaticTableIndex, .invalidDynamicTableIndex,
    .headerListTooLarge, .dynamicTableWouldBlock]

/-- What octets are handed to next is configured. Between two lines that is nothing. -/
def Configured (d : Decoder) : Prop :=
  match d.phase with
  | .opening reader => reader.Configured
  | .lines _ line => line = .idle ∨ line.Configured

/-! ## The lines -/

/-- A line that has begun is configured, as long as the section lasts. -/
theorem lasting_configured :
    Lasting fun _ line _ ↦ line = .idle ∨ FieldLine.Reader.Configured line where
  start _ := .inl rfl
  begins first _ := .inr (FieldLine.Reader.configured_ofByte first)
  read {ctx r _ input item} h hok := by
    rcases h with rfl | h
    · rw [FieldLine.Reader.read_idle] at hok
      exact absurd hok (by simp)
    · rcases item with _ | _
      · exact .inr ((h.read ctx input).pending hok)
      · exact .inl (FieldLine.Reader.state_of_done hok)

theorem ofByte_ne_idle (first : UInt8) : FieldLine.Reader.ofByte first ≠ .idle := by
  intro h
  have hconfigured := FieldLine.Reader.configured_ofByte first
  rw [h] at hconfigured
  exact hconfigured

private theorem Visit.Reaches.line_ne_idle {v w : Visit} (h : v.Reaches w) (hv : v.line ≠ .idle) :
    w.line ≠ .idle := by
  induction h with
  | here v => exact hv
  | next _ _ _ ih => exact ih (ofByte_ne_idle _)

variable {d : Decoder} {table : TableView} {chunk : Bytes}

private theorem Visits.line_ne_idle {w : Visit} (h : d.Visits table chunk w) : w.line ≠ .idle := by
  obtain ⟨v, hfirst, hreaches⟩ := h
  obtain ⟨⟨p, line, input⟩, -, hfirst⟩ := Option.bind_eq_some_iff.mp hfirst
  refine hreaches.line_ne_idle ?_
  rcases Visit.line_of_first? hfirst with ⟨hbegun, hline⟩ | ⟨-, first, hline⟩
  · rwa [hline]
  · rw [hline]
    exact ofByte_ne_idle first

/-! ## The prefix -/

theorem Configured.line (h : d.Configured) :
    d.line = .idle ∨ FieldLine.Reader.Configured d.line := by
  rcases hphase : d.phase with reader | ⟨p, line⟩
  · exact .inl (by rw [Decoder.line, hphase])
  · rw [Configured, hphase] at h
    rwa [Decoder.line, hphase]

theorem Configured.advance (h : d.Configured) (hok : (d.advance table chunk).result = .ok ()) :
    (d.advance table chunk).decoder.Configured := by
  have hline := lasting_configured.advance [] h.line hok
  rcases hlines : d.linesOf? table chunk with _ | ⟨p, line, input⟩
  · obtain ⟨reader, hphase, -, hafter⟩ := pending_of_linesOf?_eq_none hlines hok
    rw [Configured, hphase] at h
    rw [Configured, hafter]
    exact (h.read table chunk).1
  · obtain ⟨notes, hadvance⟩ := advance_of_linesOf? hlines
    rw [hadvance] at hline ⊢
    exact hline

theorem configured_start (limit : Nat) : (start limit).Configured :=
  SectionPrefix.Reader.configured_fresh

/-! ## Calls -/

/-- **One call.** Whatever comes of it, the decoder is configured afterwards. -/
theorem Configured.perform (h : d.Configured) (call : Call) : (d.perform call).Configured := by
  cases call with
  | decode table chunk =>
    rcases hresult : (d.advance table chunk).result with cause | _
    · have hends : d.Ends (.decode table chunk) :=
        ⟨cause, (result_decode d table chunk).trans hresult⟩
      rw [perform_of_ends hends]
      exact configured_start _
    · rw [Decoder.perform, decoder_decode_of_ok hresult]
      exact h.advance hresult
  | finish => exact configured_start _
  | decodeSection table chunk =>
    rw [Decoder.perform, decoder_decodeSection]
    exact configured_start _
  | reset => exact configured_start _

theorem Configured.performAll (h : d.Configured) (calls : List Call) :
    (d.performAll calls).Configured := by
  induction calls generalizing d with
  | nil => exact h
  | cons call calls ih => exact ih (h.perform call)

theorem Configured.visits (h : d.Configured) {w : Visit} (hw : d.Visits table chunk w) :
    w.line.Configured := by
  obtain ⟨-, hvisit⟩ := lasting_configured.visits [] hw h.line
  exact hvisit.resolve_left hw.line_ne_idle

private theorem Visit.cause_reading {w : Visit} (h : w.line.Configured) {cause : Error}
    (hcause : w.reading.result = .error cause) : cause ∈ sectionErrors := by
  have hcall := FieldLine.Reader.call_read w.ctx w.line w.input
  cases hcall with
  | unfinished _ hx =>
    have hmisuse : w.reading.result ≠ .error .invalidState := (h.read w.ctx w.input).result_ne
    have hmem := hx.cause cause hcause
    simp only [readingErrors, List.mem_cons, List.not_mem_nil, or_false] at hmem
    rcases hmem with rfl | rfl | rfl | rfl
    · decide
    · decide
    · decide
    · exact absurd hcause hmisuse
  | reported line rest e field _ _ _ _ hx =>
    obtain ⟨notes, hx⟩ := hx
    exact absurd hcause (by simp [reading, hx])
  | tooLarge line rest e field _ _ _ _ hx =>
    obtain ⟨r', notes, hx⟩ := hx
    obtain rfl : .headerListTooLarge = cause := by simpa [reading, hx] using hcause
    decide
  | missing line rest addressing index _ _ _ hx =>
    obtain ⟨r', notes, hx⟩ := hx
    obtain rfl : Context.missing addressing = cause := by simpa [reading, hx] using hcause
    cases addressing <;> decide

/-- **Causes.** What a configured decoder can refuse a chunk for. -/
theorem Configured.cause_decode (h : d.Configured) {cause : Error}
    (hcause : (d.decode table chunk).result = .error cause) : cause ∈ sectionErrors := by
  rcases hlines : d.linesOf? table chunk with _ | ⟨p, line, input⟩
  · rw [result_decode] at hcause
    obtain ⟨reader, hphase, hread | ⟨p, -, -, rfl⟩⟩ := cause_of_linesOf?_eq_none hlines hcause
    · have hmisuse := ((show reader.Configured by rwa [Configured, hphase] at h).read table chunk).2
      have hmem := SectionPrefix.Reader.cause_read hread
      simp only [List.mem_cons, List.not_mem_nil, or_false] at hmem
      rcases hmem with rfl | rfl | rfl
      · decide
      · exact absurd hread hmisuse
      · decide
    · decide
  · obtain ⟨v, hv⟩ :=
      exists_firstVisit_of_error hlines ((result_decode d table chunk).symm.trans hcause)
    obtain ⟨w, hw, hfailed⟩ := (result_decode_eq_error_iff hv).mp hcause
    exact Visit.cause_reading (h.visits hw) hfailed

/-- A chunk does not fail for being the beginning of one that does not. -/
theorem result_decode_of_append {a b : Bytes} (h : (d.decode table (a ++ b)).result = .ok ()) :
    (d.decode table a).result = .ok () := by
  rw [result_decode] at h ⊢
  rcases ha : (d.advance table a).result with cause | _
  · have hresume : ((d.advance table a).resume table b).result = .error cause := by
      simp only [Step.resume, ha]
    rcases advance_append table d a b with heq | ⟨hfailed, -, -⟩
    · rw [heq, hresume] at h
      exact absurd h (by simp)
    · exact absurd (h ▸ hfailed) (not_failed_ok ())
  · rfl

end Decoder

/-- **No misuse.** After any calls of a decoder, what octets are handed to next is configured, also
as it is kept field by field, and so is every line that a call on a chunk comes to. Such a call does
not fail for misuse, nor because octets are missing or the table is too small; and it does not fail
at all on the beginning of a chunk on which it would not fail. After any changes of a table, a chunk
of the encoder stream does not fail for misuse either, nor because octets are missing or for a cause
that only sections have; and it does not fail on the beginning of a chunk on which it would not
fail. -/
theorem Settings.no_misuse (s : Settings) (calls : List Decoder.Call)
    (ops : List DynamicTable.Operation) :
    let d := s.decoder.performAll calls
    let t := s.table.run ops
    d.Configured ∧
      (∀ x, s.storage.PerformsAll calls x → x.decoder.Configured) ∧
      (∀ (table : TableView) (chunk : Bytes) (w : Decoder.Visit), d.Visits table chunk w →
        w.line.Configured) ∧
      (∀ (table : TableView) (chunk : Bytes),
        ∀ cause ∈ [.bufferTooShort, .invalidState, .dynamicTableTooBig],
          (d.decode table chunk).result ≠ .error cause) ∧
      (∀ (table : TableView) (a b : Bytes), (d.decode table (a ++ b)).result = .ok () →
        (d.decode table a).result = .ok ()) ∧
      (∀ chunk : Bytes,
        ∀ cause ∈ [.bufferTooShort, .headerListTooLarge, .dynamicTableWouldBlock, .invalidState],
          (t.receive chunk).result ≠ .error cause) ∧
      ∀ a b : Bytes, (t.receive (a ++ b)).result = .ok () → (t.receive a).result = .ok () := by
  intro d t
  have hconfigured : d.Configured :=
    (Decoder.configured_start s.maxFieldSectionSize).performAll calls
  refine ⟨hconfigured, ?_, fun _ _ _ ↦ hconfigured.visits, ?_,
    fun _ _ _ ↦ Decoder.result_decode_of_append, ?_,
    fun _ _ ↦ DynamicTable.result_receive_of_append⟩
  · intro x hx
    rw [hx.decoder_eq]
    exact hconfigured
  · intro table chunk cause hcause hfailed
    have hexcluded : ∀ cause ∈ [.bufferTooShort, .invalidState, .dynamicTableTooBig],
        cause ∉ Decoder.sectionErrors := by decide
    exact hexcluded cause hcause (hconfigured.cause_decode hfailed)
  · intro chunk cause hcause hfailed
    have hexcluded :
        ∀ cause ∈ [.bufferTooShort, .headerListTooLarge, .dynamicTableWouldBlock, .invalidState],
          cause ∉ streamErrors := by decide
    exact hexcluded cause hcause (DynamicTable.cause_receive hfailed)

end FieldCompression
