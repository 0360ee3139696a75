import FieldCompression.FieldLine

/-!
# Which field a line stands for

What a complete line must be reported as, said without the steps that find it out. `Names` counts
an index on the wire to an entry, `Holds` says what that entry is, and `Denotes` puts the two
together to the event of a line. A line denotes at most one event, and none if its reference is to
an entry that the section may not use or that is not there.

`FieldLine.Context.deliver` is then one of three things: it reports the event that the line
denotes, it rejects the line because that event's field is too large, or it fails because the line
denotes nothing.
-/

namespace FieldCompression.FieldLine

/-! ## The relations -/

/-- The entry that an index names, when references count from the given Base. -/
inductive Names (base : Nat) : Addressing → Nat → TableIndex → Prop
  /-- A position in the static table. -/
  | static (index : Nat) : Names base .static index (.static index)
  /-- The distance of an entry from the last one before the Base. -/
  | relative {index absolute : Nat} (h : absolute + (index + 1) = base) :
    Names base .relative index (.dynamic absolute)
  /-- The distance of an entry from the Base. -/
  | postBase (index : Nat) : Names base .postBase index (.dynamic (base + index))

/-- The field that an entry holds. An entry of the dynamic table must be live, and below the
Required Insert Count. -/
inductive Holds (table : TableView) (requiredInsertCount : Nat) : TableIndex → Field → Prop
  /-- The field at a position in the static table. -/
  | static {index : Nat} {field : Field} (h : StaticTable.get? index = some field) :
    Holds table requiredInsertCount (.static index) field
  /-- The field that was inserted after so many others. -/
  | dynamic {index : Nat} {field : Field} (hcount : index < requiredInsertCount)
    (h : table.get? index = some field) : Holds table requiredInsertCount (.dynamic index) field

/-- The event that a line is reported as. -/
inductive Denotes (p : SectionPrefix) (table : TableView) : FieldLine → Event → Prop
  /-- A line that is an entry. -/
  | indexed {addressing : Addressing} {index : Nat} {entry : TableIndex} {field : Field}
    (hnames : Names p.base addressing index entry)
    (hholds : Holds table p.requiredInsertCount entry field) :
    Denotes p table (.indexed addressing index) (.indexed entry field)
  /-- A line with the name of an entry. -/
  | nameReference {addressing : Addressing} {index : Nat} {entry : TableIndex} {named : Field}
    (neverIndexed : Bool) (value : StringLiteral)
    (hnames : Names p.base addressing index entry)
    (hholds : Holds table p.requiredInsertCount entry named) :
    Denotes p table (.nameReference addressing neverIndexed index value)
      (.nameReference entry ⟨named.name, value.content⟩ value.huffman neverIndexed)
  /-- A line with a name of its own. -/
  | literalName (neverIndexed : Bool) (name value : StringLiteral) :
    Denotes p table (.literalName neverIndexed name value)
      (.literalName ⟨name.content, value.content⟩ name.huffman value.huffman neverIndexed)

/-- The reference of a line, if it has one: how it counts, and the index on the wire. -/
def reference? : FieldLine → Option (Addressing × Nat)
  | indexed addressing index | nameReference addressing _ index _ => some (addressing, index)
  | literalName .. => none

/-- The events that report a field, without the notices that one was rejected. -/
def callbacks (events : List Event) : List Event := events.filter fun e ↦ e.field?.isSome

@[simp] theorem callbacks_append (a b : List Event) :
    callbacks (a ++ b) = callbacks a ++ callbacks b := List.filter_append _ _

/-- What a call gives notice of, besides the fields that it reports: that it failed because the
section is too large. -/
def notices {α : Type} : Except Error α → List Event
  | .ok _ => []
  | .error cause => if cause = .headerListTooLarge then [.rejected cause] else []

@[simp] theorem notices_ok {α : Type} (item : α) : notices (.ok item : Except Error α) = [] := rfl

@[simp] theorem notices_tooLarge {α : Type} :
    notices (.error .headerListTooLarge : Except Error α) = [.rejected .headerListTooLarge] := rfl

theorem notices_of_ne {α : Type} {cause : Error} (h : cause ≠ .headerListTooLarge) :
    notices (.error cause : Except Error α) = [] := if_neg h

theorem Denotes.exists_field {p : SectionPrefix} {table : TableView} {line : FieldLine} {e : Event}
    (h : Denotes p table line e) : ∃ field, e.field? = some field := by
  cases h <;> exact ⟨_, rfl⟩

theorem totalSize_fieldsOf_cons {e : Event} {field : Field} (hfield : e.field? = some field)
    (events : List Event) :
    totalSize (fieldsOf (e :: events)) = field.size + totalSize (fieldsOf events) := by
  rw [fieldsOf, List.filterMap_cons_some hfield]
  rfl

/-! ## Finding an entry -/

namespace Context

variable {ctx : Context} {addressing : Addressing} {index : Nat} {entry : TableIndex}
  {field : Field}

private theorem withinSection_eq_ok_iff {absolute : Nat} :
    ctx.withinSection absolute = .ok entry ↔
      absolute < ctx.sectionPrefix.requiredInsertCount ∧ entry = .dynamic absolute := by
  rw [withinSection]
  split <;> simp [*, eq_comm]

theorem resolve_eq_ok_iff :
    ctx.resolve addressing index = .ok entry ↔
      Names ctx.sectionPrefix.base addressing index entry ∧
        ∀ absolute, entry = .dynamic absolute →
          absolute < ctx.sectionPrefix.requiredInsertCount := by
  cases addressing with
  | static =>
    constructor
    · intro h
      obtain rfl : TableIndex.static index = entry := by simpa [resolve] using h
      exact ⟨.static index, by simp⟩
    · rintro ⟨⟨⟩, -⟩
      rfl
  | relative =>
    rw [resolve]
    constructor
    · intro h
      split at h
      · rw [withinSection_eq_ok_iff] at h
        obtain ⟨hcount, rfl⟩ := h
        exact ⟨.relative (by omega), by simpa using hcount⟩
      · exact absurd h (by simp)
    · rintro ⟨hnames, hcount⟩
      cases hnames with
      | relative hbase =>
        rw [if_pos (by omega), withinSection_eq_ok_iff, ← hbase, Nat.add_sub_cancel]
        exact ⟨hcount _ rfl, rfl⟩
  | postBase =>
    rw [resolve, withinSection_eq_ok_iff]
    constructor
    · rintro ⟨hcount, rfl⟩
      exact ⟨.postBase index, by simpa using hcount⟩
    · rintro ⟨⟨⟩, hcount⟩
      exact ⟨hcount _ rfl, rfl⟩

theorem lookup_eq_ok_iff :
    ctx.lookup entry = .ok field ↔
      match entry with
      | .static index => StaticTable.get? index = some field
      | .dynamic index => ctx.table.get? index = some field := by
  cases entry with
  | static index =>
    simp only [lookup]
    cases StaticTable.get? index <;> simp
  | dynamic index =>
    simp only [lookup]
    cases ctx.table.get? index <;> simp

/-- **References.** The entry that is found is the one that the index names, and what is found
there is what it holds. -/
theorem resolve_and_lookup_iff :
    ctx.resolve addressing index = .ok entry ∧ ctx.lookup entry = .ok field ↔
      Names ctx.sectionPrefix.base addressing index entry ∧
        Holds ctx.table ctx.sectionPrefix.requiredInsertCount entry field := by
  rw [resolve_eq_ok_iff, lookup_eq_ok_iff]
  constructor
  · rintro ⟨⟨hnames, hcount⟩, hget⟩
    refine ⟨hnames, ?_⟩
    cases entry with
    | static index => exact .static hget
    | dynamic index => exact .dynamic (hcount _ rfl) hget
  · rintro ⟨hnames, hholds⟩
    cases hholds with
    | static hget => exact ⟨⟨hnames, by simp⟩, hget⟩
    | dynamic hcount hget => exact ⟨⟨hnames, by simpa using hcount⟩, hget⟩

/-- What is wrong with a reference to an entry that is missing. -/
def missing : Addressing → Error
  | .static => .invalidStaticTableIndex
  | .relative | .postBase => .invalidDynamicTableIndex

private theorem resolve_eq_error {cause : Error} (h : ctx.resolve addressing index = .error cause) :
    cause = missing addressing := by
  have hwithin {absolute : Nat} (h : ctx.withinSection absolute = .error cause) :
      cause = .invalidDynamicTableIndex := by
    rw [withinSection] at h
    split at h
    · exact absurd h (by simp)
    · exact (Except.error.inj h).symm
  cases addressing with
  | static => exact absurd h (by simp [resolve])
  | relative =>
    rw [resolve] at h
    split at h
    · exact hwithin h
    · exact (Except.error.inj h).symm
  | postBase => exact hwithin h

private theorem lookup_eq_error {cause : Error} (h : ctx.resolve addressing index = .ok entry)
    (hlookup : ctx.lookup entry = .error cause) : cause = missing addressing := by
  obtain ⟨hnames, -⟩ := resolve_eq_ok_iff.mp h
  cases hnames <;> simp only [lookup] at hlookup <;> split at hlookup <;>
    simp_all [missing, eq_comm]

section Reference

variable {note : TableIndex → Note} {next : TableIndex → Field → Delivery}

private theorem withReference_of_holds
    (hnames : Names ctx.sectionPrefix.base addressing index entry)
    (hholds : Holds ctx.table ctx.sectionPrefix.requiredInsertCount entry field) :
    ctx.withReference addressing index note next =
      { next entry field with notes := note entry :: (next entry field).notes } := by
  obtain ⟨hresolve, hlookup⟩ := resolve_and_lookup_iff.mpr ⟨hnames, hholds⟩
  simp only [withReference, hresolve, hlookup]

private theorem withReference_of_missing
    (h : ∀ entry field, Names ctx.sectionPrefix.base addressing index entry →
      ¬Holds ctx.table ctx.sectionPrefix.requiredInsertCount entry field) :
    (ctx.withReference addressing index note next).result = .error (missing addressing) ∧
      (ctx.withReference addressing index note next).size = ctx.size ∧
      (ctx.withReference addressing index note next).events = [] := by
  rw [withReference]
  rcases hresolve : ctx.resolve addressing index with cause | entry
  · obtain rfl := resolve_eq_error hresolve
    exact ⟨rfl, rfl, rfl⟩
  rcases hlookup : ctx.lookup entry with cause | field
  · obtain rfl := lookup_eq_error hresolve hlookup
    simp [hlookup]
  · obtain ⟨hnames, hholds⟩ := resolve_and_lookup_iff.mp ⟨hresolve, hlookup⟩
    exact absurd hholds (h entry field hnames)

end Reference

/-! ## Delivering a line -/

theorem accept_of_le {e : Event} (h : ctx.size.used + field.size ≤ ctx.size.limit) :
    ctx.accept field e =
      { result := .ok (), size := { ctx.size with used := ctx.size.used + field.size }
        events := [e] } := by
  simp [accept, checkSize, SectionSize.add, h]

theorem accept_of_lt {e : Event} (h : ctx.size.limit < ctx.size.used + field.size) :
    ctx.accept field e =
      { result := .error .headerListTooLarge, size := ctx.size
        events := [.rejected .headerListTooLarge]
        notes := [.fieldTooLarge ctx.size.used field.size] } := by
  simp [accept, checkSize, SectionSize.add, Nat.not_le.mpr h]

variable {line : FieldLine} {e : Event}

/-- **Delivery.** A line that denotes an event is counted as that event's field and reported as
that event. -/
theorem deliver_of_denotes (h : Denotes ctx.sectionPrefix ctx.table line e)
    (hfield : e.field? = some field) :
    ∃ notes, ctx.deliver line = { ctx.accept field e with notes := notes } := by
  cases h with
  | indexed hnames hholds =>
    obtain rfl : _ = field := by simpa [Event.field?] using hfield
    exact ⟨_, withReference_of_holds hnames hholds⟩
  | nameReference neverIndexed value hnames hholds =>
    obtain rfl : _ = field := by simpa [Event.field?] using hfield
    exact ⟨_, withReference_of_holds hnames hholds⟩
  | literalName neverIndexed name value =>
    obtain rfl : _ = field := by simpa [Event.field?] using hfield
    exact ⟨_, rfl⟩

theorem deliver_of_not_denotes (h : ∀ e, ¬Denotes ctx.sectionPrefix ctx.table line e) :
    ∃ addressing index, line.reference? = some (addressing, index) ∧
      (ctx.deliver line).result = .error (missing addressing) ∧
      (ctx.deliver line).size = ctx.size ∧ (ctx.deliver line).events = [] := by
  cases line with
  | indexed addressing index =>
    exact ⟨addressing, index, rfl, withReference_of_missing fun entry field hnames hholds ↦
      h _ (.indexed hnames hholds)⟩
  | nameReference addressing neverIndexed index value =>
    exact ⟨addressing, index, rfl, withReference_of_missing fun entry field hnames hholds ↦
      h _ (.nameReference neverIndexed value hnames hholds)⟩
  | literalName neverIndexed name value => exact absurd (.literalName _ _ _) (h _)

end Context

end FieldCompression.FieldLine
