import FieldCompression.FieldSection

/-!
# Recordings of a connection

A recording holds what was received on the streams of a connection. Replaying it gives what became
of each of the sections in it.
-/

namespace FieldCompression.Interop

/-! ## Records

A recording is a sequence of records, in the order in which they were received: the number of a
stream in 8 octets, the length of what was received in 4 octets, both most significant octet first,
and then those octets.

Stream 0 stands for the encoder stream. What was received on any other stream is one field
section.

### Where a recording ends

A recording ends where fewer than 8 octets are left, whether or not they are the beginning of a
stream's number. Once the number is there, the rest of the record has to be there too. -/

/-- What was received at once on a stream. -/
structure Record where
  /-- The number of the stream. -/
  stream : Nat
  /-- The octets received. -/
  payload : Bytes
deriving DecidableEq, Repr

/-- The number with the given octets, most significant first. -/
def bigEndian (octets : Bytes) : Nat := octets.foldl (fun n octet ↦ n * 256 + octet.toNat) 0

/-- The octets of a number, most significant first. -/
def bigEndianOctets : (count value : Nat) → Bytes
  | 0, _ => []
  | count + 1, value => UInt8.ofNat (value >>> (8 * count)) :: bigEndianOctets count value

namespace Record

/-- The form of a record in a recording. -/
def encode (r : Record) : Bytes :=
  bigEndianOctets 8 r.stream ++ bigEndianOctets 4 r.payload.length ++ r.payload

/-- What the front of a recording holds. -/
inductive Front where
  /-- A record, and what follows it. -/
  | record (value : Record) (rest : Bytes)
  /-- The end of the recording. -/
  | ended
  /-- A record that is cut off. -/
  | truncated
deriving DecidableEq, Repr

/-- Reads the record at the front of a recording. -/
def read (recording : Bytes) : Front :=
  if recording.length < 8 then .ended
  else
    let afterStream := recording.drop 8
    if afterStream.length < 4 then .truncated
    else
      let length := bigEndian (afterStream.take 4)
      let body := afterStream.drop 4
      if body.length < length then .truncated
      else .record ⟨bigEndian (recording.take 8), body.take length⟩ (body.drop length)

theorem length_rest_of_read {recording rest : Bytes} {r : Record}
    (h : read recording = .record r rest) : rest.length < recording.length := by
  simp only [read] at h
  split at h
  · exact absurd h (by simp)
  · split at h
    · exact absurd h (by simp)
    · split at h
      · exact absurd h (by simp)
      · injection h with _ h
        subst h
        simp only [List.length_drop]
        omega

end Record

/-! ## Replays

A session replays the records of a recording in order. Records of the encoder stream change the
dynamic table, and all others are sections to decode. A section that needs entries which have not
arrived yet is put aside as blocked, and every time the table changes the blocked sections are
tried again, in the order in which they arrived.

### Reports

What happens is told in reports, in order. They are what a caller shows of the session, and they
say of every section what became of it: its fields and its end, or that it was put aside. The
first failure of any other kind ends the session; what was reported before it stands. -/

/-- Something that a session has to tell. -/
inductive Report where
  /-- A record was read. -/
  | received (stream length : Nat)
  /-- A section reported something. -/
  | event (event : FieldLine.Event)
  /-- A section was decoded to its end. -/
  | decoded (stream requiredInsertCount : Nat)
  /-- A section was put aside. -/
  | blocked (stream : Nat)
  /-- A section was put aside and its entries never arrived. -/
  | neverUnblocked (stream : Nat)
deriving DecidableEq, Repr

/-- Why a recording could not be replayed to its end. -/
inductive Failure where
  /-- A section or an instruction failed. -/
  | decoding (cause : Error)
  /-- The recording ends within a record. -/
  | truncated
deriving DecidableEq, Repr

/-- The state between two records. -/
structure Session where
  /-- The decoder of all sections, between two of them. -/
  decoder : Decoder
  /-- The dynamic table. -/
  table : DynamicTable
  /-- The sections put aside, in the order of their arrival. -/
  blocked : List Record := []

namespace Session

/-- What a part of a session did. -/
structure Step where
  /-- Whether the session may go on. -/
  result : Except Error Unit
  /-- The session afterwards. -/
  session : Session
  /-- What there is to tell. -/
  reports : List Report := []

/-- A session before its first record. -/
def start (settings : Settings) : Session :=
  { decoder := settings.decoder, table := settings.table }

/-- A part of a session after an earlier part. -/
def Step.after (s : Step) (reports : List Report) : Step :=
  { s with reports := reports ++ s.reports }

/-- Decodes the section in a record. -/
def attempt (s : Session) (r : Record) : Step :=
  let d := s.decoder.decodeSection s.table.view r.payload
  let session := { s with decoder := d.decoder }
  let events := d.events.map Report.event
  match d.result with
  | .ok p =>
    { result := .ok (), session, reports := events ++ [.decoded r.stream p.requiredInsertCount] }
  | .error cause => { result := .error cause, session, reports := events }

/-- Puts a section aside. -/
def putAside (s : Session) (r : Record) : Session := { s with blocked := s.blocked ++ [r] }

/-- Tries sections again, in order, and puts those aside that are blocked still. -/
def retry (s : Session) : List Record → Step
  | [] => { result := .ok (), session := s }
  | r :: rest =>
    let a := s.attempt r
    match a.result with
    | .ok () => (a.session.retry rest).after a.reports
    | .error .dynamicTableWouldBlock => ((a.session.putAside r).retry rest).after a.reports
    | .error _ => a

/-- Replays a record of the encoder stream. -/
def control (s : Session) (instructions : Bytes) : Step :=
  let u := s.table.receive instructions
  let session := { s with table := u.table }
  match u.result with
  | .error cause => { result := .error cause, session }
  | .ok () => { session with blocked := [] }.retry s.blocked

/-- Replays a record of a section. -/
def request (s : Session) (r : Record) : Step :=
  let a := s.attempt r
  match a.result with
  | .error .dynamicTableWouldBlock =>
    { result := .ok (), session := a.session.putAside r
      reports := a.reports ++ [.blocked r.stream] }
  | _ => a

/-- Replays a record. -/
def replay (s : Session) (r : Record) : Step :=
  let step := if r.stream = 0 then s.control r.payload else s.request r
  step.after [.received r.stream r.payload.length]

/-- What became of a recording. -/
structure Run where
  /-- Why the recording was not replayed to its end, if it was not. -/
  failure? : Option Failure
  /-- The session at the end. -/
  session : Session
  /-- What there is to tell. -/
  reports : List Report

/-- Replays a recording from here on. -/
def run (s : Session) (recording : Bytes) : Run :=
  match _h : Record.read recording with
  | .ended =>
    { failure? := none, session := s
      reports := s.blocked.map fun r ↦ .neverUnblocked r.stream }
  | .truncated => { failure? := some .truncated, session := s, reports := [] }
  | .record r rest =>
    let step := s.replay r
    match step.result with
    | .error cause =>
      { failure? := some (.decoding cause), session := step.session, reports := step.reports }
    | .ok () =>
      let more := step.session.run rest
      { more with reports := step.reports ++ more.reports }
termination_by recording.length
decreasing_by exact Record.length_rest_of_read _h

end Session

end FieldCompression.Interop
