import BlobStore.Proofs.Command.Calls
import BlobStore.Proofs.Json.Unambiguous
import BlobStore.Proofs.Json.Writing

/-!
# What an output says

A command answers a record, and the output is this record written in one of two formats.  Who reads
the output knows nothing of records: there is a text, which stands for a JSON value, and the value
has fields.  Whatever the format, the text of a record stands for one value (`denotes_write_iff`),
in which the fields of the record are found by their names (`Record.field?_datum`).  So a statement
about what a call prints is made of that value (`Shows`).
-/

namespace BlobStore

namespace Json

variable {r : Record}

/-! ## Fields -/

/-- The value of a field of an object, the first one of its name. -/
def Datum.field? (v : Datum) (name : String) : Option Datum :=
  match v with
  | .object ms => ms.lookup (units name)
  | _ => none

/-- The fields of a record are found in what it stands for. -/
theorem Record.field?_datum (r : Record) (name : String) :
    r.datum.field? name = (r.lookup name).map Scalar.datum := by
  show (r.map fun f => (units f.1, f.2.datum)).lookup (units name) = _
  induction r with
  | nil => rfl
  | cons f r ih =>
    obtain ⟨name', value⟩ := f
    have hname : (units name == units name') = (name == name') := by
      rw [Bool.eq_iff_iff, beq_iff_eq, beq_iff_eq]
      exact ⟨units_injective, congrArg units⟩
    rw [List.map_cons, List.lookup_cons, List.lookup_cons, hname]
    cases name == name' with
    | true => rfl
    | false => exact ih

/-! ## Formats -/

/-- Both formats write the value that the record stands for. -/
theorem denotes_write (format : Format) (r : Record) : Denotes (format.write r) r.datum := by
  cases format with
  | json => exact denotes_line (spelled_compact r)
  | text => exact denotes_line (spelled_indented r)

theorem denotes_write_iff (format : Format) {v : Datum} :
    Denotes (format.write r) v ↔ v = r.datum := by
  constructor
  · intro hv
    exact hv.unique (denotes_write format r)
  · rintro rfl
    exact denotes_write format r

end Json

/-! ## Outputs -/

/-- An output that is the text of one JSON value, of which a statement holds. -/
def Shows (output : ByteArray) (P : Json.Datum → Prop) : Prop :=
  ∃ (text : String) (v : Json.Datum), output = text.toUTF8 ∧
    (∀ v', Json.Denotes text v' ↔ v' = v) ∧ P v

/-- What is shown of a record is what it stands for. -/
theorem Settings.shows_shown (settings : Settings) {r : Json.Record} {P : Json.Datum → Prop}
    (h : P r.datum) : Shows (settings.shown r) P :=
  ⟨_, r.datum, rfl, fun _ => Json.denotes_write_iff _, h⟩

/-- What an output says of the number of bytes. -/
def Json.Datum.ShowsBytes (bytes : Nat) (v : Json.Datum) : Prop :=
  v.field? "bytes" = some (.number (Nat.toDigits 10 bytes))

end BlobStore
