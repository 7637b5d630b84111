import BlobStore.Placement
import BlobStore.Proofs.Json.Members
import BlobStore.Proofs.Json.Writing

/-!
# The format of a placement

A placement is written as an object with two texts.  It is read from every text that stands for an
object in which each of the two comes once, in whatever order, among members of other names, and
however names and values are spelled.  If one of them is missing or comes twice, nothing is read
(`placement_format`).
-/

namespace BlobStore.Placement

/-! ## Entries -/

/-- A member of the object as which a placement is written. -/
inductive Entry where
  | pathname (s : String)
  | filename (s : String)
  | other (name : String) (v : Json.Datum)

namespace Entry

def name : Entry → String
  | pathname _ => "pathname"
  | filename _ => "filename"
  | other name _ => name

def value : Entry → Json.Datum
  | pathname s => .text (Json.units s)
  | filename s => .text (Json.units s)
  | other _ v => v

def member (e : Entry) : List Nat × Json.Datum := (Json.units e.name, e.value)

/-- No field is called something else. -/
def Valid : Entry → Prop
  | other name _ => name ∉ ["pathname", "filename"]
  | _ => True

/-- The text that an entry gives for the pathname. -/
def pathname? : Entry → Option String
  | pathname s => some s
  | _ => none

/-- The text that an entry gives for the filename. -/
def filename? : Entry → Option String
  | filename s => some s
  | _ => none

end Entry

/-- Each text of a placement is given once, and nothing else is given for it. -/
structure GivenBy (p : Placement) (es : List Entry) : Prop where
  pathname : es.filterMap Entry.pathname? = [p.pathname]
  filename : es.filterMap Entry.filename? = [p.filename]

/-! ## Drafts -/

/-- The draft with what an entry gives. -/
def Draft.put (d : Draft) : Entry → Draft
  | .pathname s => { d with pathname := some s }
  | .filename s => { d with filename := some s }
  | .other _ _ => d

/-- An entry is read into a draft that has no value of its field. -/
theorem takes_entry {e : Entry} (he : e.Valid) {d : Draft} (hd : schema.has d e.name = false) :
    schema.Takes e.name d e.value (d.put e) := by
  have hset {f : Json.Field Draft} (hf : f ∈ schema.fields) (hname : f.name = e.name) :
      f.isSet d = false :=
    Json.Schema.isSet_of_has hf (hname ▸ hd)
  cases e with
  | pathname s =>
    refine Json.Schema.takes_of_field rfl (hset (by simp [schema]) rfl) ?_
    intro gap cs rest hgap hcs _
    exact Json.Reader.bind_of_ok (Json.readString_of_spelled hgap hcs _ rest)
  | filename s =>
    refine Json.Schema.takes_of_field rfl (hset (by simp [schema]) rfl) ?_
    intro gap cs rest hgap hcs _
    exact Json.Reader.bind_of_ok (Json.readString_of_spelled hgap hcs _ rest)
  | other name v =>
    have hfind : schema.fields.find? (·.name = name) = none := Json.Schema.find?_of_not_mem he
    exact Json.Schema.takes_of_unknown hfind d v

theorem has_put {e : Entry} (he : e.Valid) (d : Draft) {field : String}
    (hfield : field ∈ schema.fieldNames) :
    schema.has (d.put e) field = (schema.has d field || decide (e.name = field)) := by
  have hother : ∀ name v, e = .other name v → name ≠ field := by
    rintro name v rfl rfl
    exact he hfield
  have hfield : field ∈ ["pathname", "filename"] := hfield
  simp only [List.mem_cons, List.not_mem_nil, or_false] at hfield
  cases e with
  | other name v =>
    rw [Draft.put, Entry.name, decide_eq_false (hother name v rfl), Bool.or_false]
  | _ => rcases hfield with rfl | rfl <;> simp [Json.Schema.has, Draft.put, schema, Entry.name]

/-- How the entries of a placement are read. -/
def reading : schema.Entries Entry where
  name := Entry.name
  value := Entry.value
  put := Draft.put
  Valid := Entry.Valid
  nodup := by decide
  has_start field := by simp [Json.Schema.has, schema]
  takes he hd := takes_entry he hd
  has_put he hfield := has_put he _ hfield

/-! ## What entries make -/

section making

variable {p : Placement} {es : List Entry} {text : String}

theorem finish_eq_ok {d : Draft} :
    schema.finish d = .ok p ↔ d.pathname = some p.pathname ∧ d.filename = some p.filename := by
  obtain ⟨pathname, filename⟩ := p
  rcases d with ⟨_ | _, _ | _⟩ <;> simp [schema]

/-- Entries make a placement if the last ones of both kinds are its texts. -/
theorem finish_foldl_eq_ok : schema.finish (es.foldl Draft.put schema.start) = .ok p ↔
    (es.filterMap Entry.pathname?).getLast? = some p.pathname ∧
      (es.filterMap Entry.filename?).getLast? = some p.filename := by
  have hpathname (d : Draft) (e : Entry) :
      (d.put e).pathname = (Entry.pathname? e).or d.pathname := by
    cases e <;> rfl
  have hfilename (d : Draft) (e : Entry) :
      (d.put e).filename = (Entry.filename? e).or d.filename := by
    cases e <;> rfl
  rw [finish_eq_ok, Json.Schema.Entries.get_foldl hpathname, Json.Schema.Entries.get_foldl hfilename]
  simp [schema]

/-- A field comes as often as its text is given. -/
theorem atMostOnce_iff (hes : ∀ e ∈ es, e.Valid) : reading.AtMostOnce es ↔
    (es.filterMap Entry.pathname?).length ≤ 1 ∧ (es.filterMap Entry.filename?).length ≤ 1 := by
  have hgiven (field : String) (given : Entry → Option String)
      (hfield : field ∈ ["pathname", "filename"])
      (hpathname : ∀ s, (given (.pathname s)).isSome = decide ("pathname" = field))
      (hfilename : ∀ s, (given (.filename s)).isSome = decide ("filename" = field))
      (hother : ∀ name v, given (.other name v) = none) :
      ∀ e ∈ es, (given e).isSome = decide (e.name = field) := by
    intro e he
    cases e with
    | pathname s => exact hpathname s
    | filename s => exact hfilename s
    | other name v =>
      have hname : name ≠ field := fun heq => hes _ he (heq ▸ hfield)
      rw [hother]
      exact (decide_eq_false hname).symm
  have hpathname := hgiven "pathname" Entry.pathname? (by decide)
    (fun _ => rfl) (fun _ => rfl) (fun _ _ => rfl)
  have hfilename := hgiven "filename" Entry.filename? (by decide)
    (fun _ => rfl) (fun _ => rfl) (fun _ _ => rfl)
  rw [← reading.count_eq_length hpathname, ← reading.count_eq_length hfilename]
  show (∀ field ∈ ["pathname", "filename"], _) ↔ _
  rw [List.forall_mem_cons, List.forall_mem_singleton]

/-- A text that stands for entries is read as a placement if they give each of its texts once, and
nothing else for it. -/
theorem ofJson_eq_ok_iff (hes : ∀ e ∈ es, e.Valid)
    (htext : Json.Denotes text (.object (es.map Entry.member))) :
    ofJson text = .ok p ↔ p.GivenBy es := by
  have hlast {l : List String} {s : String} (hl : l.length ≤ 1) : l.getLast? = some s ↔ l = [s] := by
    match l, hl with
    | [], _ => simp
    | [s'], _ => simp
  by_cases honce : reading.AtMostOnce es
  · obtain ⟨hpathname, hfilename⟩ := (atMostOnce_iff hes).mp honce
    have hread : ofJson text = .ok p ↔
        schema.finish (es.foldl Draft.put schema.start) = .ok p :=
      reading.readAll_eq_ok_iff hes htext honce
    rw [hread, finish_foldl_eq_ok, hlast hpathname, hlast hfilename]
    exact ⟨fun h => ⟨h.1, h.2⟩, fun h => ⟨h.pathname, h.filename⟩⟩
  · -- a text in which a field comes twice is refused
    obtain ⟨field, -, left, herror⟩ := reading.readAll_of_twice hes htext honce
    constructor
    · intro hread
      cases herror.symm.trans hread
    · intro hgiven
      refine absurd ((atMostOnce_iff hes).mpr ?_) honce
      rw [hgiven.pathname, hgiven.filename]
      exact ⟨le_rfl, le_rfl⟩

end making

/-! ## Texts -/

/-- **The format of a placement.**  What a placement is written as is read as the same placement,
whatever characters its two texts hold.  More than that, a text that stands for an object, with the
fields and any members of other names, is read as a placement if and only if the object gives the
pathname once and the filename once, and they are those of the placement.  The order of the members,
the blanks between them, and the spelling of names and values make no difference. -/
theorem placement_format (p : Placement) :
    ofJson p.toRecord.compact = .ok p ∧
      ∀ es text, (∀ e ∈ es, e.Valid) → Json.Denotes text (.object (es.map Entry.member)) →
        (ofJson text = .ok p ↔ p.GivenBy es) := by
  have hfields : ∀ e ∈ [Entry.pathname p.pathname, .filename p.filename], e.Valid := by
    intro e he
    rcases List.mem_pair.mp he with rfl | rfl <;> trivial
  have htext := Json.denotes_of_spelled (Json.spelled_compact p.toRecord)
  refine ⟨(ofJson_eq_ok_iff hfields htext).mpr ⟨rfl, rfl⟩, fun es text hes htext => ?_⟩
  exact ofJson_eq_ok_iff hes htext

/-- The filename comes first, with an escape in its name and a surrogate pair in its value; an
unknown member with a list stands between, and the slash of the pathname is escaped by a letter. -/
theorem placement_format_escapes :
    let text :=
      " \x7b\"\\u0066ilename\" : \"\\uD83D\\uDE00\",\n\"x\":[null],\"pathname\":\"a\\/\"\x7d"
    let p : Placement := ⟨"a/", "😀"⟩
    let es : List Entry := [.filename "😀", .other "x" (.list [.null]), .pathname "a/"]
    (∀ e ∈ es, e.Valid) ∧ Json.Denotes text (.object (es.map Entry.member)) ∧
      ofJson text = .ok p ∧ ofJson p.toRecord.compact = .ok p := by
  intro text p es
  have hvalid : ∀ e ∈ es, e.Valid := by
    intro e he
    simp only [es, List.mem_cons, List.not_mem_nil, or_false] at he
    rcases he with rfl | rfl | rfl
    · trivial
    · show "x" ∉ ["pathname", "filename"]
      decide
    · trivial
  have hline : Json.Gap ['\n'] := by simp [Json.Gap, Json.isBlank]
  have hblank : Json.Gap [' '] := by simp [Json.Gap, Json.isBlank]
  have hfirst : Json.Lead true [] := Json.gap_nil
  have hcomma {gap : List Char} (hgap : Json.Gap gap) : Json.Lead false (',' :: gap) :=
    ⟨[], gap, rfl, Json.gap_nil, hgap⟩
  have hraw (s : String) {w : List Char} (hw : s.toList.flatMap Json.escapedChar = w) :
      Json.Quoted w (Json.units s) := hw ▸ Json.quoted_escaped s
  have hname : Json.Quoted ['\\', 'u', '0', '0', '6', '6', 'i', 'l', 'e', 'n', 'a', 'm', 'e']
      (Json.units "filename") :=
    .cons (w := ['\\', 'u', '0', '0', '6', '6']) (u := [0x66]) (.code rfl)
      (hraw "ilename" (w := ['i', 'l', 'e', 'n', 'a', 'm', 'e']) (by decide))
  have hpair : Json.Quoted ['\\', 'u', 'D', '8', '3', 'D', '\\', 'u', 'D', 'E', '0', '0']
      (Json.units "😀") :=
    .cons (w := ['\\', 'u', 'D', '8', '3', 'D']) (u := [0xD83D]) (.code rfl)
      (.cons (w := ['\\', 'u', 'D', 'E', '0', '0']) (u := [0xDE00]) (.code rfl) .nil)
  have hslash : Json.Quoted ['a', '\\', '/'] (Json.units "a/") :=
    .cons (w := ['a']) (.raw (by decide) (by decide) (by decide))
      (.cons (w := ['\\', '/']) (.short rfl) .nil)
  have hmembers := Json.Spelled.object
    (.member hfirst hname hblank hblank (.text hpair)
      (.member (hcomma hline) (hraw "x" (w := ['x']) (by decide)) Json.gap_nil Json.gap_nil
        (.list (.element hfirst .null (.noElement Json.gap_nil)))
        (.member (hcomma Json.gap_nil)
          (hraw "pathname" (w := ['p', 'a', 't', 'h', 'n', 'a', 'm', 'e']) (by decide))
          Json.gap_nil Json.gap_nil (.text hslash) (.noMember Json.gap_nil))))
  have htext : Json.Denotes text (.object (es.map Entry.member)) :=
    ⟨[' '], _, [], by decide +kernel, hblank, Json.gap_nil, hmembers⟩
  obtain ⟨hcompact, hread⟩ := placement_format p
  exact ⟨hvalid, htext, (hread es text hvalid htext).mpr ⟨rfl, rfl⟩, hcompact⟩

end BlobStore.Placement
