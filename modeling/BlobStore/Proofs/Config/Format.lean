import BlobStore.Proofs.Command.Calls
import BlobStore.Proofs.Json.Members
import BlobStore.Proofs.Json.Writing

/-!
# The format of a configuration file

A configuration is written as an object.  Its members are `Entry`s: the five fields, each with a
value of its type, and members of other names with any values.  Every text that stands for such an
object is read as the configuration that its entries make (`ofJson_of_denotes`), whatever their
order, as long as no field comes twice; if one does, the text is refused (`ofJson_of_repeated`).

`Follows` says what configuration some entries make without a word on their order.
-/

namespace BlobStore.Config

/-! ## Entries -/

/-- A member of the object as which a configuration is written. -/
inductive Entry where
  | root (s : String)
  | scheme (k : Scheme)
  | algorithm (a : Digest.Algorithm)
  | blockSize (n : Nat)
  | atomicWrites (b : Bool)
  | other (name : String) (v : Json.Datum)

/-- The names of the fields of a configuration. -/
def fieldNames : List String := ["root", "transform", "hash", "block_size", "atomic_writes"]

namespace Entry

def name : Entry → String
  | root _ => "root"
  | scheme _ => "transform"
  | algorithm _ => "hash"
  | blockSize _ => "block_size"
  | atomicWrites _ => "atomic_writes"
  | other name _ => name

def value : Entry → Json.Datum
  | root s => (Json.Scalar.text s).datum
  | scheme k => (Json.Scalar.text k.name).datum
  | algorithm a => (Json.Scalar.text a.name).datum
  | blockSize n => (Json.Scalar.natural n).datum
  | atomicWrites b => (Json.Scalar.boolean b).datum
  | other _ v => v

def member (e : Entry) : List Nat × Json.Datum := (Json.units e.name, e.value)

/-- A block size fits into 64 bits, and no field is called something else. -/
def Valid : Entry → Prop
  | blockSize n => n ≤ Json.maxNatural
  | other name _ => name ∉ fieldNames
  | _ => True

end Entry

/-- No field comes twice.  Other members may. -/
def AtMostOnce (es : List Entry) : Prop :=
  ∀ name ∈ fieldNames, (es.map Entry.name).count name ≤ 1

instance (es : List Entry) : Decidable (AtMostOnce es) :=
  inferInstanceAs (Decidable (∀ name ∈ fieldNames, _))

/-- What an entry of a kind gives, or the standard value if there is no entry of this kind. -/
def Given {α β : Type} (es : List Entry) (entry : β → Entry) (value : β → α) (standard a : α) :
    Prop :=
  (∃ b, entry b ∈ es ∧ a = value b) ∨ (∀ b, entry b ∉ es) ∧ a = standard

/-- A configuration has the values that some entries give, and the standard ones elsewhere. -/
structure Follows (c : Config) (es : List Entry) : Prop where
  root : Given es .root Path.ofString standard.root c.root
  scheme : Given es .scheme id standard.scheme c.scheme
  algorithm : Given es .algorithm id standard.algorithm c.algorithm
  blockSize : Given es .blockSize id standard.blockSize c.blockSize
  atomicWrites : Given es .atomicWrites id standard.atomicWrites c.atomicWrites

/-! ## Drafts -/

namespace Draft

/-- The draft with what an entry gives. -/
def put (d : Draft) : Entry → Draft
  | .root s => { d with root := some (Path.ofString s) }
  | .scheme k => { d with scheme := some k }
  | .algorithm a => { d with algorithm := some a }
  | .blockSize n => { d with blockSize := some n }
  | .atomicWrites b => { d with atomicWrites := some b }
  | .other _ _ => d

/-- Whether a draft has a value of a field. -/
def has (d : Draft) (name : String) : Bool :=
  schema.fields.any fun f => f.name = name && f.isSet d

theorem has_put {e : Entry} (he : e.Valid) (d : Draft) {name : String} (hname : name ∈ fieldNames) :
    (d.put e).has name = (d.has name || decide (e.name = name)) := by
  have hother : ∀ name' v, e = .other name' v → name' ≠ name := by
    rintro name' v rfl rfl
    exact he hname
  simp only [fieldNames, List.mem_cons, List.not_mem_nil, or_false] at hname
  cases e with
  | other name' v =>
    rw [put, Entry.name, decide_eq_false (hother name' v rfl), Bool.or_false]
  | _ => rcases hname with rfl | rfl | rfl | rfl | rfl <;> simp [has, put, schema, Entry.name]

end Draft

/-! ## Reading entries -/

theorem lookup_scheme (k : Scheme) :
    [("cas", Scheme.cas), ("identity", .identity)].lookup k.name = some k := by
  cases k <;> rfl

theorem lookup_algorithm (a : Digest.Algorithm) :
    [("sha1", Digest.Algorithm.sha1), ("blake3", .blake3)].lookup a.name = some a := by
  cases a <;> rfl

/-- An entry is read into a draft that has no value of its field. -/
theorem takes_entry {e : Entry} (he : e.Valid) {d : Draft} (hd : d.has e.name = false) :
    schema.Takes e.name d e.value (d.put e) := by
  have hset {f : Json.Field Draft} (hf : f ∈ schema.fields) (hname : f.name = e.name) :
      f.isSet d = false :=
    Json.Schema.isSet_of_has hf (hname ▸ hd)
  cases e with
  | root s =>
    refine Json.Schema.takes_of_field rfl (hset (by simp [schema]) rfl) ?_
    intro gap cs rest hgap hcs _
    exact Json.Reader.bind_of_ok (Json.readString_of_spelled hgap hcs _ rest)
  | scheme k =>
    refine Json.Schema.takes_of_field rfl (hset (by simp [schema]) rfl) ?_
    intro gap cs rest hgap hcs _
    exact Json.Reader.bind_of_ok (Json.readVariant_of_spelled hgap hcs (lookup_scheme k) rest)
  | algorithm a =>
    refine Json.Schema.takes_of_field rfl (hset (by simp [schema]) rfl) ?_
    intro gap cs rest hgap hcs _
    exact Json.Reader.bind_of_ok (Json.readVariant_of_spelled hgap hcs (lookup_algorithm a) rest)
  | blockSize n =>
    refine Json.Schema.takes_of_field rfl (hset (by simp [schema]) rfl) ?_
    intro gap cs rest hgap hcs hrest
    exact Json.Reader.bind_of_ok (Json.readNatural_of_spelled hgap he hcs _ hrest)
  | atomicWrites b =>
    refine Json.Schema.takes_of_field rfl (hset (by simp [schema]) rfl) ?_
    intro gap cs rest hgap hcs _
    exact Json.Reader.bind_of_ok (Json.readBoolean_of_spelled hgap hcs _ rest)
  | other name v =>
    have hfind : schema.fields.find? (·.name = name) = none := Json.Schema.find?_of_not_mem he
    exact Json.Schema.takes_of_unknown hfind d v

/-- How the entries of a configuration file are read. -/
def reading : schema.Entries Entry where
  name := Entry.name
  value := Entry.value
  put := Draft.put
  Valid := Entry.Valid
  nodup := by decide
  has_start name := by simp [Json.Schema.has, schema]
  takes he hd := takes_entry he hd
  has_put he hfield := Draft.has_put he _ hfield

/-! ## What entries make -/

/-- The configuration that entries make. -/
def ofEntries (es : List Entry) : Config :=
  let d := es.foldl Draft.put schema.start
  { root := d.root.getD standard.root
    scheme := d.scheme.getD standard.scheme
    algorithm := d.algorithm.getD standard.algorithm
    blockSize := d.blockSize.getD standard.blockSize
    atomicWrites := d.atomicWrites.getD standard.atomicWrites }

section making

variable {es es' : List Entry} {text : String}

/-- A text that stands for entries is read as the configuration that they make. -/
theorem ofJson_of_denotes (hes : ∀ e ∈ es, e.Valid) (honce : AtMostOnce es)
    (htext : Json.Denotes text (.object (es.map Entry.member))) :
    ofJson text = .ok (ofEntries es) :=
  (reading.readAll_eq_ok_iff hes htext honce).mpr rfl

/-- A text in which a field comes twice is refused. -/
theorem ofJson_of_repeated (hes : ∀ e ∈ es, e.Valid) (honce : ¬ AtMostOnce es)
    (htext : Json.Denotes text (.object (es.map Entry.member))) :
    ∃ name ∈ fieldNames, ∃ left, ofJson text = .error ⟨.duplicateField name, left⟩ :=
  reading.readAll_of_twice hes htext honce

/-- Of the entries of a kind the last one is decisive. -/
theorem given_foldl {α β : Type} {get : Draft → Option α} {entry : β → Entry} {value : β → α}
    (hput : ∀ (d : Draft) b, get (d.put (entry b)) = some (value b))
    (hother : ∀ (d : Draft) e, (∀ b, e ≠ entry b) → get (d.put e) = get d) (es : List Entry) :
    ∀ d : Draft, (∃ b, entry b ∈ es ∧ get (es.foldl Draft.put d) = some (value b)) ∨
      (∀ b, entry b ∉ es) ∧ get (es.foldl Draft.put d) = get d := by
  induction es with
  | nil =>
    intro d
    exact Or.inr ⟨fun b => List.not_mem_nil, rfl⟩
  | cons e es ih =>
    intro d
    rcases ih (d.put e) with ⟨b, hmem, hget⟩ | ⟨hnone, hget⟩
    · exact Or.inl ⟨b, List.mem_cons_of_mem _ hmem, hget⟩
    · by_cases he : ∃ b, e = entry b
      · obtain ⟨b, rfl⟩ := he
        exact Or.inl ⟨b, List.mem_cons_self, hget.trans (hput d b)⟩
      · push Not at he
        refine Or.inr ⟨fun b hmem => ?_, hget.trans (hother d e he)⟩
        rcases List.mem_cons.mp hmem with heq | hmem
        · exact he b heq.symm
        · exact hnone b hmem

/-- Of the value of a kind in the last draft, only the entries of this kind are looked at. -/
theorem given_getD_foldl {α β : Type} {get : Draft → Option α} {entry : β → Entry} {value : β → α}
    (hput : ∀ (d : Draft) b, get (d.put (entry b)) = some (value b))
    (hother : ∀ (d : Draft) e, (∀ b, e ≠ entry b) → get (d.put e) = get d)
    (hstart : get schema.start = none) (standard : α) (es : List Entry) :
    Given es entry value standard ((get (es.foldl Draft.put schema.start)).getD standard) := by
  rcases given_foldl hput hother es schema.start with ⟨b, hmem, hget⟩ | ⟨hnone, hget⟩
  · exact Or.inl ⟨b, hmem, by rw [hget]; rfl⟩
  · exact Or.inr ⟨hnone, by rw [hget, hstart]; rfl⟩

theorem follows_ofEntries (es : List Entry) : (ofEntries es).Follows es := by
  constructor
  · refine given_getD_foldl (fun d b => rfl) (fun d e he => ?_) rfl _ es
    cases e <;> first | rfl | exact absurd rfl (he _)
  · refine given_getD_foldl (fun d b => rfl) (fun d e he => ?_) rfl _ es
    cases e <;> first | rfl | exact absurd rfl (he _)
  · refine given_getD_foldl (fun d b => rfl) (fun d e he => ?_) rfl _ es
    cases e <;> first | rfl | exact absurd rfl (he _)
  · refine given_getD_foldl (fun d b => rfl) (fun d e he => ?_) rfl _ es
    cases e <;> first | rfl | exact absurd rfl (he _)
  · refine given_getD_foldl (fun d b => rfl) (fun d e he => ?_) rfl _ es
    cases e <;> first | rfl | exact absurd rfl (he _)

/-- A field that comes once has one entry. -/
theorem AtMostOnce.eq_of_name_eq (h : AtMostOnce es) {e e' : Entry} (he : e ∈ es) (he' : e' ∈ es)
    (hfield : e.name ∈ fieldNames) (hname : e'.name = e.name) : e' = e := by
  have hcount := h e.name hfield
  clear h
  induction es with
  | nil => cases he
  | cons e₁ es ih =>
    have hone {e₂ : Entry} (hmem : e₂ ∈ es) (hname : e₂.name = e.name) : e₁.name ≠ e.name := by
      intro hfirst
      have hpos : 0 < (es.map Entry.name).count e.name :=
        List.count_pos_iff.mpr (hname ▸ List.mem_map_of_mem hmem)
      rw [List.map_cons, hfirst, List.count_cons_self] at hcount
      omega
    rcases List.mem_cons.mp he with rfl | hmem <;> rcases List.mem_cons.mp he' with rfl | hmem'
    · rfl
    · exact absurd rfl (hone hmem' hname)
    · exact absurd hname (hone hmem rfl)
    · refine ih hmem hmem' (Nat.le_trans ?_ hcount)
      rw [List.map_cons]
      exact List.count_le_count_cons

/-- The same entries of a kind give the same value, if there is at most one. -/
theorem Given.eq {α β : Type} {entry : β → Entry} {value : β → α} {standard a a' : α}
    (hone : ∀ b b', entry b ∈ es → entry b' ∈ es → b = b')
    (hsame : ∀ b, entry b ∈ es' ↔ entry b ∈ es)
    (ha : Given es entry value standard a) (ha' : Given es' entry value standard a') : a' = a := by
  rcases ha with ⟨b, hb, rfl⟩ | ⟨hnone, rfl⟩ <;> rcases ha' with ⟨b', hb', rfl⟩ | ⟨hnone', rfl⟩
  · rw [hone b b' hb ((hsame b').mp hb')]
  · exact absurd ((hsame b).mpr hb) (hnone' b)
  · exact absurd ((hsame b').mp hb') (hnone b')
  · rfl

/-- The same fields make the same configuration, in whatever order they come. -/
theorem Follows.eq (hes : AtMostOnce es) {c c' : Config} (h : c.Follows es) (h' : c'.Follows es')
    (hsame : ∀ e : Entry, e.name ∈ fieldNames → (e ∈ es' ↔ e ∈ es)) : c' = c := by
  have heq {α β : Type} {entry : β → Entry} {value : β → α} {standard a a' : α} (name : String)
      (hname : ∀ b, (entry b).name = name) (hfield : name ∈ fieldNames)
      (hinj : ∀ b b', entry b = entry b' → b = b') (ha : Given es entry value standard a)
      (ha' : Given es' entry value standard a') : a' = a := by
    refine ha.eq (fun b b' hb hb' => hinj b b' ?_) (fun b => hsame _ ((hname b).symm ▸ hfield)) ha'
    exact hes.eq_of_name_eq hb' hb ((hname b').symm ▸ hfield) ((hname b).trans (hname b').symm)
  obtain ⟨_, _, _, _, _⟩ := c
  obtain ⟨_, _, _, _, _⟩ := c'
  rw [Config.mk.injEq]
  refine ⟨?_, ?_, ?_, ?_, ?_⟩
  · exact heq "root" (fun _ => rfl) (by decide) (fun _ _ => Entry.root.inj) h.root h'.root
  · exact heq "transform" (fun _ => rfl) (by decide) (fun _ _ => Entry.scheme.inj)
      h.scheme h'.scheme
  · exact heq "hash" (fun _ => rfl) (by decide) (fun _ _ => Entry.algorithm.inj)
      h.algorithm h'.algorithm
  · exact heq "block_size" (fun _ => rfl) (by decide) (fun _ _ => Entry.blockSize.inj)
      h.blockSize h'.blockSize
  · exact heq "atomic_writes" (fun _ => rfl) (by decide) (fun _ _ => Entry.atomicWrites.inj)
      h.atomicWrites h'.atomicWrites

end making

/-! ## Files -/

/-- **The format of a configuration file.**  Let a text stand for an object whose members are
fields of a configuration, with values of their types, and any members of other names.  If no field
comes twice, then the text is read as a configuration that has the values of the fields and the
standard values elsewhere; it is the same for every other text with the same fields.  If a field
comes twice, the text is refused for it.  A file with the text is loaded, or refused, alike. -/
theorem object_format {es : List Entry} {text : String} (hes : ∀ e ∈ es, e.Valid)
    (htext : Json.Denotes text (.object (es.map Entry.member))) :
    (AtMostOnce es → ∃ c, ofJson text = .ok c ∧ c.Follows es ∧
      (∀ p d, d.file? p = some text.toUTF8 → (load p).run d = (.ok c, d)) ∧
      ∀ es' text', (∀ e ∈ es', e.Valid) → AtMostOnce es' →
        (∀ e : Entry, e.name ∈ fieldNames → (e ∈ es' ↔ e ∈ es)) →
        Json.Denotes text' (.object (es'.map Entry.member)) → ofJson text' = .ok c) ∧
    (¬ AtMostOnce es → ∃ name ∈ fieldNames, ∃ left,
      ofJson text = .error ⟨.duplicateField name, left⟩ ∧
      ∀ p d, d.file? p = some text.toUTF8 →
        (load p).run d = (.error (.json (.misread ⟨.duplicateField name, left⟩ text)), d)) := by
  constructor
  · intro honce
    have hread := ofJson_of_denotes hes honce htext
    refine ⟨ofEntries es, hread, follows_ofEntries es, fun p d hfile => ?_, ?_⟩
    · rw [run_load hfile, hread]
    · intro es' text' hes' honce' hsame htext'
      rw [ofJson_of_denotes hes' honce' htext']
      exact congrArg Except.ok
        (Follows.eq honce (follows_ofEntries es) (follows_ofEntries es') hsame)
  · intro honce
    obtain ⟨name, hname, left, herror⟩ := ofJson_of_repeated hes honce htext
    refine ⟨name, hname, left, herror, fun p d hfile => ?_⟩
    rw [run_load hfile, herror]

/-- A member with a list that holds a number and an object, in which a name is half of a surrogate
pair, then an escaped name and an escaped root; and a root that comes twice. -/
theorem object_format_escapes :
    let text :=
      "\x7b\"x\" : [0.5e-3, \x7b\"\\ud800\":[]\x7d],\n\"h\\u0061sh\":\"sha1\",\"root\":\"\\uD83D\\uDE00\"\x7d"
    let es : List Entry :=
      [.other "x" (.list [.number ['0', '.', '5', 'e', '-', '3'], .object [([0xD800], .list [])]]),
        .algorithm .sha1, .root "😀"]
    let twice : Json.Record := [("root", .text "a"), ("root", .text "a")]
    (∀ e ∈ es, e.Valid) ∧ Json.Denotes text (.object (es.map Entry.member)) ∧
      (∃ c, ofJson text = .ok c ∧ c.Follows es) ∧
      ∃ name ∈ fieldNames, ∃ left,
        ofJson twice.compact = .error ⟨.duplicateField name, left⟩ := by
  intro text es twice
  have hvalid : ∀ e ∈ es, e.Valid := by
    intro e he
    simp only [es, List.mem_cons, List.not_mem_nil, or_false] at he
    rcases he with rfl | rfl | rfl
    · show "x" ∉ fieldNames
      decide
    · trivial
    · trivial
  have hline : Json.Gap ['\n'] := by simp [Json.Gap, Json.isBlank]
  have hblank : Json.Gap [' '] := by simp [Json.Gap, Json.isBlank]
  have hfirst : Json.Lead true [] := Json.gap_nil
  have hcomma {gap : List Char} (hgap : Json.Gap gap) : Json.Lead false (',' :: gap) :=
    ⟨[], gap, rfl, Json.gap_nil, hgap⟩
  have hraw (s : String) {w : List Char} (hw : s.toList.flatMap Json.escapedChar = w) :
      Json.Quoted w (Json.units s) := hw ▸ Json.quoted_escaped s
  have hdigit {c : Char} (hc : c.isDigit = true) : Json.Digits [c] :=
    ⟨List.cons_ne_nil c [], List.forall_mem_singleton.mpr hc⟩
  -- the value of the unknown member
  have hnumber : Json.Spelled (.value (.number ['0', '.', '5', 'e', '-', '3']))
      ['0', '.', '5', 'e', '-', '3'] :=
    .number (@Json.Literal.mk [] ['0'] ['.', '5'] ['e', '-', '3'] 0 (Or.inl rfl)
      (Json.numeral_toDigits 0) (.some (hdigit rfl))
      (.some (Or.inl rfl) (Or.inr (Or.inr rfl)) (hdigit rfl)))
  have hunit : Json.Quoted ['\\', 'u', 'd', '8', '0', '0'] [0xD800] :=
    .cons (w := ['\\', 'u', 'd', '8', '0', '0']) (u := [0xD800]) (.code rfl) .nil
  have hobject : Json.Spelled (.value (.object [([0xD800], .list [])]))
      ['\x7b', '"', '\\', 'u', 'd', '8', '0', '0', '"', ':', '[', ']', '\x7d'] :=
    .object (.member hfirst hunit Json.gap_nil Json.gap_nil (.list (.noElement Json.gap_nil))
      (.noMember Json.gap_nil))
  have hlist := Json.Spelled.list (.element hfirst hnumber
    (.element (hcomma hblank) hobject (.noElement Json.gap_nil)))
  -- the name and the root that are spelled by escapes
  have hhash : Json.Quoted ['h', '\\', 'u', '0', '0', '6', '1', 's', 'h'] (Json.units "hash") :=
    .cons (w := ['h']) (.raw (by decide) (by decide) (by decide))
      (.cons (w := ['\\', 'u', '0', '0', '6', '1']) (u := [0x61]) (.code rfl)
        (.cons (w := ['s']) (.raw (by decide) (by decide) (by decide))
          (.cons (w := ['h']) (.raw (by decide) (by decide) (by decide)) .nil)))
  have hpair : Json.Quoted ['\\', 'u', 'D', '8', '3', 'D', '\\', 'u', 'D', 'E', '0', '0']
      (Json.units "😀") :=
    .cons (w := ['\\', 'u', 'D', '8', '3', 'D']) (u := [0xD83D]) (.code rfl)
      (.cons (w := ['\\', 'u', 'D', 'E', '0', '0']) (u := [0xDE00]) (.code rfl) .nil)
  -- the whole object
  have hmembers := Json.Spelled.object
    (.member hfirst (hraw "x" (w := ['x']) (by decide)) hblank hblank hlist
      (.member (hcomma hline) hhash Json.gap_nil Json.gap_nil
        (.text (hraw "sha1" (w := ['s', 'h', 'a', '1']) (by decide)))
        (.member (hcomma Json.gap_nil) (hraw "root" (w := ['r', 'o', 'o', 't']) (by decide))
          Json.gap_nil Json.gap_nil (.text hpair) (.noMember Json.gap_nil))))
  have htext : Json.Denotes text (.object (es.map Entry.member)) :=
    ⟨[], _, [], by decide +kernel, Json.gap_nil, Json.gap_nil, hmembers⟩
  have hvalid' : ∀ e ∈ [Entry.root "a", .root "a"], e.Valid := by
    intro e he
    rw [List.mem_pair] at he
    rcases he with rfl | rfl <;> trivial
  have htwice : Json.Denotes twice.compact (.object ([Entry.root "a", .root "a"].map Entry.member)) :=
    Json.denotes_of_spelled (Json.spelled_compact twice)
  obtain ⟨hread, -⟩ := object_format hvalid htext
  obtain ⟨-, hrefuse⟩ := object_format hvalid' htwice
  obtain ⟨c, hc, hfollows, -⟩ := hread (by decide)
  obtain ⟨name, hname, left, herror, -⟩ := hrefuse (by decide)
  exact ⟨hvalid, htext, ⟨c, hc, hfollows⟩, name, hname, left, herror⟩

end BlobStore.Config
