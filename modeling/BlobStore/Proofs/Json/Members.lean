import BlobStore.Proofs.Json.Objects
import Mathlib.Data.List.Nodup

/-!
# The members of a record

What a record may be written with are its fields, each with a value of its type, and members of
other names with any values.  `Schema.Entries` is a type of such members together with what they put
into a draft.  An entry has to be read into a draft which has no value of its field, and then the
draft must have one; of the fields it is asked that they have different names.

From this alone it follows what an object of entries is read as: if no field comes twice, the order
of the members makes no difference to whether they are read, and the object is read as the value of
the draft that they make (`Entries.exists_readAll_eq`).  If a field comes twice, the object is
refused for it (`Entries.readAll_of_twice`).
-/

namespace BlobStore.Json.Schema

variable {σ α ε : Type}

/-- The names of the fields of a record. -/
def fieldNames (s : Schema σ α) : List String := s.fields.map Field.name

/-- Whether a draft has a value of a field. -/
def has (s : Schema σ α) (draft : σ) (name : String) : Bool :=
  s.fields.any fun f => f.name = name && f.isSet draft

section has

variable {s : Schema σ α} {draft : σ} {name : String}

theorem has_of_not_mem (hname : name ∉ s.fieldNames) (draft : σ) : s.has draft name = false := by
  rw [has, List.any_eq_false]
  intro f hf hset
  rw [Bool.and_eq_true, decide_eq_true_eq] at hset
  exact hname (hset.1 ▸ List.mem_map_of_mem (f := Field.name) hf)

theorem isSet_of_has {f : Field σ} (hf : f ∈ s.fields) (h : s.has draft f.name = false) :
    f.isSet draft = false := by
  rw [has, List.any_eq_false] at h
  simpa using h f hf

theorem find?_of_mem (hnodup : s.fieldNames.Nodup) {f : Field σ} (hf : f ∈ s.fields) :
    s.fields.find? (·.name = f.name) = some f := by
  cases hfind : s.fields.find? (·.name = f.name) with
  | none => exact absurd (decide_eq_true rfl) (List.find?_eq_none.mp hfind f hf)
  | some g =>
    have hname : g.name = f.name := by simpa using List.find?_some hfind
    rw [List.inj_on_of_nodup_map hnodup (List.mem_of_find?_eq_some hfind) hf hname]

/-- The field of which a draft has a value is found by its name. -/
theorem exists_field_of_has (hnodup : s.fieldNames.Nodup) (h : s.has draft name = true) :
    ∃ f, s.fields.find? (·.name = name) = some f ∧ f.isSet draft = true := by
  rw [has, List.any_eq_true] at h
  obtain ⟨f, hf, hset⟩ := h
  rw [Bool.and_eq_true, decide_eq_true_eq] at hset
  obtain ⟨rfl, hset⟩ := hset
  exact ⟨f, find?_of_mem hnodup hf, hset⟩

theorem find?_of_not_mem (hname : name ∉ s.fieldNames) : s.fields.find? (·.name = name) = none := by
  rw [List.find?_eq_none]
  rintro f hf hfound
  rw [decide_eq_true_eq] at hfound
  exact hname (hfound ▸ List.mem_map_of_mem (f := Field.name) hf)

end has

/-! ## Entries -/

/-- A type of members of an object, with what each puts into the draft of a record. -/
structure Entries (s : Schema σ α) (ε : Type) where
  name : ε → String
  value : ε → Datum
  put : σ → ε → σ
  /-- the members that are fields with values of their types, or no fields at all -/
  Valid : ε → Prop
  nodup : s.fieldNames.Nodup
  has_start : ∀ name, s.has s.start name = false
  takes : ∀ {e draft}, Valid e → s.has draft (name e) = false →
    s.Takes (name e) draft (value e) (put draft e)
  has_put : ∀ {e draft field}, Valid e → field ∈ s.fieldNames →
    s.has (put draft e) field = (s.has draft field || decide (name e = field))

namespace Entries

variable {s : Schema σ α} (E : s.Entries ε) {es : List ε} {e : ε} {draft : σ} {field text : String}

def member (e : ε) : List Nat × Datum := (units (E.name e), E.value e)

/-- No field comes twice.  Other members may. -/
def AtMostOnce (es : List ε) : Prop := ∀ field ∈ s.fieldNames, (es.map E.name).count field ≤ 1

/-- How often a field comes in entries, or has come before them. -/
def times (draft : σ) (es : List ε) (field : String) : Nat :=
  (s.has draft field).toNat + (es.map E.name).count field

/-- What has been read counts as before. -/
theorem times_put (he : E.Valid e) (hfree : s.has draft (E.name e) = false) (es : List ε)
    (hfield : field ∈ s.fieldNames) :
    E.times (E.put draft e) es field = E.times draft (e :: es) field := by
  rw [times, times, E.has_put he hfield, List.map_cons, List.count_cons]
  by_cases heq : E.name e = field
  · subst heq
    simp [hfree, Nat.add_comm]
  · simp [heq]

/-- A field that has come before an entry of its name comes twice. -/
theorem two_le_times (hset : s.has draft (E.name e) = true) (es : List ε) :
    2 ≤ E.times draft (e :: es) (E.name e) := by
  rw [times, hset, List.map_cons, List.count_cons_self]
  simp only [Bool.toNat_true]
  omega

theorem times_start (es : List ε) (field : String) :
    E.times s.start es field = (es.map E.name).count field := by
  rw [times, E.has_start, Bool.toNat_false, Nat.zero_add]

/-- Entries are read in turn if no field comes twice, be it in them or before them. -/
theorem absorbs (hes : ∀ e ∈ es, E.Valid e) : ∀ {draft : σ},
    (∀ field ∈ s.fieldNames, E.times draft es field ≤ 1) →
      s.Absorbs draft (es.map E.member) (es.foldl E.put draft) := by
  -- what has been put into the draft counts together with what is still to come
  induction es with
  | nil =>
    intro draft _
    exact .nil
  | cons e es ih =>
    intro draft honce
    have he : E.Valid e := hes e List.mem_cons_self
    have hfree : s.has draft (E.name e) = false := by
      by_cases hfield : E.name e ∈ s.fieldNames
      · rw [← Bool.not_eq_true]
        intro hset
        exact absurd (honce _ hfield) (Nat.not_le_of_lt (E.two_le_times hset es))
      · exact has_of_not_mem hfield draft
    refine .cons (E.takes he hfree) (ih (fun e' he' => hes e' (List.mem_cons_of_mem _ he')) ?_)
    intro field hfield
    rw [E.times_put he hfree es hfield]
    exact honce field hfield

/-- If a field comes twice, entries are read in turn up to one whose field has come before. -/
theorem exists_repeated (hes : ∀ e ∈ es, E.Valid e) (hfield : field ∈ s.fieldNames) :
    ∀ {draft : σ}, 2 ≤ E.times draft es field → ∃ before e after, es = before ++ e :: after ∧
      s.Absorbs draft (before.map E.member) (before.foldl E.put draft) ∧
      s.has (before.foldl E.put draft) (E.name e) = true := by
  induction es with
  | nil =>
    intro draft htimes
    have hle : E.times draft [] field ≤ 1 := Bool.toNat_le (s.has draft field)
    omega
  | cons e es ih =>
    intro draft htimes
    have he : E.Valid e := hes e List.mem_cons_self
    by_cases hset : s.has draft (E.name e) = true
    · exact ⟨[], e, es, rfl, .nil, hset⟩
    · rw [Bool.not_eq_true] at hset
      rw [← E.times_put he hset es hfield] at htimes
      obtain ⟨before, e', after, rfl, habsorbs, hset'⟩ :=
        ih (fun e' he' => hes e' (List.mem_cons_of_mem _ he')) htimes
      exact ⟨e :: before, e', after, rfl, .cons (E.takes he hset) habsorbs, hset'⟩

/-! ## What entries give -/

/-- Of the entries that give a value of a kind the last one is decisive. -/
theorem get_foldl {β : Type} {put : σ → ε → σ} {get : σ → Option β} {given : ε → Option β}
    (hput : ∀ draft e, get (put draft e) = (given e).or (get draft)) (es : List ε) :
    ∀ draft, get (es.foldl put draft) = (es.filterMap given).getLast?.or (get draft) := by
  induction es with
  | nil =>
    intro draft
    rfl
  | cons e es ih =>
    intro draft
    rw [List.foldl_cons, ih, hput, List.filterMap_cons]
    cases given e with
    | none => rfl
    | some b => cases hlast : (es.filterMap given).getLast? <;> simp [List.getLast?_cons, hlast]

/-- A field comes as often as values are given for it. -/
theorem count_eq_length {β : Type} {given : ε → Option β}
    (hgiven : ∀ e ∈ es, (given e).isSome = decide (E.name e = field)) :
    (es.map E.name).count field = (es.filterMap given).length := by
  rw [List.count, List.countP_map, List.length_filterMap_eq_countP]
  refine List.countP_congr fun e he => ?_
  simp [hgiven e he]

/-! ## Whole texts -/

variable (hes : ∀ e ∈ es, E.Valid e) (htext : Denotes text (.object (es.map E.member)))

include hes htext

/-- A text that stands for entries is read as what they make, unless a field is missing. -/
theorem exists_readAll_eq (honce : E.AtMostOnce es) :
    ∃ left, readAll s.read text = match s.finish (es.foldl E.put s.start) with
      | .ok a => .ok a
      | .error name => .error ⟨.missingField name, left⟩ := by
  refine readAll_of_absorbs (E.absorbs hes fun field hfield => ?_) htext
  rw [E.times_start]
  exact honce field hfield

theorem readAll_eq_ok_iff (honce : E.AtMostOnce es) {a : α} :
    readAll s.read text = .ok a ↔ s.finish (es.foldl E.put s.start) = .ok a := by
  obtain ⟨left, hread⟩ := E.exists_readAll_eq hes htext honce
  rw [hread]
  cases s.finish (es.foldl E.put s.start) <;> simp

/-- A text in which a field comes twice is refused. -/
theorem readAll_of_twice (htwice : ¬ E.AtMostOnce es) :
    ∃ field ∈ s.fieldNames, ∃ left,
      readAll s.read text = .error ⟨.duplicateField field, left⟩ := by
  rw [AtMostOnce] at htwice
  push Not at htwice
  obtain ⟨field, hfield, htimes⟩ := htwice
  rw [← E.times_start] at htimes
  obtain ⟨before, e, after, rfl, habsorbs, hset⟩ := E.exists_repeated hes hfield htimes
  have hname : E.name e ∈ s.fieldNames := by
    by_contra hnot
    rw [has_of_not_mem hnot] at hset
    cases hset
  obtain ⟨f, hfind, hf⟩ := exists_field_of_has E.nodup hset
  rw [List.map_append, List.map_cons] at htext
  obtain ⟨left, herror⟩ := readAll_of_repeated habsorbs hfind hf htext
  exact ⟨E.name e, hname, left, herror⟩

end Entries

end BlobStore.Json.Schema
