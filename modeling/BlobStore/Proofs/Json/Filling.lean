import BlobStore.Json.Schema
import BlobStore.Proofs.Json.Soundness

/-!
# What a record is read from

A record that has been read comes from a text that stands for a value, and only those of its fields
have been filled that the value gives, be it as members of an object or by their places in a list
(`Schema.exists_denotes_of_readAll`).  A property of the first draft that these fields keep is a
property of the last one (`Schema.Fills`).
-/

namespace BlobStore.Json

variable {α σ : Type} {cs gap rest : List Char}

/-! ## Drafts that are filled -/

/-- The names that a value gives to a record with some fields: those of its members, or of a list
the names of the fields in whose places its elements stand. -/
def Datum.given (fields : List String) : Datum → List (List Nat)
  | .object ms => ms.map Prod.fst
  | .list vs => (fields.take vs.length).map units
  | _ => []

namespace Schema

variable {s : Schema σ α} {draft draft' draft'' : σ} {names names' : List (List Nat)}

/-- A draft is filled where some names are given: all is kept that the fields of these names
keep. -/
def Fills (s : Schema σ α) (names : List (List Nat)) (draft draft' : σ) : Prop :=
  ∀ K : σ → Prop,
    (∀ f ∈ s.fields, units f.name ∈ names → ∀ draft, K draft → (f.read draft).Ensures K) →
      K draft → K draft'

namespace Fills

theorem refl (s : Schema σ α) (names : List (List Nat)) (draft : σ) : s.Fills names draft draft :=
  fun _ _ h => h

theorem append (h : s.Fills names draft draft') (h' : s.Fills names' draft' draft'') :
    s.Fills (names ++ names') draft draft'' := by
  intro K hK hdraft
  have hfirst : K draft' := h K (fun f hf hname => hK f hf (List.mem_append_left _ hname)) hdraft
  exact h' K (fun f hf hname => hK f hf (List.mem_append_right _ hname)) hfirst

theorem field {f : Field σ} (hf : f ∈ s.fields)
    (h : f.read draft cs = .ok (draft', rest)) : s.Fills [units f.name] draft draft' :=
  fun _ hK hdraft => hK f hf (List.mem_singleton_self _) draft hdraft _ _ _ h

end Fills

/-- Each field takes one value. -/
def TakesValues (s : Schema σ α) : Prop := ∀ f ∈ s.fields, ∀ draft, (f.read draft).TakesValue

/-! ## Objects -/

theorem exists_of_nameAhead {isFirst more : Bool} (h : nameAhead isFirst cs = .ok (more, rest)) :
    if more then ∃ lead tail, cs = lead ++ '"' :: tail ∧ rest = '"' :: tail ∧ Lead isFirst lead
    else ∃ gap tail, cs = gap ++ '\x7d' :: tail ∧ rest = '\x7d' :: tail ∧ Gap gap := by
  obtain ⟨o, mid, hblanks, h⟩ := Reader.bind_eq_ok.mp h
  split at h
  · cases h
  · obtain ⟨gap, tail, hgap, rfl, rfl⟩ := exists_of_blanks_some hblanks
    cases h
    exact ⟨gap, tail, rfl, rfl, hgap⟩
  · obtain ⟨gap, tail, hgap, rfl, rfl⟩ := exists_of_blanks_some hblanks
    split_ifs at h with hfirst hquote hcomma
    · cases h
      rw [hquote, hfirst]
      exact ⟨gap, tail, rfl, rfl, hgap⟩
    · cases h
    · rw [Reader.advance_bind] at h
      obtain ⟨o', mid', hblanks', h⟩ := Reader.bind_eq_ok.mp h
      split at h
      · obtain ⟨gap', tail', hgap', rfl, rfl⟩ := exists_of_blanks_some hblanks'
        cases h
        rw [Bool.not_eq_true] at hfirst
        rw [hcomma, hfirst]
        exact ⟨gap ++ ',' :: gap', tail', by simp, rfl, gap, gap', rfl, hgap, hgap'⟩
      · cases h
      · cases h
      · cases h
    · cases h

variable (hs : s.TakesValues)

include hs

/-- After the name of a member, its value is taken. -/
theorem exists_of_readField {name : String} (h : s.readField name draft cs = .ok (draft', rest)) :
    (∃ before after body v, cs = before ++ ':' :: after ++ body ++ rest ∧ Gap before ∧ Gap after ∧
      Spelled (.value v) body) ∧ s.Fills [units name] draft draft' := by
  rw [readField] at h
  cases hfind : s.fields.find? (·.name = name) with
  | some f =>
    have hf : f ∈ s.fields := List.mem_of_find?_eq_some hfind
    have hname : f.name = name := by simpa using List.find?_some hfind
    rw [hfind] at h
    dsimp only at h
    split_ifs at h
    · obtain ⟨o, mid, -, h⟩ := Reader.bind_eq_ok.mp h
      split_ifs at h
      · obtain ⟨⟨⟩, mid', -, h⟩ := Reader.bind_eq_ok.mp h
        cases h
      · cases h
    · obtain ⟨⟨⟩, mid, hcolon, hread⟩ := Reader.bind_eq_ok.mp h
      obtain ⟨before, hbefore, rfl⟩ := exists_of_colon hcolon
      obtain ⟨after, body, v, rfl, hafter, hv⟩ := hs f hf draft _ _ _ hread
      exact ⟨⟨before, after, body, v, by simp, hbefore, hafter, hv⟩, hname ▸ Fills.field hf hread⟩
  | none =>
    -- a member of another name is passed over, and the draft is left alone
    rw [hfind] at h
    obtain ⟨⟨⟩, mid, hcolon, h⟩ := Reader.bind_eq_ok.mp h
    obtain ⟨⟨⟩, left, hskip, h⟩ := Reader.bind_eq_ok.mp h
    cases h
    obtain ⟨before, hbefore, rfl⟩ := exists_of_colon hcolon
    obtain ⟨after, body, v, rfl, hafter, hv⟩ := takesValue_skipValue _ _ _ hskip
    exact ⟨⟨before, after, body, v, by simp, hbefore, hafter, hv⟩, Fills.refl s _ _⟩

theorem exists_members_of_readFields (steps : Nat) :
    ∀ {isFirst : Bool} {draft : σ} {cs : List Char},
      s.readFields steps isFirst draft cs = .ok (draft', rest) →
        ∃ ms body tail, cs = body ++ '\x7d' :: tail ∧ rest = '\x7d' :: tail ∧
          Spelled (.members isFirst ms) body ∧ s.Fills (ms.map Prod.fst) draft draft' := by
  induction steps with
  | zero =>
    intro isFirst draft cs h
    cases h
  | succ steps ih =>
    intro isFirst draft cs h
    rw [readFields] at h
    obtain ⟨more, mid, hahead, hnext⟩ := Reader.bind_eq_ok.mp h
    have hlead := exists_of_nameAhead hahead
    cases more with
    | false =>
      obtain ⟨gap, tail, rfl, rfl, hgap⟩ := hlead
      cases hnext
      exact ⟨[], gap, tail, rfl, rfl, .noMember hgap, Fills.refl s _ _⟩
    | true =>
      obtain ⟨lead, tail, rfl, rfl, hlead⟩ := hlead
      rw [if_pos rfl, Reader.advance_bind] at hnext
      obtain ⟨name, mid, htext, hnext⟩ := Reader.bind_eq_ok.mp hnext
      obtain ⟨draft₁, left, hfield, hmore⟩ := Reader.bind_eq_ok.mp hnext
      obtain ⟨w, rfl, hw⟩ := exists_quoted_of_readText htext
      obtain ⟨⟨before, after, body, v, rfl, hbefore, hafter, hv⟩, hfills⟩ :=
        exists_of_readField hs hfield
      obtain ⟨ms, inner, last, rfl, rfl, hms, hfills'⟩ := ih hmore
      exact ⟨(units name, v) :: ms, _, last, by simp, rfl,
        .member hlead hw hbefore hafter hv hms, hfills.append hfills'⟩

/-! ## Lists -/

omit hs in
theorem exists_of_elementAhead {isFirst more : Bool}
    (h : elementAhead isFirst cs = .ok (more, rest)) :
    if more then ∃ lead, cs = lead ++ rest ∧ Lead isFirst lead
    else ∃ gap, cs = gap ++ rest ∧ Gap gap := by
  obtain ⟨o, mid, hblanks, hnext⟩ := Reader.bind_eq_ok.mp h
  split at hnext
  · cases hnext
  · obtain ⟨gap, hgap, rfl, -⟩ := exists_of_blanks hblanks
    cases hnext
    exact ⟨gap, rfl, hgap⟩
  · obtain ⟨gap, tail, hgap, rfl, rfl⟩ := exists_of_blanks_some hblanks
    split_ifs at hnext with hfirst hcomma
    · cases hnext
      rw [hfirst]
      exact ⟨gap, rfl, hgap⟩
    · rw [Reader.advance_bind] at hnext
      obtain ⟨o', mid', hblanks', hlast⟩ := Reader.bind_eq_ok.mp hnext
      split at hlast
      · cases hlast
      · obtain ⟨gap', hgap', rfl, -⟩ := exists_of_blanks hblanks'
        cases hlast
        rw [Bool.not_eq_true] at hfirst
        rw [hcomma, hfirst]
        exact ⟨gap ++ ',' :: gap', by simp, gap, gap', rfl, hgap, hgap'⟩
      · cases hlast
    · cases hnext

theorem exists_elements_of_readElements {fields : List (Field σ)}
    (hfields : ∀ f ∈ fields, f ∈ s.fields) :
    ∀ {given : Nat} {draft : σ} {cs : List Char},
      s.readElements fields given draft cs = .ok (draft', rest) →
        ∃ vs body, cs = body ++ rest ∧ Spelled (.elements (given = 0) vs) body ∧
          s.Fills ((fields.take vs.length).map fun f => units f.name) draft draft' := by
  induction fields with
  | nil =>
    intro given draft cs h
    cases h
    exact ⟨[], [], rfl, .noElement gap_nil, Fills.refl s _ _⟩
  | cons f fields ih =>
    intro given draft cs h
    rw [readElements] at h
    obtain ⟨more, mid, hahead, hnext⟩ := Reader.bind_eq_ok.mp h
    have hlead := exists_of_elementAhead hahead
    cases more with
    | false =>
      obtain ⟨gap, rfl, hgap⟩ := hlead
      rw [if_neg Bool.false_ne_true] at hnext
      cases hwhole : s.wholeList with
      | none =>
        rw [hwhole] at hnext
        cases hnext
        exact ⟨[], gap, rfl, .noElement hgap, Fills.refl s _ _⟩
      | some expected =>
        -- a list that has to be whole is refused
        rw [hwhole] at hnext
        obtain ⟨⟨⟩, mid', -, hstop⟩ := Reader.bind_eq_ok.mp hnext
        cases hstop
    | true =>
      obtain ⟨lead, rfl, hlead⟩ := hlead
      rw [if_pos rfl] at hnext
      obtain ⟨draft₁, left, hread, hmore⟩ := Reader.bind_eq_ok.mp hnext
      have hf : f ∈ s.fields := hfields f List.mem_cons_self
      obtain ⟨gap, body, v, rfl, hgap, hv⟩ := hs f hf draft _ _ _ hread
      obtain ⟨vs, inner, rfl, hvs, hfills⟩ :=
        ih (fun f' hf' => hfields f' (List.mem_cons_of_mem _ hf')) hmore
      rw [decide_eq_false (Nat.succ_ne_zero given)] at hvs
      exact ⟨v :: vs, _, by simp, .element (hlead.append hgap) hv hvs,
        (Fills.field hf hread).append hfills⟩

omit hs in
theorem exists_of_listEnd (h : listEnd cs = .ok ((), rest)) :
    ∃ gap, cs = gap ++ ']' :: rest ∧ Gap gap := by
  obtain ⟨o, mid, hblanks, h⟩ := Reader.bind_eq_ok.mp h
  split at h
  · obtain ⟨gap, tail, hgap, rfl, rfl⟩ := exists_of_blanks_some hblanks
    cases h
    exact ⟨gap, rfl, hgap⟩
  · obtain ⟨⟨⟩, mid', -, h⟩ := Reader.bind_eq_ok.mp h
    obtain ⟨o', mid'', -, h⟩ := Reader.bind_eq_ok.mp h
    split at h <;> cases h
  · cases h
  · cases h

omit hs in
/-- Blanks may follow the last element. -/
theorem spelled_elements_append {vs : List Datum} (hgap : Gap gap) :
    ∀ {isFirst : Bool} {cs : List Char}, Spelled (.elements isFirst vs) cs →
      Spelled (.elements isFirst vs) (cs ++ gap) := by
  induction vs with
  | nil =>
    intro isFirst cs h
    cases h with
    | noElement hgap' => exact .noElement (hgap'.append hgap)
  | cons v vs ih =>
    intro isFirst cs h
    cases h with
    | element hlead hv hvs =>
      rw [List.append_assoc]
      exact .element hlead hv (ih hvs)

/-! ## Whole texts -/

/-- How the reading of a record ends: with the value of the draft, unless a field is missing. -/
def conclude (s : Schema σ α) (draft : σ) : Reader α :=
  match s.finish draft with
  | .ok a => pure a
  | .error name => Reader.stop (.missingField name)

omit hs in
theorem exists_of_conclude {draft : σ} {a : α} {cs rest : List Char}
    (h : s.conclude draft cs = .ok (a, rest)) : s.finish draft = .ok a ∧ cs = rest := by
  rw [conclude] at h
  cases hdraft : s.finish draft with
  | ok a' =>
    rw [hdraft] at h
    cases h
    exact ⟨rfl, rfl⟩
  | error name =>
    rw [hdraft] at h
    cases h

/-- What is read is made from a draft that has been filled where the value gives a field. -/
theorem exists_spelled_of_read {a : α} (h : s.read cs = .ok (a, rest)) :
    ∃ gap body v draft, cs = gap ++ body ++ rest ∧ Gap gap ∧ Spelled (.value v) body ∧
      s.Fills (v.given (s.fields.map Field.name)) s.start draft ∧ s.finish draft = .ok a := by
  obtain ⟨c, mid, hstart, h⟩ := Reader.bind_eq_ok.mp h
  obtain ⟨gap, tail, hgap, rfl, rfl⟩ := exists_of_valueStart hstart
  split at h
  · rw [Reader.advance_bind] at h
    obtain ⟨draft, left, helements, h⟩ := Reader.bind_eq_ok.mp h
    obtain ⟨⟨⟩, left', hend, h⟩ := Reader.bind_eq_ok.mp h
    obtain ⟨hdraft, rfl⟩ := exists_of_conclude h
    obtain ⟨vs, body, rfl, hvs, hfills⟩ :=
      exists_elements_of_readElements hs (fun _ hf => hf) helements
    obtain ⟨gap', rfl, hgap'⟩ := exists_of_listEnd hend
    refine ⟨gap, _, _, draft, ?_, hgap, .list (spelled_elements_append hgap' hvs), ?_, hdraft⟩
    · simp
    · rw [Datum.given, ← List.map_take, List.map_map]
      exact hfills
  · rw [Reader.advance_bind] at h
    obtain ⟨left, mid, hget, h⟩ := Reader.bind_eq_ok.mp h
    obtain ⟨draft, left', hfields, h⟩ := Reader.bind_eq_ok.mp h
    obtain ⟨-, rfl⟩ := Prod.mk.inj (Except.ok.inj hget)
    obtain ⟨ms, body, last, rfl, rfl, hms, hfills⟩ := exists_members_of_readFields hs _ hfields
    rw [Reader.advance_bind] at h
    obtain ⟨hdraft, rfl⟩ := exists_of_conclude h
    exact ⟨gap, _, _, draft, by simp, hgap, .object hms, hfills, hdraft⟩
  · exact (ensures_unexpected s.expected (P := fun _ => False) _ _ _ h).elim

/-- **What is read is JSON.**  A text from which a record is read stands for a value, and the record
is made from a draft that has been filled where the value gives a field. -/
theorem exists_denotes_of_readAll {text : String} {a : α} (h : readAll s.read text = .ok a) :
    ∃ v draft, Denotes text v ∧ s.Fills (v.given (s.fields.map Field.name)) s.start draft ∧
      s.finish draft = .ok a := by
  rw [readAll] at h
  rcases hread : s.read text.toList with e | ⟨a', left⟩
  · rw [hread] at h
    cases h
  · obtain ⟨gap, body, v, draft, htext, hgap, hv, hfills, hdraft⟩ := exists_spelled_of_read hs hread
    rw [hread] at h
    rcases hblanks : blanks left with e | ⟨o, last⟩
    · cases hblanks
    · obtain ⟨gap', hgap', rfl, hhead⟩ := exists_of_blanks hblanks
      dsimp only [bind, Except.bind] at h
      rw [hblanks] at h
      cases o with
      | some c => cases h
      | none =>
        cases h
        rw [List.head?_eq_none_iff.mp hhead, List.append_nil] at htext
        exact ⟨v, draft, ⟨gap, body, gap', htext, hgap, hgap', hv⟩, hfills, hdraft⟩

end Schema

end BlobStore.Json
