import BlobStore.Json.Schema
import BlobStore.Proofs.Json.Skipping

/-!
# Reading objects

A schema takes the members of an object one after the other and goes from draft to draft
(`Schema.Absorbs`): a member whose name is that of a field is read as the field says, and any
other one is passed over.  So the order of the members, the blanks between them and the spelling
of names and values make no difference.  A text that stands for an object is read as the value of
the last draft, unless a field is missing in it (`Schema.readAll_of_absorbs`) or comes for a second
time (`Schema.readAll_of_repeated`).
-/

namespace BlobStore.Json

variable {σ α : Type} {gap rest cs : List Char}

/-- A field reads a value into a draft, however the value is spelled. -/
def Field.Takes (f : Field σ) (draft : σ) (v : Datum) (draft' : σ) : Prop :=
  ∀ gap cs rest, Gap gap → Spelled (.value v) cs → Apart rest →
    f.read draft (gap ++ cs ++ rest) = .ok (draft', rest)

namespace Schema

/-- A member of an object is read into a draft, with any blanks around its colon. -/
def Takes (s : Schema σ α) (name : String) (draft : σ) (v : Datum) (draft' : σ) : Prop :=
  ∀ before after cs rest, Gap before → Gap after → Spelled (.value v) cs → Apart rest →
    s.readField name draft (before ++ ':' :: (after ++ cs ++ rest)) = .ok (draft', rest)

/-- The members of an object are read one after the other. -/
inductive Absorbs (s : Schema σ α) : σ → List (List Nat × Datum) → σ → Prop
  | nil {draft : σ} : Absorbs s draft [] draft
  | cons {draft draft' draft'' : σ} {name : String} {v : Datum} {ms : List (List Nat × Datum)}
    (hvalue : s.Takes name draft v draft') (hrest : Absorbs s draft' ms draft'') :
    Absorbs s draft ((units name, v) :: ms) draft''

end Schema

/-! ## Values that are expected -/

section values

variable (hgap : Gap gap)

include hgap

theorem readString_of_spelled {s : String} (h : Spelled (.value (.text (units s))) cs)
    (expected : String) (rest : List Char) :
    readString expected (gap ++ cs ++ rest) = .ok (s, rest) := by
  cases h with
  | text h =>
    have hread := readString_append hgap (quoted_units_iff.mp h) rest expected
    simpa using hread

theorem readVariant_of_spelled {s : String} (h : Spelled (.value (.text (units s))) cs)
    {variants : List (String × α)} {a : α} (ha : variants.lookup s = some a) (rest : List Char) :
    readVariant variants (gap ++ cs ++ rest) = .ok (a, rest) := by
  cases h with
  | text h =>
    have hread := readVariant_append hgap (quoted_units_iff.mp h) rest ha
    simpa using hread

theorem readBoolean_of_spelled {b : Bool} (h : Spelled (.value (.boolean b)) cs)
    (expected : String) (rest : List Char) :
    readBoolean expected (gap ++ cs ++ rest) = .ok (b, rest) := by
  cases h with
  | isTrue => exact readBoolean_append hgap true expected rest
  | isFalse => exact readBoolean_append hgap false expected rest

theorem readNatural_of_spelled {n : Nat} (hn : n ≤ maxNatural)
    (h : Spelled (.value (.number (Nat.toDigits 10 n))) cs) (expected : String)
    (hrest : Apart rest) : readNatural expected (gap ++ cs ++ rest) = .ok (n, rest) := by
  cases h with
  | number => exact (numeral_toDigits n).readNatural hn hrest hgap expected

end values

/-! ## Between the members -/

/-- A reader that has stopped lets no other one begin. -/
theorem Reader.bind_of_error {α β : Type} {x : Reader α} {f : α → Reader β} {cs : List Char}
    {e : Misread} (h : x cs = .error e) : (x >>= f) cs = .error e := by
  show (x cs >>= fun p => f p.1 p.2) = .error e
  rw [h]
  rfl

theorem nameAhead_of_lead {isFirst : Bool} {lead : List Char} (hlead : Lead isFirst lead)
    (cs : List Char) : nameAhead isFirst (lead ++ '"' :: cs) = .ok (true, '"' :: cs) := by
  cases isFirst with
  | true =>
    rw [nameAhead, Reader.bind_of_ok (blanks_append hlead rfl cs)]
    rfl
  | false =>
    obtain ⟨before, after, rfl, hbefore, hafter⟩ := hlead
    rw [List.append_assoc, List.cons_append, nameAhead,
      Reader.bind_of_ok (blanks_append hbefore rfl _)]
    refine (Reader.bind_of_ok (x := Reader.advance) rfl).trans ?_
    exact (Reader.bind_of_ok (blanks_append hafter rfl cs)).trans rfl

theorem nameAhead_of_gap (isFirst : Bool) (hgap : Gap gap) (rest : List Char) :
    nameAhead isFirst (gap ++ '\x7d' :: rest) = .ok (false, '\x7d' :: rest) := by
  rw [nameAhead, Reader.bind_of_ok (blanks_append hgap rfl rest)]
  rfl

namespace Schema

variable {s : Schema σ α} {draft draft' : σ} {name : String} {f : Field σ}

/-! ## Members -/

/-- A field that has not been set is read as it says. -/
theorem takes_of_field (hfind : s.fields.find? (·.name = name) = some f)
    (hset : f.isSet draft = false) {v : Datum} (hvalue : f.Takes draft v draft') :
    s.Takes name draft v draft' := by
  intro before after cs rest hbefore hafter hcs hrest
  rw [readField, hfind]
  dsimp only
  rw [hset, if_neg (by decide), Reader.bind_of_ok (colon_append hbefore _)]
  exact hvalue after cs rest hafter hcs hrest

/-- A member of any other name is passed over. -/
theorem takes_of_unknown (hfind : s.fields.find? (·.name = name) = none) (draft : σ) (v : Datum) :
    s.Takes name draft v draft := by
  intro before after cs rest hbefore hafter hcs hrest
  rw [readField, hfind]
  dsimp only
  rw [Reader.bind_of_ok (colon_append hbefore _),
    Reader.bind_of_ok (skipValue_of_spelled hcs hafter hrest)]
  rfl

/-- A field that has been set is not read again. -/
theorem readField_of_isSet (hfind : s.fields.find? (·.name = name) = some f)
    (hset : f.isSet draft = true) (cs : List Char) :
    ∃ left, s.readField name draft cs = .error ⟨.duplicateField name, left⟩ := by
  rw [readField, hfind]
  dsimp only
  rw [if_pos hset, Reader.bind_of_ok (a := (cs.dropWhile isBlank).head?) rfl]
  split_ifs
  · exact ⟨_, rfl⟩
  · exact ⟨_, rfl⟩

/-- The name of a member is read before its value. -/
theorem readFields_name {isFirst : Bool} {lead w : List Char} (hlead : Lead isFirst lead)
    (hname : Quoted w (units name)) (cs : List Char) (steps : Nat) :
    s.readFields (steps + 1) isFirst draft (lead ++ '"' :: (w ++ '"' :: cs)) = (do
      let draft ← s.readField name draft
      s.readFields steps false draft : Reader σ) cs := by
  rw [readFields, Reader.bind_of_ok (nameAhead_of_lead hlead _)]
  exact (Reader.bind_of_ok rfl).trans
    (Reader.bind_of_ok (readText_of_spells (quoted_units_iff.mp hname) cs))

/-- What is left of an object after its first members have been read, each in one step. -/
theorem readFields_append {before after : List (List Nat × Datum)}
    (h : s.Absorbs draft before draft') : ∀ {isFirst : Bool} {cs : List Char},
      Spelled (.members isFirst (before ++ after)) cs →
      ∃ isFirst' cs', Spelled (.members isFirst' after) cs' ∧ ∀ rest steps, cs.length < steps →
        ∃ steps', cs'.length < steps' ∧
          s.readFields steps isFirst draft (cs ++ '\x7d' :: rest) =
            s.readFields steps' isFirst' draft' (cs' ++ '\x7d' :: rest) := by
  -- each member costs one step and is longer than that, so the steps outnumber what is left
  induction h with
  | nil =>
    intro isFirst cs hcs
    exact ⟨isFirst, cs, hcs, fun rest steps hsteps => ⟨steps, hsteps, rfl⟩⟩
  | @cons draft draft₁ draft' name v ms hvalue _ ih =>
    intro isFirst cs hcs
    cases hcs with
    | @member _ lead w before after cs more _ _ _ hlead hname hbefore hafter hcs hmore =>
      obtain ⟨isFirst', cs', hcs', hread⟩ := ih hmore
      refine ⟨isFirst', cs', hcs', fun rest steps hsteps => ?_⟩
      obtain ⟨steps, rfl⟩ := Nat.exists_eq_succ_of_ne_zero (Nat.ne_of_gt (Nat.zero_lt_of_lt hsteps))
      simp only [List.length_append, List.length_cons] at hsteps
      obtain ⟨steps', hsteps', heq⟩ := hread rest steps (by omega)
      refine ⟨steps', hsteps', ?_⟩
      calc
        _ = s.readFields (steps + 1) isFirst draft (lead ++ '"' :: (w ++ '"' ::
            (before ++ ':' :: (after ++ cs ++ (more ++ '\x7d' :: rest))))) := by simp
        _ = s.readFields steps false draft₁ (more ++ '\x7d' :: rest) := by
          rw [readFields_name hlead hname]
          exact Reader.bind_of_ok
            (hvalue before after cs _ hbefore hafter hcs (hmore.apart_members rest))
        _ = _ := heq

/-- Reading the members of an object stops at the closing brace. -/
theorem readFields_of_absorbs {ms : List (List Nat × Datum)} (h : s.Absorbs draft ms draft')
    {isFirst : Bool} (hcs : Spelled (.members isFirst ms) cs) (rest : List Char) (steps : Nat)
    (hsteps : cs.length < steps) :
    s.readFields steps isFirst draft (cs ++ '\x7d' :: rest) = .ok (draft', '\x7d' :: rest) := by
  rw [← List.append_nil ms] at hcs
  obtain ⟨isFirst', cs', hcs', hread⟩ := readFields_append h hcs
  obtain ⟨steps', hsteps', heq⟩ := hread rest steps hsteps
  rw [heq]
  cases hcs' with
  | noMember hgap =>
    obtain ⟨steps', rfl⟩ := Nat.exists_eq_succ_of_ne_zero (Nat.ne_of_gt (Nat.zero_lt_of_lt hsteps'))
    rw [readFields, Reader.bind_of_ok (nameAhead_of_gap isFirst' hgap rest)]
    rfl

/-- Reading the members of an object stops at a field that comes again. -/
theorem readFields_of_repeated {before after : List (List Nat × Datum)} {v : Datum}
    (h : s.Absorbs draft before draft') (hfind : s.fields.find? (·.name = name) = some f)
    (hset : f.isSet draft' = true) {isFirst : Bool}
    (hcs : Spelled (.members isFirst (before ++ (units name, v) :: after)) cs) (rest : List Char)
    (steps : Nat) (hsteps : cs.length < steps) :
    ∃ left, s.readFields steps isFirst draft (cs ++ '\x7d' :: rest) =
      .error ⟨.duplicateField name, left⟩ := by
  obtain ⟨isFirst', cs', hcs', hread⟩ := readFields_append h hcs
  obtain ⟨steps', hsteps', heq⟩ := hread rest steps hsteps
  rw [heq]
  obtain ⟨steps', rfl⟩ := Nat.exists_eq_succ_of_ne_zero (Nat.ne_of_gt (Nat.zero_lt_of_lt hsteps'))
  cases hcs' with
  | @member _ lead w before after cs more _ _ _ hlead hname hbefore hafter hcs hmore =>
    obtain ⟨left, herror⟩ := readField_of_isSet hfind hset
      (before ++ ':' :: (after ++ cs ++ (more ++ '\x7d' :: rest)))
    refine ⟨left, ?_⟩
    calc
      _ = s.readFields (steps' + 1) isFirst' draft' (lead ++ '"' :: (w ++ '"' ::
          (before ++ ':' :: (after ++ cs ++ (more ++ '\x7d' :: rest))))) := by simp
      _ = _ := by
        rw [readFields_name hlead hname]
        exact Reader.bind_of_error herror

/-! ## Objects -/

/-- The opening brace of an object is taken before its members are read. -/
theorem read_object (hgap : Gap gap) (cs : List Char) :
    s.read (gap ++ '\x7b' :: cs) = (do
      let draft ← s.readFields (cs.length + 1) true s.start
      Reader.advance
      match s.finish draft with
      | .ok a => return a
      | .error name => Reader.stop (.missingField name) : Reader α) cs := by
  rw [read, Reader.bind_of_ok (valueStart_append hgap rfl _)]
  rfl

section objects

variable {text : String} {ms before after : List (List Nat × Datum)} {v : Datum}

/-- **An object is read whatever its spelling.**  If a schema takes the members of an object in
their order, then every text that stands for this object is read as the value of the last draft,
unless a field is missing there. -/
theorem readAll_of_absorbs (h : s.Absorbs s.start ms draft) (htext : Denotes text (.object ms)) :
    ∃ left, readAll s.read text = match s.finish draft with
      | .ok a => .ok a
      | .error name => .error ⟨.missingField name, left⟩ := by
  obtain ⟨gap, cs, gap', heq, hgap, hgap', hcs⟩ := htext
  cases hcs with
  | @object cs _ hcs =>
    have hfields := readFields_of_absorbs h hcs gap' ((cs ++ '\x7d' :: gap').length + 1)
      (by rw [List.length_append]; omega)
    have hobject : text.toList = gap ++ '\x7b' :: (cs ++ '\x7d' :: gap') := by
      rw [heq]
      simp
    have hread : s.read text.toList = (match s.finish draft with
        | .ok a => return a
        | .error name => Reader.stop (.missingField name) : Reader α) gap' := by
      rw [hobject, read_object hgap, Reader.bind_of_ok hfields]
      exact Reader.bind_of_ok rfl
    refine ⟨byteCount gap', ?_⟩
    rw [readAll, hread]
    cases s.finish draft with
    | ok a =>
      dsimp only [pure, StateT.pure, bind, Except.bind, Except.pure]
      rw [blanks_of_gap hgap']
    | error name => rfl

/-- **No field is read twice.**  If a schema takes the first members of an object, and the next one
is a field that it has set, then every text that stands for this object is refused. -/
theorem readAll_of_repeated (h : s.Absorbs s.start before draft)
    (hfind : s.fields.find? (·.name = name) = some f) (hset : f.isSet draft = true)
    (htext : Denotes text (.object (before ++ (units name, v) :: after))) :
    ∃ left, readAll s.read text = .error ⟨.duplicateField name, left⟩ := by
  obtain ⟨gap, cs, gap', heq, hgap, hgap', hcs⟩ := htext
  cases hcs with
  | @object cs _ hcs =>
    obtain ⟨left, hfields⟩ := readFields_of_repeated h hfind hset hcs gap'
      ((cs ++ '\x7d' :: gap').length + 1) (by rw [List.length_append]; omega)
    refine ⟨left, ?_⟩
    have hobject : text.toList = gap ++ '\x7b' :: (cs ++ '\x7d' :: gap') := by
      rw [heq]
      simp
    rw [readAll, hobject, read_object hgap, Reader.bind_of_error hfields]
    rfl

end objects

end Schema

end BlobStore.Json
