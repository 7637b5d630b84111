import BlobStore.Proofs.Json.Results

/-!
# Values that are read are values of the grammar

Each reader of a single value takes blanks and one value of the grammar (`Reader.TakesValue`), and
so does passing over a value of any kind (`takesValue_skipValue`).  What the stack of open brackets
still demands of the text is written down as `Closes`; each step of `skipInside` takes a part of it.
-/

namespace BlobStore.Json

variable {α β : Type} {cs gap rest : List Char}

/-! ## Single values -/

/-- A reader takes blanks and one value. -/
def Reader.TakesValue (x : Reader α) : Prop :=
  ∀ cs a rest, x cs = .ok (a, rest) →
    ∃ gap body v, cs = gap ++ body ++ rest ∧ Gap gap ∧ Spelled (.value v) body

/-- What is made of a value does not change what has been taken. -/
theorem Reader.TakesValue.map {x : Reader α} (hx : x.TakesValue) (f : α → β) :
    (x >>= fun a => pure (f a)).TakesValue := by
  intro cs b rest h
  obtain ⟨a, mid, hmid, h⟩ := Reader.bind_eq_ok.mp h
  cases h
  exact hx _ _ _ hmid

theorem exists_quoted_of_readString {expected s : String}
    (h : readString expected cs = .ok (s, rest)) :
    ∃ gap w, cs = gap ++ '"' :: w ++ '"' :: rest ∧ Gap gap ∧ Quoted w (units s) := by
  obtain ⟨c, mid, hstart, h⟩ := Reader.bind_eq_ok.mp h
  obtain ⟨gap, tail, hgap, rfl, rfl⟩ := exists_of_valueStart hstart
  split at h
  · obtain ⟨w, rfl, hw⟩ := exists_quoted_of_readText h
    exact ⟨gap, w, by simp, hgap, hw⟩
  · exact (ensures_unexpected expected (P := fun _ => False) _ _ _ h).elim

theorem takesValue_readString (expected : String) : (readString expected).TakesValue := by
  intro cs s rest h
  obtain ⟨gap, w, rfl, hgap, hw⟩ := exists_quoted_of_readString h
  exact ⟨gap, '"' :: w ++ ['"'], _, by simp, hgap, .text hw⟩

theorem takesValue_readBoolean (expected : String) : (readBoolean expected).TakesValue := by
  intro cs b rest h
  obtain ⟨c, mid, hstart, h⟩ := Reader.bind_eq_ok.mp h
  obtain ⟨gap, tail, hgap, rfl, rfl⟩ := exists_of_valueStart hstart
  split at h
  · rw [Reader.advance_bind] at h
    obtain ⟨⟨⟩, mid, hword, h⟩ := Reader.bind_eq_ok.mp h
    cases h
    rw [eq_append_of_word hword]
    exact ⟨gap, _, _, by simp, hgap, .isTrue⟩
  · rw [Reader.advance_bind] at h
    obtain ⟨⟨⟩, mid, hword, h⟩ := Reader.bind_eq_ok.mp h
    cases h
    rw [eq_append_of_word hword]
    exact ⟨gap, _, _, by simp, hgap, .isFalse⟩
  · exact (ensures_unexpected expected (P := fun _ => False) _ _ _ h).elim

theorem takesValue_readNatural (expected : String) : (readNatural expected).TakesValue := by
  intro cs n rest h
  obtain ⟨-, gap, ds, rfl, hgap, hds⟩ := exists_numeral_of_readNatural h
  have hliteral := Literal.mk (Or.inl rfl) hds .none .none
  simp only [List.nil_append, List.append_nil] at hliteral
  exact ⟨gap, ds, _, rfl, hgap, .number hliteral⟩

theorem exists_of_readNull {expected : String} (h : readNull expected cs = .ok ((), rest)) :
    ∃ gap, cs = gap ++ ['n', 'u', 'l', 'l'] ++ rest ∧ Gap gap := by
  obtain ⟨c, mid, hstart, h⟩ := Reader.bind_eq_ok.mp h
  obtain ⟨gap, tail, hgap, rfl, rfl⟩ := exists_of_valueStart hstart
  split at h
  · rw [Reader.advance_bind] at h
    rw [eq_append_of_word h]
    exact ⟨gap, by simp, hgap⟩
  · exact (ensures_unexpected expected (P := fun _ => False) _ _ _ h).elim

theorem exists_quoted_of_readName {variants : List (String × α)} {a : α}
    (h : readName variants cs = .ok (a, rest)) :
    ∃ gap w us, cs = gap ++ '"' :: w ++ '"' :: rest ∧ Gap gap ∧ Quoted w us := by
  obtain ⟨s, mid, hstring, h⟩ := Reader.bind_eq_ok.mp h
  cases hvariant : variants.lookup s with
  | none =>
    rw [hvariant] at h
    cases h
  | some a' =>
    rw [hvariant] at h
    cases h
    obtain ⟨gap, w, hcs, hgap, hw⟩ := exists_quoted_of_readString hstring
    exact ⟨gap, w, _, hcs, hgap, hw⟩

/-- One of some names is taken by itself, or as the only member of an object. -/
theorem takesValue_readVariant (variants : List (String × α)) :
    (readVariant variants).TakesValue := by
  intro cs a rest h
  obtain ⟨o, mid, hblanks, h⟩ := Reader.bind_eq_ok.mp h
  split at h
  · obtain ⟨gap, tail, hgap, rfl, rfl⟩ := exists_of_blanks_some hblanks
    obtain ⟨gap', w, us, hcs, hgap', hw⟩ := exists_quoted_of_readName h
    exact ⟨gap ++ gap', '"' :: w ++ ['"'], _, by simp [hcs], hgap.append hgap', .text hw⟩
  · obtain ⟨gap, tail, hgap, rfl, rfl⟩ := exists_of_blanks_some hblanks
    rw [Reader.advance_bind] at h
    obtain ⟨a', left, hname, h⟩ := Reader.bind_eq_ok.mp h
    obtain ⟨⟨⟩, left', hcolon, h⟩ := Reader.bind_eq_ok.mp h
    obtain ⟨⟨⟩, left'', hnull, h⟩ := Reader.bind_eq_ok.mp h
    obtain ⟨o, last, hclose, h⟩ := Reader.bind_eq_ok.mp h
    split at h
    · cases h
      obtain ⟨lead, w, us, rfl, hlead, hw⟩ := exists_quoted_of_readName hname
      obtain ⟨before, hbefore, rfl⟩ := exists_of_colon hcolon
      obtain ⟨after, rfl, hafter⟩ := exists_of_readNull hnull
      obtain ⟨more, tail, hmore, rfl, rfl⟩ := exists_of_blanks_some hclose
      have hfirst : Lead true lead := hlead
      exact ⟨gap, _, _, by simp, hgap,
        .object (.member hfirst hw hbefore hafter .null (.noMember hmore))⟩
    · cases h
    · cases h
  · cases h
  · cases h

/-! ## Values that are passed over -/

/-- The character that opens a bracket. -/
def Bracket.opening : Bracket → Char
  | .list => '['
  | .object => '\x7b'

/-- What can stand inside a bracket, from a place where the next entry may begin. -/
def Bracket.Holds (b : Bracket) (isFirst : Bool) (cs : List Char) : Prop :=
  match b with
  | .list => ∃ vs, Spelled (.elements isFirst vs) cs
  | .object => ∃ ms, Spelled (.members isFirst ms) cs

/-- What stands between the lead of an entry and its value. -/
def Bracket.Named (b : Bracket) (cs : List Char) : Prop :=
  match b with
  | .list => cs = []
  | .object => ∃ gap w us before, cs = gap ++ '"' :: w ++ '"' :: before ++ [':'] ∧ Gap gap ∧
      Quoted w us ∧ Gap before

/-- After an entry, what closes the open brackets, with what stands in them up to there. -/
def Closes : List Bracket → List Char → Prop
  | [], cs => cs = []
  | b :: outer, cs => ∃ inner more, cs = inner ++ b.closing :: more ∧ b.Holds false inner ∧
      Closes outer more

/-- What has to come inside the open brackets. -/
def Expecting.Demands : Expecting → List Bracket → List Char → Prop
  | .value, outer, cs => ∃ gap body v more, cs = gap ++ body ++ more ∧ Gap gap ∧
      Spelled (.value v) body ∧ Closes outer more
  | .first, b :: outer, cs => ∃ inner more, cs = inner ++ b.closing :: more ∧ b.Holds true inner ∧
      Closes outer more
  | .first, [], cs => cs = []
  | .next, outer, cs => Closes outer cs

namespace Bracket

variable {b : Bracket} {isFirst : Bool}

theorem holds_gap (b : Bracket) (isFirst : Bool) (hgap : Gap gap) : b.Holds isFirst gap := by
  cases b with
  | list => exact ⟨[], .noElement hgap⟩
  | object => exact ⟨[], .noMember hgap⟩

/-- Between its brackets, what a bracket holds is a value. -/
theorem Holds.exists_spelled (h : b.Holds true cs) :
    ∃ v, Spelled (.value v) (b.opening :: cs ++ [b.closing]) := by
  cases b with
  | list =>
    obtain ⟨vs, h⟩ := h
    exact ⟨_, .list h⟩
  | object =>
    obtain ⟨ms, h⟩ := h
    exact ⟨_, .object h⟩

/-- An entry stands in front of the others. -/
theorem Holds.cons {lead name body more : List Char} {v : Datum} (h : b.Holds false more)
    (hlead : Lead isFirst lead) (hname : b.Named name) (hgap : Gap gap)
    (hvalue : Spelled (.value v) body) :
    b.Holds isFirst (lead ++ name ++ gap ++ body ++ more) := by
  cases b with
  | list =>
    obtain ⟨vs, h⟩ := h
    obtain rfl : name = [] := hname
    rw [List.append_nil]
    exact ⟨_, .element (hlead.append hgap) hvalue h⟩
  | object =>
    obtain ⟨ms, h⟩ := h
    obtain ⟨front, w, us, before, rfl, hfront, hw, hbefore⟩ := hname
    have hspelled := Spelled.member (hlead.append hfront) hw hbefore hgap hvalue h
    exact ⟨_, by simpa using hspelled⟩

theorem exists_named_of_skipName (h : b.skipName cs = .ok ((), rest)) :
    ∃ name, cs = name ++ rest ∧ b.Named name := by
  cases b with
  | list =>
    cases h
    exact ⟨[], rfl, rfl⟩
  | object =>
    obtain ⟨o, mid, hblanks, h⟩ := Reader.bind_eq_ok.mp h
    split at h
    · obtain ⟨gap, tail, hgap, rfl, rfl⟩ := exists_of_blanks_some hblanks
      rw [Reader.advance_bind] at h
      obtain ⟨⟨⟩, left, htext, hcolon⟩ := Reader.bind_eq_ok.mp h
      obtain ⟨w, us, rfl, hw⟩ := exists_quoted_of_skipText htext
      obtain ⟨before, hbefore, rfl⟩ := exists_of_colon hcolon
      exact ⟨gap ++ '"' :: w ++ '"' :: before ++ [':'], by simp, gap, w, us, before, rfl, hgap, hw,
        hbefore⟩
    · cases h
    · cases h

end Bracket

/-- A value of one token is spelled, and an opening bracket stands for itself. -/
theorem exists_of_skipToken {o : Option Bracket} (h : skipToken cs = .ok (o, rest)) :
    ∃ gap body, cs = gap ++ body ++ rest ∧ Gap gap ∧ match o with
      | none => ∃ v, Spelled (.value v) body
      | some b => body = [b.opening] := by
  obtain ⟨c, mid, hstart, h⟩ := Reader.bind_eq_ok.mp h
  obtain ⟨gap, tail, hgap, rfl, rfl⟩ := exists_of_valueStart hstart
  have hword {w tail : List Char} (h : (word w >>= fun _ => pure none) tail = .ok (o, rest)) :
      o = none ∧ tail = w ++ rest := by
    obtain ⟨⟨⟩, mid, hword, h⟩ := Reader.bind_eq_ok.mp h
    cases h
    exact ⟨rfl, eq_append_of_word hword⟩
  split at h
  · obtain ⟨rfl, rfl⟩ := hword h
    exact ⟨gap, ['n', 'u', 'l', 'l'], by simp, hgap, _, .null⟩
  · obtain ⟨rfl, rfl⟩ := hword h
    exact ⟨gap, ['t', 'r', 'u', 'e'], by simp, hgap, _, .isTrue⟩
  · obtain ⟨rfl, rfl⟩ := hword h
    exact ⟨gap, ['f', 'a', 'l', 's', 'e'], by simp, hgap, _, .isFalse⟩
  · rw [Reader.advance_bind] at h
    obtain ⟨⟨⟩, mid, hnumber, h⟩ := Reader.bind_eq_ok.mp h
    cases h
    obtain ⟨ds, rfl, hds⟩ := exists_literal_of_skipNumber hnumber
    exact ⟨gap, '-' :: ds, by simp, hgap, _, .number (hds ['-'] (Or.inr rfl))⟩
  · rw [Reader.advance_bind] at h
    obtain ⟨⟨⟩, mid, htext, h⟩ := Reader.bind_eq_ok.mp h
    cases h
    obtain ⟨w, us, rfl, hw⟩ := exists_quoted_of_skipText htext
    exact ⟨gap, '"' :: w ++ ['"'], by simp, hgap, _, .text hw⟩
  · rw [Reader.advance_bind] at h
    cases h
    exact ⟨gap, ['['], by simp, hgap, rfl⟩
  · rw [Reader.advance_bind] at h
    cases h
    exact ⟨gap, ['\x7b'], by simp, hgap, rfl⟩
  · split_ifs at h
    · obtain ⟨⟨⟩, mid, hnumber, h⟩ := Reader.bind_eq_ok.mp h
      cases h
      obtain ⟨ds, hcs, hds⟩ := exists_literal_of_skipNumber hnumber
      exact ⟨gap, ds, by rw [hcs, List.append_assoc], hgap, _, .number (hds [] (Or.inl rfl))⟩
    · cases h

/-- An entry whose lead and name have been taken is followed by what its value demands. -/
theorem closes_of_demands {b : Bracket} {isFirst : Bool} {outer : List Bracket}
    {lead name taken : List Char} (hlead : Lead isFirst lead) (hname : b.Named name)
    (h : Expecting.value.Demands (b :: outer) taken) :
    ∃ inner more, lead ++ name ++ taken = inner ++ b.closing :: more ∧ b.Holds isFirst inner ∧
      Closes outer more := by
  obtain ⟨gap, body, v, more, rfl, hgap, hvalue, inner, more', rfl, hholds, hcloses⟩ := h
  exact ⟨lead ++ name ++ gap ++ body ++ inner, more', by simp, hholds.cons hlead hname hgap hvalue,
    hcloses⟩

/-- What is passed over inside the open brackets is what has to come there. -/
theorem exists_demands_of_skipInside (steps : Nat) :
    ∀ {e : Expecting} {outer : List Bracket} {cs : List Char},
      skipInside steps e outer cs = .ok ((), rest) →
        ∃ taken, cs = taken ++ rest ∧ e.Demands outer taken := by
  -- each step meets the first part of a demand; the rest of it is the demand of what comes next
  induction steps with
  | zero =>
    intro e outer cs h
    cases h
  | succ steps ih =>
    intro e outer cs h
    cases e with
    | value =>
      rw [skipInside] at h
      obtain ⟨o, mid, htoken, hinside⟩ := Reader.bind_eq_ok.mp h
      obtain ⟨gap, body, rfl, hgap, hbody⟩ := exists_of_skipToken htoken
      cases o with
      | none =>
        obtain ⟨v, hv⟩ := hbody
        obtain ⟨more, rfl, hcloses⟩ := ih hinside
        exact ⟨gap ++ body ++ more, by simp, gap, body, v, more, rfl, hgap, hv, hcloses⟩
      | some b =>
        obtain rfl : body = [b.opening] := hbody
        -- what is demanded inside the new bracket makes it a value together with its ends
        obtain ⟨taken, rfl, inner, more, rfl, hholds, hcloses⟩ := ih hinside
        obtain ⟨v, hv⟩ := hholds.exists_spelled
        exact ⟨gap ++ (b.opening :: inner ++ [b.closing]) ++ more, by simp, gap, _, v, more, rfl,
          hgap, hv, hcloses⟩
    | first =>
      cases outer with
      | nil =>
        cases h
        exact ⟨[], rfl, rfl⟩
      | cons b outer =>
        rw [skipInside] at h
        obtain ⟨o, mid, hblanks, h⟩ := Reader.bind_eq_ok.mp h
        cases o with
        | none => cases h
        | some c =>
          obtain ⟨gap, tail, hgap, rfl, rfl⟩ := exists_of_blanks_some hblanks
          dsimp only at h
          split_ifs at h with hc
          · rw [Reader.advance_bind] at h
            obtain ⟨more, rfl, hcloses⟩ := ih h
            exact ⟨gap ++ c :: more, by simp, gap, more, by rw [hc], b.holds_gap true hgap, hcloses⟩
          · obtain ⟨⟨⟩, left, hskip, hinside⟩ := Reader.bind_eq_ok.mp h
            obtain ⟨name, hcs, hname⟩ := Bracket.exists_named_of_skipName hskip
            obtain ⟨taken, rfl, hdemands⟩ := ih hinside
            have hlead : Lead true gap := hgap
            exact ⟨gap ++ name ++ taken, by rw [hcs]; simp,
              closes_of_demands hlead hname hdemands⟩
    | next =>
      cases outer with
      | nil =>
        cases h
        exact ⟨[], rfl, rfl⟩
      | cons b outer =>
        rw [skipInside] at h
        obtain ⟨o, mid, hblanks, h⟩ := Reader.bind_eq_ok.mp h
        cases o with
        | none => cases h
        | some c =>
          obtain ⟨gap, tail, hgap, rfl, rfl⟩ := exists_of_blanks_some hblanks
          dsimp only at h
          split_ifs at h with hcomma hc
          · rw [Reader.advance_bind] at h
            obtain ⟨⟨⟩, left, hskip, hinside⟩ := Reader.bind_eq_ok.mp h
            obtain ⟨name, rfl, hname⟩ := Bracket.exists_named_of_skipName hskip
            obtain ⟨taken, rfl, hdemands⟩ := ih hinside
            have hlead : Lead false (gap ++ [c]) := ⟨gap, [], by rw [hcomma], hgap, gap_nil⟩
            exact ⟨gap ++ [c] ++ name ++ taken, by simp,
              closes_of_demands hlead hname hdemands⟩
          · rw [Reader.advance_bind] at h
            obtain ⟨more, rfl, hcloses⟩ := ih h
            exact ⟨gap ++ c :: more, by simp, gap, more, by rw [hc], b.holds_gap false hgap, hcloses⟩
          · cases h

/-- What is passed over is a value. -/
theorem takesValue_skipValue : skipValue.TakesValue := by
  intro cs _ rest h
  obtain ⟨taken, rfl, gap, body, v, more, rfl, hgap, hv, rfl⟩ := exists_demands_of_skipInside _ h
  exact ⟨gap, body, v, by simp, hgap, hv⟩

end BlobStore.Json
