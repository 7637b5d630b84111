import BlobStore.Proofs.Json.Skipping

/-!
# A text stands for one value

The grammar is unambiguous (`Denotes.unique`): what a text stands for is determined by the text.
The first character of a value tells its kind (`Spelled.begins`).  Inside a list or an object the
values are told apart because each of them ends in one place only (`Spelled.append_inj`).
-/

namespace BlobStore.Json

variable {w w' cs cs' gap gap' rest rest' : List Char}

/-! ## Strings -/

/-- What spells a code unit does not begin like the end of a string. -/
theorem SpellsUnit.ne_quote {us : List Nat} (h : SpellsUnit w us) (rest rest' : List Char) :
    w ++ rest ≠ '"' :: rest' := by
  intro heq
  cases h with
  | raw hquote => exact hquote (List.cons_eq_cons.mp heq).1
  | short => exact absurd (List.cons_eq_cons.mp heq).1 (by decide)
  | code => exact absurd (List.cons_eq_cons.mp heq).1 (by decide)

theorem SpellsUnit.append_inj {us us' : List Nat} (h : SpellsUnit w us) (h' : SpellsUnit w' us')
    (heq : w ++ rest = w' ++ rest') : w = w' ∧ us = us' := by
  cases h with
  | raw hquote hbackslash hcode =>
    cases h' with
    | raw =>
      obtain ⟨rfl, -⟩ := List.cons_eq_cons.mp heq
      exact ⟨rfl, rfl⟩
    | short => exact absurd (List.cons_eq_cons.mp heq).1 hbackslash
    | code => exact absurd (List.cons_eq_cons.mp heq).1 hbackslash
  | short h =>
    cases h' with
    | raw _ hbackslash => exact absurd (List.cons_eq_cons.mp heq).1.symm hbackslash
    | short h' =>
      obtain ⟨-, heq⟩ := List.cons_eq_cons.mp heq
      obtain ⟨rfl, -⟩ := List.cons_eq_cons.mp heq
      rw [h] at h'
      rw [Option.some.inj h']
      exact ⟨rfl, rfl⟩
    | code h' =>
      obtain ⟨-, heq⟩ := List.cons_eq_cons.mp heq
      obtain ⟨rfl, -⟩ := List.cons_eq_cons.mp heq
      cases h
  | code h =>
    cases h' with
    | raw _ hbackslash => exact absurd (List.cons_eq_cons.mp heq).1.symm hbackslash
    | short h' =>
      obtain ⟨-, heq⟩ := List.cons_eq_cons.mp heq
      obtain ⟨rfl, -⟩ := List.cons_eq_cons.mp heq
      cases h'
    | code h' =>
      simp only [List.cons_append, List.nil_append, List.cons_eq_cons] at heq
      obtain ⟨-, -, rfl, rfl, rfl, rfl, -⟩ := heq
      rw [h] at h'
      rw [Option.some.inj h']
      exact ⟨rfl, rfl⟩

theorem Quoted.append_inj {us : List Nat} (h : Quoted w us) : ∀ {w' : List Char} {us' : List Nat},
    Quoted w' us' → w ++ '"' :: rest = w' ++ '"' :: rest' → w = w' ∧ us = us' := by
  induction h with
  | nil =>
    intro w' us' h' heq
    cases h' with
    | nil => exact ⟨rfl, rfl⟩
    | cons hunit' =>
      rw [List.append_assoc] at heq
      exact absurd heq.symm (hunit'.ne_quote _ _)
  | @cons w ws u us hunit _ ih =>
    intro w' us' h' heq
    cases h' with
    | nil =>
      rw [List.append_assoc] at heq
      exact absurd heq (hunit.ne_quote _ _)
    | @cons w' ws' u' us' hunit' hrest' =>
      rw [List.append_assoc, List.append_assoc] at heq
      obtain ⟨rfl, rfl⟩ := hunit.append_inj hunit' heq
      obtain ⟨rfl, rfl⟩ := ih hrest' (List.append_cancel_left heq)
      exact ⟨rfl, rfl⟩

/-! ## Blanks -/

/-- Blanks end at the first character that is none. -/
theorem Gap.append_inj (h : Gap gap) (h' : Gap gap') {c c' : Char} (hc : isBlank c = false)
    (hc' : isBlank c' = false) (heq : gap ++ c :: rest = gap' ++ c' :: rest') :
    gap = gap' ∧ c = c' ∧ rest = rest' := by
  have hblanks := blanks_append h hc rest
  rw [heq, blanks_append h' hc' rest'] at hblanks
  obtain ⟨-, hrest⟩ := Prod.mk.inj (Except.ok.inj hblanks)
  obtain ⟨rfl, rfl⟩ := List.cons_eq_cons.mp hrest
  exact ⟨List.append_cancel_right heq, rfl, rfl⟩

theorem Lead.append_inj {isFirst : Bool} {lead lead' : List Char} (h : Lead isFirst lead)
    (h' : Lead isFirst lead') {c c' : Char} (hc : isBlank c = false) (hc' : isBlank c' = false)
    (heq : lead ++ c :: rest = lead' ++ c' :: rest') :
    lead = lead' ∧ c = c' ∧ rest = rest' := by
  cases isFirst with
  | true => exact Gap.append_inj h h' hc hc' heq
  | false =>
    obtain ⟨before, after, rfl, hbefore, hafter⟩ := h
    obtain ⟨before', after', rfl, hbefore', hafter'⟩ := h'
    rw [List.append_assoc, List.append_assoc] at heq
    obtain ⟨rfl, -, heq⟩ := Gap.append_inj hbefore hbefore' rfl rfl heq
    obtain ⟨rfl, rfl, rfl⟩ := Gap.append_inj hafter hafter' hc hc' heq
    exact ⟨rfl, rfl, rfl⟩

/-- Where an entry begins there are not only blanks. -/
theorem not_gap_append {c : Char} (hc : isBlank c = false) (lead rest : List Char) :
    ¬ Gap (lead ++ c :: rest) := by
  intro hgap
  have hblank := hgap c (by simp)
  rw [hc] at hblank
  cases hblank

theorem Gap.apart_self (h : Gap gap) : Apart gap := by
  intro c hc
  have happart := h.apart (Or.inl rfl) []
  exact happart c (by rw [List.head?_append, hc]; rfl)

/-! ## Values -/

/-- The characters with which a value can begin. -/
def Datum.Begins : Datum → Char → Prop
  | null, c => c = 'n'
  | boolean b, c => c = if b then 't' else 'f'
  | number _, c => c = '-' ∨ c.isDigit = true
  | text _, c => c = '"'
  | list _, c => c = '['
  | object _, c => c = '\x7b'

theorem Spelled.begins {v : Datum} (h : Spelled (.value v) cs) :
    ∃ c tail, cs = c :: tail ∧ v.Begins c := by
  cases h with
  | number h =>
    rcases h.passed gap_nil.apart_self with ⟨ds, rfl, -⟩ | ⟨c, ds, rfl, hc, -⟩
    · exact ⟨_, _, rfl, Or.inl rfl⟩
    · exact ⟨_, _, rfl, Or.inr hc⟩
  | _ => exact ⟨_, _, rfl, rfl⟩

/-- The kind of a value, which is told by its first character. -/
def kindOf (c : Char) : Nat :=
  if c = 'n' then 0
  else if c = 't' ∨ c = 'f' then 1
  else if c = '"' then 3
  else if c = '[' then 4
  else if c = '\x7b' then 5
  else 2

theorem Datum.Begins.ctorIdx_eq {v : Datum} {c : Char} (h : v.Begins c) : v.ctorIdx = kindOf c := by
  cases v with
  | boolean b =>
    obtain rfl : c = if b then 't' else 'f' := h
    cases b <;> rfl
  | number literal =>
    rcases h with rfl | hdigit
    · rfl
    · have hne {c' : Char} (hc' : c'.isDigit = false) : c ≠ c' := by
        rintro rfl
        rw [hdigit] at hc'
        cases hc'
      rw [kindOf, if_neg (hne rfl), if_neg (not_or.mpr ⟨hne rfl, hne rfl⟩), if_neg (hne rfl),
        if_neg (hne rfl), if_neg (hne rfl)]
      rfl
  | _ =>
    cases h
    rfl

/-- Two values at the front of a text are of one kind. -/
theorem Spelled.ctorIdx_eq {v v' : Datum} (h : Spelled (.value v) cs)
    (h' : Spelled (.value v') cs) : v'.ctorIdx = v.ctorIdx := by
  obtain ⟨c, tail, rfl, hbegins⟩ := h.begins
  obtain ⟨c', tail', heq, hbegins'⟩ := h'.begins
  obtain ⟨rfl, -⟩ := List.cons_eq_cons.mp heq
  rw [hbegins.ctorIdx_eq, hbegins'.ctorIdx_eq]

theorem Spelled.exists_quoted {us : List Nat} (h : Spelled (.value (.text us)) cs) :
    ∃ w, cs = '"' :: w ++ ['"'] ∧ Quoted w us := by
  cases h with
  | text h => exact ⟨_, rfl, h⟩

theorem Spelled.exists_elements {vs : List Datum} (h : Spelled (.value (.list vs)) cs) :
    ∃ cs', cs = '[' :: cs' ++ [']'] ∧ Spelled (.elements true vs) cs' := by
  cases h with
  | list h => exact ⟨_, rfl, h⟩

theorem Spelled.exists_members {ms : List (List Nat × Datum)}
    (h : Spelled (.value (.object ms)) cs) :
    ∃ cs', cs = '\x7b' :: cs' ++ ['\x7d'] ∧ Spelled (.members true ms) cs' := by
  cases h with
  | object h => exact ⟨_, rfl, h⟩

theorem Spelled.exists_element {isFirst : Bool} {v : Datum} {vs : List Datum}
    (h : Spelled (.elements isFirst (v :: vs)) cs) :
    ∃ lead cs' more, cs = lead ++ cs' ++ more ∧ Lead isFirst lead ∧ Spelled (.value v) cs' ∧
      Spelled (.elements false vs) more := by
  cases h with
  | element hlead hvalue hmore => exact ⟨_, _, _, rfl, hlead, hvalue, hmore⟩

theorem Spelled.exists_member {isFirst : Bool} {us : List Nat} {v : Datum}
    {ms : List (List Nat × Datum)} (h : Spelled (.members isFirst ((us, v) :: ms)) cs) :
    ∃ lead w before after cs' more,
      cs = lead ++ '"' :: (w ++ '"' :: (before ++ ':' :: (after ++ (cs' ++ more)))) ∧
      Lead isFirst lead ∧ Quoted w us ∧ Gap before ∧ Gap after ∧ Spelled (.value v) cs' ∧
      Spelled (.members false ms) more := by
  cases h with
  | member hlead hname hbefore hafter hvalue hmore =>
    exact ⟨_, _, _, _, _, _, by simp, hlead, hname, hbefore, hafter, hvalue, hmore⟩

/-- Where an entry begins there are not only blanks. -/
theorem not_gap_element {isFirst : Bool} {v : Datum} {vs : List Datum}
    (h : Spelled (.elements isFirst (v :: vs)) cs) : ¬ Gap cs := by
  obtain ⟨lead, cs', more, rfl, -, hvalue, -⟩ := h.exists_element
  obtain ⟨c, tail, rfl, hc, -⟩ := hvalue.head
  rw [List.append_assoc, List.cons_append]
  exact not_gap_append hc _ _

theorem not_gap_member {isFirst : Bool} {us : List Nat} {v : Datum} {ms : List (List Nat × Datum)}
    (h : Spelled (.members isFirst ((us, v) :: ms)) cs) : ¬ Gap cs := by
  obtain ⟨lead, w, before, after, cs', more, rfl, -⟩ := h.exists_member
  exact not_gap_append rfl _ _

theorem gap_of_elements_nil {isFirst : Bool} (h : Spelled (.elements isFirst []) cs) : Gap cs := by
  cases h with
  | noElement hgap => exact hgap

theorem gap_of_members_nil {isFirst : Bool} (h : Spelled (.members isFirst []) cs) : Gap cs := by
  cases h with
  | noMember hgap => exact hgap

/-- A value begins where what stands before it ends. -/
theorem Spelled.lead_append_inj {isFirst : Bool} {lead lead' more more' : List Char} {v v' : Datum}
    (h : Spelled (.value v) cs) (h' : Spelled (.value v') cs') (hlead : Lead isFirst lead)
    (hlead' : Lead isFirst lead') (heq : lead ++ (cs ++ more) = lead' ++ (cs' ++ more')) :
    lead = lead' ∧ cs ++ more = cs' ++ more' := by
  obtain ⟨c, tail, rfl, hc, -⟩ := h.head
  obtain ⟨c', tail', rfl, hc', -⟩ := h'.head
  obtain ⟨rfl, rfl, htails⟩ := hlead.append_inj hlead' hc hc' heq
  exact ⟨rfl, congrArg (c :: ·) htails⟩

/-- Values after which a bracket goes on end at the same place. -/
theorem append_inj_of_end {v v' : Datum} {more more' : List Char} {close : Char}
    (h : Spelled (.value v) cs) (h' : Spelled (.value v') cs')
    (hmore : ∀ rest, Apart (more ++ close :: rest)) (hmore' : ∀ rest, Apart (more' ++ close :: rest))
    (heq : cs ++ more = cs' ++ more') : cs = cs' ∧ more = more' := by
  have hclosed : cs ++ (more ++ [close]) = cs' ++ (more' ++ [close]) := by
    rw [← List.append_assoc, ← List.append_assoc, heq]
  obtain ⟨rfl, hrest⟩ := h.append_inj h' (hmore []) (hmore' []) hclosed
  exact ⟨rfl, List.append_cancel_right hrest⟩

/-- A piece of text is one thing only. -/
def Phrase.Only : Phrase → List Char → Prop
  | .value v, cs => ∀ v', Spelled (.value v') cs → v' = v
  | .elements isFirst vs, cs => ∀ vs', Spelled (.elements isFirst vs') cs → vs' = vs
  | .members isFirst ms, cs => ∀ ms', Spelled (.members isFirst ms') cs → ms' = ms

theorem only_of_spelled {p : Phrase} (h : Spelled p cs) : p.Only cs := by
  -- a second spelling of the same text is of the same kind, and is then taken apart
  induction h with
  | null =>
    intro v' h'
    have hkind := Spelled.null.ctorIdx_eq h'
    cases v' with
    | null => rfl
    | _ => cases hkind
  | isTrue =>
    intro v' h'
    have hkind := Spelled.isTrue.ctorIdx_eq h'
    cases v' with
    | boolean b =>
      cases h'
      rfl
    | _ => cases hkind
  | isFalse =>
    intro v' h'
    have hkind := Spelled.isFalse.ctorIdx_eq h'
    cases v' with
    | boolean b =>
      cases h'
      rfl
    | _ => cases hkind
  | number h =>
    intro v' h'
    have hkind := (Spelled.number h).ctorIdx_eq h'
    cases v' with
    | number =>
      cases h'
      rfl
    | _ => cases hkind
  | text h =>
    intro v' h'
    have hkind := (Spelled.text h).ctorIdx_eq h'
    cases v' with
    | text us' =>
      obtain ⟨w', heq, hw'⟩ := h'.exists_quoted
      rw [h.append_inj hw' (List.cons_eq_cons.mp heq).2 |>.2]
    | _ => cases hkind
  | list h ih =>
    intro v' h'
    have hkind := (Spelled.list h).ctorIdx_eq h'
    cases v' with
    | list vs' =>
      obtain ⟨cs', heq, hcs'⟩ := h'.exists_elements
      obtain rfl := List.append_cancel_right (List.cons_eq_cons.mp heq).2
      rw [ih vs' hcs']
    | _ => cases hkind
  | object h ih =>
    intro v' h'
    have hkind := (Spelled.object h).ctorIdx_eq h'
    cases v' with
    | object ms' =>
      obtain ⟨cs', heq, hcs'⟩ := h'.exists_members
      obtain rfl := List.append_cancel_right (List.cons_eq_cons.mp heq).2
      rw [ih ms' hcs']
    | _ => cases hkind
  | noElement hgap =>
    intro vs' h'
    cases vs' with
    | nil => rfl
    | cons v vs' => exact absurd hgap (not_gap_element h')
  | noMember hgap =>
    intro ms' h'
    cases ms' with
    | nil => rfl
    | cons m ms' => exact absurd hgap (not_gap_member h')
  | @element isFirst lead cs more v vs hlead hvalue hmore ihvalue ihmore =>
    intro vs' h'
    cases vs' with
    | nil => exact absurd (gap_of_elements_nil h') (not_gap_element (.element hlead hvalue hmore))
    | cons v' vs' =>
      obtain ⟨lead', cs', more', heq, hlead', hvalue', hmore'⟩ := h'.exists_element
      -- the first elements begin at one place and end at one place
      rw [List.append_assoc, List.append_assoc] at heq
      obtain ⟨-, hvalues⟩ := hvalue.lead_append_inj hvalue' hlead hlead' heq
      obtain ⟨rfl, rfl⟩ := append_inj_of_end hvalue hvalue' hmore.apart_elements
        hmore'.apart_elements hvalues
      rw [ihvalue v' hvalue', ihmore vs' hmore']
  | @member isFirst lead w before after cs more us v ms hlead hname hbefore hafter hvalue hmore
      ihvalue ihmore =>
    intro ms' h'
    have h := Spelled.member hlead hname hbefore hafter hvalue hmore
    cases ms' with
    | nil => exact absurd (gap_of_members_nil h') (not_gap_member h)
    | cons m ms' =>
      obtain ⟨us', v'⟩ := m
      obtain ⟨lead', w', before', after', cs', more', heq, hlead', hname', hbefore', hafter', hvalue',
        hmore'⟩ := h'.exists_member
      -- so do the first names, and then the values after their colons
      simp only [List.append_assoc, List.cons_append] at heq
      obtain ⟨-, -, heq⟩ := hlead.append_inj hlead' rfl rfl heq
      obtain ⟨rfl, rfl⟩ := hname.append_inj hname' heq
      have hcolon := (List.cons_eq_cons.mp (List.append_cancel_left heq)).2
      obtain ⟨-, -, hafters⟩ := Gap.append_inj hbefore hbefore' rfl rfl hcolon
      have hblanks : Lead true after := hafter
      have hblanks' : Lead true after' := hafter'
      obtain ⟨-, hvalues⟩ := hvalue.lead_append_inj hvalue' hblanks hblanks' hafters
      obtain ⟨rfl, rfl⟩ := append_inj_of_end hvalue hvalue' hmore.apart_members
        hmore'.apart_members hvalues
      rw [ihvalue v' hvalue', ihmore ms' hmore']

/-- **A text stands for one value.** -/
theorem Denotes.unique {text : String} {v v' : Datum} (h : Denotes text v) (h' : Denotes text v') :
    v = v' := by
  obtain ⟨before, cs, after, htext, hbefore, hafter, hvalue⟩ := h
  obtain ⟨before', cs', after', htext', hbefore', hafter', hvalue'⟩ := h'
  rw [htext, List.append_assoc, List.append_assoc] at htext'
  have hblanks : Lead true before := hbefore
  have hblanks' : Lead true before' := hbefore'
  obtain ⟨-, hvalues⟩ := hvalue.lead_append_inj hvalue' hblanks hblanks' htext'
  obtain ⟨rfl, -⟩ := hvalue.append_inj hvalue' hafter.apart_self hafter'.apart_self hvalues
  exact (only_of_spelled hvalue v' hvalue').symm

end BlobStore.Json
