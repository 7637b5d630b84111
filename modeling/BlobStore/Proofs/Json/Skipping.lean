import BlobStore.Json.Skip
import BlobStore.Proofs.Json.Grammar

/-!
# Passing over values

`skipValue` takes exactly one value off the front of a text, whatever value it is
(`skipValue_of_spelled`).  This also says that a value ends in one place only: of two values at the
front of the same text, which both may end where they do (`Apart`), neither is the longer one
(`Spelled.append_inj`).

The open brackets are kept on a stack.  Passing over a value, or over the rest of a bracket,
leaves the brackets around it open, and takes at most two steps for each character
(`passed_of_spelled`).
-/

namespace BlobStore.Json

variable {w cs ds gap rest : List Char}

/-! ## Strings -/

theorem skipText_append {u : List Nat} (h : SpellsUnit w u) (cs : List Char) :
    skipText (w ++ cs) = skipText cs := by
  have hescape {n : Nat} {w : List Char} (hescape : skipEscape (w ++ cs) = .ok n)
      (hlength : w.length = n) : skipText ('\\' :: w ++ cs) = skipText cs := by
    have hdrop : (w ++ cs).drop n = cs := hlength ▸ List.drop_left
    rw [List.cons_append, skipText, if_neg (by decide), if_pos rfl, hescape]
    dsimp only
    rw [hdrop]
  cases h with
  | raw hquote hbackslash hcode =>
    rw [List.singleton_append, skipText, if_neg hquote, if_neg hbackslash, if_neg (by omega)]
  | @short e c h =>
    refine hescape (w := [e]) ?_ rfl
    unfold shortEscape at h
    split at h <;> cases h <;> rfl
  | @code w₁ w₂ w₃ w₄ n h =>
    refine hescape (w := ['u', w₁, w₂, w₃, w₄]) ?_ rfl
    show (fourDigits (w₁ :: w₂ :: w₃ :: w₄ :: cs) >>= fun _ => .ok 5 : Except Misread Nat) = .ok 5
    rw [fourDigits_of_eq_some cs h]
    rfl

theorem skipText_of_quoted {us : List Nat} (h : Quoted w us) (rest : List Char) :
    skipText (w ++ '"' :: rest) = .ok ((), rest) := by
  induction h with
  | nil => rw [List.nil_append, skipText, if_pos rfl]
  | cons hunit _ ih => rw [List.append_assoc, skipText_append hunit, ih]

/-! ## Numbers -/

theorem dropWhile_isDigit (hds : ∀ c ∈ ds, c.isDigit = true) (hrest : digitAhead rest = false) :
    (ds ++ rest).dropWhile Char.isDigit = rest := by
  rw [List.dropWhile_append_of_pos hds]
  cases rest with
  | nil => rfl
  | cons c cs =>
    rw [List.dropWhile_cons_of_neg]
    exact Bool.not_eq_true _ ▸ hrest

theorem skipDigits_append (h : Digits ds) (hrest : digitAhead rest = false) :
    skipDigits (ds ++ rest) = .ok ((), rest) := by
  obtain ⟨c, cs, rfl⟩ := List.exists_cons_of_ne_nil h.1
  have hahead : digitAhead (c :: cs ++ rest) = true := h.2 c List.mem_cons_self
  rw [skipDigits, if_pos hahead, dropWhile_isDigit h.2 hrest]

theorem skipWhole_append {n : Nat} (h : Numeral ds n) (hrest : digitAhead rest = false) :
    skipWhole (ds ++ rest) = .ok ((), rest) := by
  rcases h.lead with rfl | ⟨c, cs, rfl, hc⟩
  · show (if digitAhead rest then Reader.stopAhead .badNumber rest else .ok ((), rest)) = _
    rw [hrest]
    rfl
  · unfold skipWhole
    split
    · next heq => exact absurd (List.cons_eq_cons.mp heq).1 hc
    · exact skipDigits_append ⟨List.cons_ne_nil _ _, h.isDigit⟩ hrest

theorem skipFraction_append (h : Fraction cs) (hdigit : digitAhead rest = false)
    (hpoint : rest.head? ≠ some '.') : skipFraction (cs ++ rest) = .ok ((), rest) := by
  cases h with
  | none =>
    rw [List.nil_append]
    unfold skipFraction
    split
    · exact absurd rfl hpoint
    · rfl
  | some h => exact skipDigits_append h hdigit

theorem afterSign_append {sign : List Char} (hsign : sign = [] ∨ sign = ['+'] ∨ sign = ['-'])
    (h : Digits ds) : afterSign (sign ++ ds ++ rest) = ds ++ rest := by
  rcases hsign with rfl | rfl | rfl
  · obtain ⟨c, ds, rfl⟩ := List.exists_cons_of_ne_nil h.1
    have hc : c.isDigit = true := h.2 c List.mem_cons_self
    rw [List.nil_append]
    unfold afterSign
    split
    · next heq => exact absurd hc (by rw [(List.cons_eq_cons.mp heq).1]; decide)
    · next heq => exact absurd hc (by rw [(List.cons_eq_cons.mp heq).1]; decide)
    · rfl
  · rfl
  · rfl

theorem skipExponent_append (h : Exponent cs) (hrest : Apart rest) :
    skipExponent (cs ++ rest) = .ok ((), rest) := by
  cases h with
  | none =>
    rw [List.nil_append]
    unfold skipExponent
    split
    · exact absurd rfl (hrest _ rfl).2.2.1
    · exact absurd rfl (hrest _ rfl).2.2.2
    · rfl
  | @some e sign ds he hsign h =>
    have hdigits : skipDigits (afterSign (sign ++ ds ++ rest)) = .ok ((), rest) := by
      rw [afterSign_append hsign h, skipDigits_append h hrest.digitAhead]
    rcases he with rfl | rfl <;> exact hdigits

/-- After the sign of a number its digits, its fraction and its exponent are passed over. -/
theorem skipNumber_append {whole fraction exponent : List Char} {n : Nat} (hwhole : Numeral whole n)
    (hfraction : Fraction fraction) (hexponent : Exponent exponent) (hrest : Apart rest) :
    skipNumber (whole ++ fraction ++ exponent ++ rest) = .ok ((), rest) := by
  -- what stands after each part must not be taken for more of that part
  have hexponent' : digitAhead (exponent ++ rest) = false ∧ (exponent ++ rest).head? ≠ some '.' := by
    cases hexponent with
    | none =>
      exact ⟨hrest.digitAhead, fun h => (hrest _ h).2.1 rfl⟩
    | some he hsign h => rcases he with rfl | rfl <;> exact ⟨rfl, by simp⟩
  have hfraction' : digitAhead (fraction ++ (exponent ++ rest)) = false := by
    cases hfraction with
    | none => exact hexponent'.1
    | some h => rfl
  rw [List.append_assoc, List.append_assoc, skipNumber,
    Reader.bind_of_ok (skipWhole_append hwhole hfraction'),
    Reader.bind_of_ok (skipFraction_append hfraction hexponent'.1 hexponent'.2)]
  exact skipExponent_append hexponent hrest

/-! ## Tokens -/

/-- A number begins with its sign or with a digit. -/
theorem Literal.passed (h : Literal cs) (hrest : Apart rest) :
    (∃ ds, cs = '-' :: ds ∧ skipNumber (ds ++ rest) = .ok ((), rest)) ∨
      ∃ c ds, cs = c :: ds ∧ c.isDigit = true ∧ skipNumber (cs ++ rest) = .ok ((), rest) := by
  cases h with
  | @mk sign whole fraction exponent n hsign hwhole hfraction hexponent =>
    have hpassed := skipNumber_append hwhole hfraction hexponent hrest
    rcases hsign with rfl | rfl
    · obtain ⟨c, ds, rfl⟩ : ∃ c ds, whole = c :: ds := by
        rcases hwhole.lead with rfl | ⟨c, ds, rfl, -⟩ <;> exact ⟨_, _, rfl⟩
      exact Or.inr ⟨c, ds ++ fraction ++ exponent, rfl, hwhole.isDigit c List.mem_cons_self, hpassed⟩
    · exact Or.inl ⟨whole ++ fraction ++ exponent, rfl, hpassed⟩

/-- What a value begins with is neither blank nor the end of a bracket. -/
theorem Spelled.head {v : Datum} (h : Spelled (.value v) cs) :
    ∃ c tail, cs = c :: tail ∧ isBlank c = false ∧ c ≠ ']' ∧ c ≠ '\x7d' := by
  cases h with
  | number h =>
    have happart : Apart [] := fun c hc => by cases hc
    rcases h.passed happart with ⟨ds, rfl, -⟩ | ⟨c, ds, rfl, hc, -⟩
    · exact ⟨_, _, rfl, rfl, by decide, by decide⟩
    · refine ⟨c, ds, rfl, isBlank_of_isDigit hc, ?_, ?_⟩ <;>
      · rintro rfl
        exact absurd hc (by decide)
  | _ => exact ⟨_, _, rfl, rfl, by decide, by decide⟩

/-- A value that opens no bracket is passed over at once. -/
inductive Datum.IsToken : Datum → Prop
  | null : Datum.IsToken .null
  | boolean (b : Bool) : Datum.IsToken (.boolean b)
  | number (literal : List Char) : Datum.IsToken (.number literal)
  | text (us : List Nat) : Datum.IsToken (.text us)

theorem skipToken_of_digit {c : Char} (hc : c.isDigit = true)
    (hskip : skipNumber (c :: cs) = .ok ((), rest)) (hgap : Gap gap) :
    skipToken (gap ++ c :: cs) = .ok (none, rest) := by
  rw [skipToken, Reader.bind_of_ok (valueStart_append hgap (isBlank_of_isDigit hc) _)]
  split
  case h_8 =>
    rw [if_pos hc]
    exact Reader.bind_of_ok hskip
  all_goals exact absurd hc (by decide)

theorem skipToken_append {v : Datum} (hv : v.IsToken) (h : Spelled (.value v) cs) (hgap : Gap gap)
    (hrest : Apart rest) : skipToken (gap ++ cs ++ rest) = .ok (none, rest) := by
  rw [List.append_assoc]
  cases h with
  | null =>
    rw [List.cons_append, skipToken, Reader.bind_of_ok (valueStart_append hgap rfl _)]
    exact (Reader.bind_of_ok rfl).trans (Reader.bind_of_ok (word_append ['u', 'l', 'l'] rest))
  | isTrue =>
    rw [List.cons_append, skipToken, Reader.bind_of_ok (valueStart_append hgap rfl _)]
    exact (Reader.bind_of_ok rfl).trans (Reader.bind_of_ok (word_append ['r', 'u', 'e'] rest))
  | isFalse =>
    rw [List.cons_append, skipToken, Reader.bind_of_ok (valueStart_append hgap rfl _)]
    exact (Reader.bind_of_ok rfl).trans (Reader.bind_of_ok (word_append ['a', 'l', 's', 'e'] rest))
  | @text w us h =>
    have htext : '"' :: w ++ ['"'] ++ rest = '"' :: (w ++ '"' :: rest) := by simp
    rw [htext, skipToken, Reader.bind_of_ok (valueStart_append hgap rfl _)]
    exact (Reader.bind_of_ok rfl).trans (Reader.bind_of_ok (skipText_of_quoted h rest))
  | number h =>
    rcases h.passed hrest with ⟨ds, rfl, hskip⟩ | ⟨c, ds, rfl, hdigit, hskip⟩
    · rw [List.cons_append, skipToken, Reader.bind_of_ok (valueStart_append hgap rfl _)]
      exact (Reader.bind_of_ok rfl).trans (Reader.bind_of_ok hskip)
    · exact skipToken_of_digit hdigit hskip hgap
  | list => cases hv
  | object => cases hv

/-! ## Inside brackets -/

/-- What is expected where the next entry of a bracket may begin. -/
def Expecting.entry (isFirst : Bool) : Expecting := if isFirst then .first else .next

theorem isBlank_closing (b : Bracket) : isBlank b.closing = false := by cases b <;> rfl

section brackets

variable {isFirst : Bool} {lead : List Char} (steps : Nat) (outer : List Bracket)

theorem skipInside_close (b : Bracket) (isFirst : Bool) (hgap : Gap gap) (rest : List Char) :
    skipInside (steps + 1) (.entry isFirst) (b :: outer) (gap ++ b.closing :: rest) =
      skipInside steps .next outer rest := by
  have hcomma : b.closing ≠ ',' := by cases b <;> decide
  cases isFirst with
  | true =>
    show skipInside (steps + 1) .first _ _ = _
    rw [skipInside, Reader.bind_of_ok (blanks_append hgap (isBlank_closing b) rest)]
    dsimp only
    rw [if_pos rfl]
    rfl
  | false =>
    show skipInside (steps + 1) .next _ _ = _
    rw [skipInside, Reader.bind_of_ok (blanks_append hgap (isBlank_closing b) rest)]
    dsimp only
    rw [if_neg hcomma, if_pos rfl]
    rfl

/-- Before an entry its name is passed over, if it has one. -/
theorem skipInside_lead {b : Bracket} (hlead : Lead isFirst lead) {c : Char}
    (hblank : isBlank c = false) (hc : c ≠ b.closing) {cs rest : List Char}
    (hname : ∀ gap, Gap gap → ∃ gap', Gap gap' ∧
      b.skipName (gap ++ c :: cs) = .ok ((), gap' ++ rest)) :
    ∃ gap, Gap gap ∧ ∀ steps outer,
      skipInside (steps + 1) (.entry isFirst) (b :: outer) (lead ++ c :: cs) =
        skipInside steps .value (b :: outer) (gap ++ rest) := by
  cases isFirst with
  | true =>
    obtain ⟨gap, hgap, hskip⟩ := hname [] gap_nil
    refine ⟨gap, hgap, fun steps outer => ?_⟩
    show skipInside (steps + 1) .first _ _ = _
    rw [skipInside, Reader.bind_of_ok (blanks_append hlead hblank cs)]
    dsimp only
    rw [if_neg hc]
    exact Reader.bind_of_ok hskip
  | false =>
    obtain ⟨before, after, rfl, hbefore, hafter⟩ := hlead
    obtain ⟨gap, hgap, hskip⟩ := hname after hafter
    refine ⟨gap, hgap, fun steps outer => ?_⟩
    show skipInside (steps + 1) .next _ _ = _
    rw [List.append_assoc, List.cons_append, skipInside,
      Reader.bind_of_ok (blanks_append hbefore rfl _)]
    exact (Reader.bind_of_ok rfl).trans (Reader.bind_of_ok hskip)

end brackets

theorem skipName_list (hgap : Gap gap) (cs : List Char) :
    ∃ gap', Gap gap' ∧ Bracket.skipName .list (gap ++ cs) = .ok ((), gap' ++ cs) :=
  ⟨gap, hgap, rfl⟩

theorem skipName_object (hgap : Gap gap) {us : List Nat} (hname : Quoted w us) {before : List Char}
    (hbefore : Gap before) (cs : List Char) :
    Bracket.skipName .object (gap ++ '"' :: (w ++ '"' :: (before ++ ':' :: cs))) = .ok ((), cs) := by
  rw [Bracket.skipName, Reader.bind_of_ok (blanks_append hgap rfl _)]
  exact (Reader.bind_of_ok rfl).trans
    ((Reader.bind_of_ok (skipText_of_quoted hname _)).trans (colon_append hbefore cs))

/-! ## Values -/

theorem Gap.apart (hgap : Gap gap) {c : Char} (hc : c = ',' ∨ c = ']' ∨ c = '\x7d')
    (rest : List Char) : Apart (gap ++ c :: rest) := by
  intro c' hc'
  cases gap with
  | nil =>
    obtain rfl := Option.some.inj hc'
    rcases hc with rfl | rfl | rfl <;> decide
  | cons b gap =>
    obtain rfl := Option.some.inj hc'
    have hblank := hgap b List.mem_cons_self
    have hcases : b = ' ' ∨ b = '\n' ∨ b = '\t' ∨ b = '\r' := by
      simpa [isBlank, or_assoc] using hblank
    rcases hcases with rfl | rfl | rfl | rfl <;> decide

theorem Lead.apart {lead : List Char} (hlead : Lead false lead) (rest : List Char) :
    Apart (lead ++ rest) := by
  obtain ⟨before, after, rfl, hbefore, -⟩ := hlead
  rw [List.append_assoc, List.cons_append]
  exact hbefore.apart (Or.inl rfl) _

/-- What stands after an entry, up to the end of its bracket, does not begin like a number. -/
theorem Spelled.apart_elements {vs : List Datum} (h : Spelled (.elements false vs) cs)
    (rest : List Char) : Apart (cs ++ ']' :: rest) := by
  cases h with
  | noElement hgap => exact hgap.apart (by decide) rest
  | element hlead =>
    rw [List.append_assoc, List.append_assoc]
    exact hlead.apart _

theorem Spelled.apart_members {ms : List (List Nat × Datum)} (h : Spelled (.members false ms) cs)
    (rest : List Char) : Apart (cs ++ '\x7d' :: rest) := by
  cases h with
  | noMember hgap => exact hgap.apart (by decide) rest
  | member hlead =>
    simp only [List.append_assoc]
    exact hlead.apart _

/-- Passing over a value, with blanks in front, takes two steps less than two for each character
at most, and leaves the open brackets as they are. -/
def PassedValue (cs : List Char) : Prop :=
  ∃ cost, cost + 1 ≤ 2 * cs.length ∧ ∀ gap rest, Gap gap → Apart rest → ∀ steps outer,
    skipInside (cost + steps) .value outer (gap ++ cs ++ rest) = skipInside steps .next outer rest

/-- Passing over the rest of a bracket closes it. -/
def PassedBracket (b : Bracket) (isFirst : Bool) (cs : List Char) : Prop :=
  ∃ cost, cost ≤ 2 * (cs.length + 1) ∧ ∀ rest steps outer,
    skipInside (cost + steps) (.entry isFirst) (b :: outer) (cs ++ b.closing :: rest) =
      skipInside steps .next outer rest

def Phrase.Passed : Phrase → List Char → Prop
  | .value _, cs => PassedValue cs
  | .elements isFirst _, cs => PassedBracket .list isFirst cs
  | .members isFirst _, cs => PassedBracket .object isFirst cs

theorem passedValue_of_isToken {v : Datum} (hv : v.IsToken) (h : Spelled (.value v) cs) :
    PassedValue cs := by
  obtain ⟨c, tail, heq, -⟩ := h.head
  refine ⟨1, by rw [heq, List.length_cons]; omega, fun gap rest hgap hrest steps outer => ?_⟩
  rw [Nat.add_comm, skipInside, Reader.bind_of_ok (skipToken_append hv h hgap hrest)]

theorem passedValue_of_bracket {b : Bracket} {c : Char} (h : PassedBracket b true cs)
    (hopen : ∀ gap rest, Gap gap → skipToken (gap ++ c :: rest) = .ok (some b, rest)) :
    PassedValue (c :: cs ++ [b.closing]) := by
  obtain ⟨cost, hcost, hpassed⟩ := h
  refine ⟨cost + 1, ?_, fun gap rest hgap _ steps outer => ?_⟩
  · simp only [List.length_append, List.length_cons, List.length_nil]
    omega
  · have htext : gap ++ (c :: cs ++ [b.closing]) ++ rest = gap ++ c :: (cs ++ b.closing :: rest) := by
      simp
    have hsteps : cost + 1 + steps = cost + steps + 1 := by omega
    rw [htext, hsteps, skipInside, Reader.bind_of_ok (hopen gap _ hgap)]
    exact hpassed rest steps outer

theorem passedBracket_nil (b : Bracket) (isFirst : Bool) (hgap : Gap gap) :
    PassedBracket b isFirst gap := by
  refine ⟨1, by omega, fun rest steps outer => ?_⟩
  rw [Nat.add_comm]
  exact skipInside_close steps outer b isFirst hgap rest

/-- An entry is passed over by one step for what stands before its value, by those for its value
and by those for the rest of the bracket. -/
theorem passedBracket_cons {b : Bracket} {isFirst : Bool} {front more : List Char}
    (hfront : ∀ rest, ∃ gap, Gap gap ∧ ∀ steps outer,
      skipInside (steps + 1) (.entry isFirst) (b :: outer) (front ++ (cs ++ rest)) =
        skipInside steps .value (b :: outer) (gap ++ cs ++ rest))
    (hvalue : PassedValue cs) (hmore : PassedBracket b false more)
    (happart : ∀ rest, Apart (more ++ b.closing :: rest)) :
    PassedBracket b isFirst (front ++ cs ++ more) := by
  obtain ⟨cost, hcost, hvalue⟩ := hvalue
  obtain ⟨cost', hcost', hmore⟩ := hmore
  refine ⟨1 + cost + cost', ?_, fun rest steps outer => ?_⟩
  · simp only [List.length_append]
    omega
  · obtain ⟨gap, hgap, hfront⟩ := hfront (more ++ b.closing :: rest)
    calc
      _ = skipInside (cost + (cost' + steps) + 1) (.entry isFirst) (b :: outer)
          (front ++ (cs ++ (more ++ b.closing :: rest))) := by
        congr 1
        · omega
        · simp
      _ = skipInside (cost + (cost' + steps)) .value (b :: outer)
          (gap ++ cs ++ (more ++ b.closing :: rest)) := hfront _ _
      _ = skipInside (cost' + steps) .next (b :: outer) (more ++ b.closing :: rest) :=
        hvalue gap _ hgap (happart rest) _ _
      _ = skipInside steps .next outer rest := hmore rest steps outer

/-- Whatever is spelled is passed over. -/
theorem passed_of_spelled {p : Phrase} (h : Spelled p cs) : p.Passed cs := by
  -- along the grammar; the brackets around a phrase, and the steps that are left, are arbitrary
  induction h with
  | null => exact passedValue_of_isToken .null .null
  | isTrue => exact passedValue_of_isToken (.boolean _) .isTrue
  | isFalse => exact passedValue_of_isToken (.boolean _) .isFalse
  | number h => exact passedValue_of_isToken (.number _) (.number h)
  | text h => exact passedValue_of_isToken (.text _) (.text h)
  | list _ ih =>
    refine passedValue_of_bracket (b := .list) ih fun gap rest hgap => ?_
    rw [skipToken, Reader.bind_of_ok (valueStart_append hgap rfl _)]
    rfl
  | object _ ih =>
    refine passedValue_of_bracket (b := .object) ih fun gap rest hgap => ?_
    rw [skipToken, Reader.bind_of_ok (valueStart_append hgap rfl _)]
    rfl
  | noElement hgap => exact passedBracket_nil _ _ hgap
  | noMember hgap => exact passedBracket_nil _ _ hgap
  | element hlead hvalue hmore ihvalue ihmore =>
    refine passedBracket_cons (fun rest => ?_) ihvalue ihmore hmore.apart_elements
    obtain ⟨c, tail, rfl, hblank, hc, -⟩ := hvalue.head
    simp only [List.append_assoc, List.cons_append]
    exact skipInside_lead (b := .list) hlead hblank hc fun gap hgap => skipName_list hgap _
  | @member isFirst lead w before after cs more us v ms hlead hname hbefore hafter hvalue hmore
      ihvalue ihmore =>
    refine passedBracket_cons (fun rest => ?_) ihvalue ihmore hmore.apart_members
    have htext : lead ++ '"' :: w ++ '"' :: before ++ ':' :: after ++ (cs ++ rest) =
        lead ++ '"' :: (w ++ '"' :: (before ++ ':' :: (after ++ (cs ++ rest)))) := by simp
    rw [htext]
    simp only [List.append_assoc]
    exact skipInside_lead hlead rfl (by decide) fun gap hgap =>
      ⟨after, hafter, skipName_object hgap hname hbefore _⟩

/-- A value is passed over, and nothing after it. -/
theorem skipValue_of_spelled {v : Datum} (h : Spelled (.value v) cs) (hgap : Gap gap)
    (hrest : Apart rest) : skipValue (gap ++ cs ++ rest) = .ok ((), rest) := by
  obtain ⟨cost, hcost, hpassed⟩ := passed_of_spelled h
  -- the steps suffice for the value, and for one more, which sees that no bracket is open
  obtain ⟨steps, hsteps⟩ : ∃ steps, 2 * (gap ++ cs ++ rest).length + 2 = cost + (steps + 1) := by
    refine ⟨2 * (gap ++ cs ++ rest).length + 1 - cost, ?_⟩
    simp only [List.length_append]
    omega
  rw [skipValue, hsteps, hpassed gap rest hgap hrest]
  rfl

/-- Where a value ends can be told from the text alone. -/
theorem Spelled.append_inj {v v' : Datum} {cs' rest' : List Char} (h : Spelled (.value v) cs)
    (h' : Spelled (.value v') cs') (hrest : Apart rest) (hrest' : Apart rest')
    (heq : cs ++ rest = cs' ++ rest') : cs = cs' ∧ rest = rest' := by
  have hskip := skipValue_of_spelled h gap_nil hrest
  have hskip' := skipValue_of_spelled h' gap_nil hrest'
  rw [List.nil_append] at hskip hskip'
  rw [heq, hskip'] at hskip
  obtain rfl : rest' = rest := (Prod.mk.inj (Except.ok.inj hskip)).2
  exact ⟨List.append_cancel_right heq, rfl⟩

end BlobStore.Json
