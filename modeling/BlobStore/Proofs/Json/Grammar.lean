import BlobStore.Proofs.Json.Numerals

/-!
# The JSON texts

`Denotes` says which value a text stands for, by the grammar of JSON alone and without a word on
how texts are read.  The grammar knows no bounds: values may be nested to any depth, and numbers
are kept as they are written, so that they may be of any size.

A string stands for its code units of 16 bits, of which one escape spells one.  Not every sequence
of code units is a text, since half of a surrogate pair may stand alone.  The spellings of a text
are the spellings of its code units (`quoted_units_iff`), and these determine the text
(`units_injective`).
-/

namespace BlobStore.Json

variable {w w' cs gap rest : List Char}

/-! ## Code units -/

/-- The code units of a character: one, or a surrogate pair. -/
def codeUnits (c : Char) : List Nat :=
  if c.toNat < 0x10000 then [c.toNat]
  else [0xD800 + (c.toNat - 0x10000) / 0x400, 0xDC00 + (c.toNat - 0x10000) % 0x400]

/-- The code units of a text. -/
def units (s : String) : List Nat := s.toList.flatMap codeUnits

/-- The ways in which code units are spelled: those of one character, which stands for itself or
is escaped by a letter, or any one of them by its number. -/
inductive SpellsUnit : List Char → List Nat → Prop
  | raw {c : Char} (hquote : c ≠ '"') (hbackslash : c ≠ '\\') (hcode : 0x20 ≤ c.toNat) :
    SpellsUnit [c] (codeUnits c)
  | short {e c : Char} (h : shortEscape e = some c) : SpellsUnit ['\\', e] (codeUnits c)
  | code {w₁ w₂ w₃ w₄ : Char} {n : Nat} (h : fourDigits? [w₁, w₂, w₃, w₄] = some n) :
    SpellsUnit ['\\', 'u', w₁, w₂, w₃, w₄] [n]

/-- What stands between the quotes of a string, and the code units of the string. -/
inductive Quoted : List Char → List Nat → Prop
  | nil : Quoted [] []
  | cons {w ws : List Char} {u us : List Nat} (h : SpellsUnit w u) (hrest : Quoted ws us) :
    Quoted (w ++ ws) (u ++ us)

/-- A character is one code unit that is no half of a pair, or a pair. -/
theorem codeUnits_cases (c : Char) :
    (codeUnits c = [c.toNat] ∧ (c.toNat < 0xD800 ∨ 0xDFFF < c.toNat ∧ c.toNat < 0x10000)) ∨
    ∃ high low, codeUnits c = [high, low] ∧ (0xD800 ≤ high ∧ high ≤ 0xDBFF) ∧
      (0xDC00 ≤ low ∧ low ≤ 0xDFFF) ∧
      c.toNat = 0x10000 + (high - 0xD800) * 0x400 + (low - 0xDC00) := by
  have hvalid := toNat_lt_or_gt_surrogates c
  rw [codeUnits]
  split_ifs with hsmall
  · exact Or.inl ⟨rfl, by omega⟩
  · exact Or.inr ⟨_, _, rfl, by omega, by omega, by omega⟩

theorem codeUnits_ne_nil (c : Char) : codeUnits c ≠ [] := by
  rcases codeUnits_cases c with ⟨hc, -⟩ | ⟨_, _, hc, -⟩ <;> simp [hc]

theorem codeUnits_of_lt {c : Char} (h : c.toNat < 0x10000) : codeUnits c = [c.toNat] := if_pos h

/-- The code units of a character do not begin with the second half of a pair. -/
theorem codeUnits_ne_cons_low {c : Char} {low : Nat} (hlow : 0xDC00 ≤ low ∧ low ≤ 0xDFFF)
    (us us' : List Nat) : codeUnits c ++ us ≠ low :: us' := by
  rcases codeUnits_cases c with ⟨hc, hcode⟩ | ⟨high, low', hc, hhigh, -, -⟩
  · rw [hc, List.singleton_append]
    intro h
    have hhead := (List.cons_eq_cons.mp h).1
    omega
  · rw [hc, List.cons_append]
    intro h
    have hhead := (List.cons_eq_cons.mp h).1
    omega

/-- A character is found again at the front of code units. -/
theorem codeUnits_append_inj {c c' : Char} {us us' : List Nat}
    (h : codeUnits c ++ us = codeUnits c' ++ us') : c = c' ∧ us = us' := by
  have heq {c c' : Char} (hcode : c.toNat = c'.toNat) : c = c' := by
    rw [← Char.ofNat_toNat c, hcode, Char.ofNat_toNat]
  rcases codeUnits_cases c with ⟨hc, hcode⟩ | ⟨high, low, hc, hhigh, hlow, hcode⟩ <;>
    rcases codeUnits_cases c' with ⟨hc', hcode'⟩ | ⟨high', low', hc', hhigh', hlow', hcode'⟩ <;>
    rw [hc, hc'] at h <;>
    simp only [List.cons_append, List.nil_append, List.cons_eq_cons] at h
  · exact ⟨heq h.1, h.2⟩
  · omega
  · omega
  · obtain ⟨rfl, rfl, hrest⟩ := h
    exact ⟨heq (hcode.trans hcode'.symm), hrest⟩

/-- Different texts have different code units. -/
theorem units_injective {s s' : String} (h : units s = units s') : s = s' := by
  have hlist : ∀ l l' : List Char, l.flatMap codeUnits = l'.flatMap codeUnits → l = l' := by
    intro l
    induction l with
    | nil =>
      intro l' hl
      cases l' with
      | nil => rfl
      | cons c l' => exact absurd (List.append_eq_nil_iff.mp hl.symm).1 (codeUnits_ne_nil c)
    | cons c l ih =>
      intro l' hl
      cases l' with
      | nil => exact absurd (List.append_eq_nil_iff.mp hl).1 (codeUnits_ne_nil c)
      | cons c' l' =>
        obtain ⟨rfl, hrest⟩ := codeUnits_append_inj hl
        rw [ih l' hrest]
  exact String.toList_inj.mp (hlist _ _ h)

/-! ## The spellings of a text -/

theorem hexValue_lt {c : Char} {n : Nat} (h : hexValue c = some n) : n < 16 := by
  unfold hexValue at h
  split_ifs at h with hdigit hlower hupper
  · have hle : c.toNat ≤ '9'.toNat := hdigit.2
    obtain rfl := Option.some.inj h
    exact Nat.lt_of_le_of_lt (Nat.sub_le_sub_right hle _) (by decide)
  · have hle : c.toNat ≤ 'f'.toNat := hlower.2
    obtain rfl := Option.some.inj h
    exact Nat.lt_of_le_of_lt (Nat.add_le_add_right (Nat.sub_le_sub_right hle _) _) (by decide)
  · have hle : c.toNat ≤ 'F'.toNat := hupper.2
    obtain rfl := Option.some.inj h
    exact Nat.lt_of_le_of_lt (Nat.add_le_add_right (Nat.sub_le_sub_right hle _) _) (by decide)

/-- Four digits spell one code unit. -/
theorem fourDigits?_lt {w : List Char} {n : Nat} (h : fourDigits? w = some n) : n < 0x10000 := by
  unfold fourDigits? at h
  split at h
  · simp only [Option.bind_eq_bind, Option.bind_eq_some_iff, Option.pure_def,
      Option.some.injEq] at h
    obtain ⟨n₁, h₁, n₂, h₂, n₃, h₃, n₄, h₄, rfl⟩ := h
    have hlt₁ := hexValue_lt h₁
    have hlt₂ := hexValue_lt h₂
    have hlt₃ := hexValue_lt h₃
    have hlt₄ := hexValue_lt h₄
    omega
  · cases h

theorem quoted_append_of_spellsChar {c : Char} {us : List Nat} (h : SpellsChar w c)
    (hrest : Quoted w' us) : Quoted (w ++ w') (codeUnits c ++ us) := by
  cases h with
  | raw hquote hbackslash hcode => exact .cons (.raw hquote hbackslash hcode) hrest
  | short h => exact .cons (.short h) hrest
  | code h =>
    rw [codeUnits_of_lt (fourDigits?_lt h)]
    exact .cons (.code h) hrest
  | @pair _ _ _ _ _ _ _ _ _ high low h h' hhigh hlow hc =>
    rcases codeUnits_cases c with ⟨-, hcode⟩ | ⟨high', low', hunits, hhigh', hlow', hc'⟩
    · omega
    · obtain ⟨rfl, rfl⟩ : high = high' ∧ low = low' := ⟨by omega, by omega⟩
      rw [hunits]
      exact Quoted.cons (w := ['\\', 'u', _, _, _, _]) (u := [high]) (.code h)
        (.cons (.code h') hrest)

theorem quoted_of_spells {s : List Char} (h : Spells w s) : Quoted w (s.flatMap codeUnits) := by
  induction h with
  | nil => exact .nil
  | cons hchar _ ih =>
    rw [List.flatMap_cons]
    exact quoted_append_of_spellsChar hchar ih

theorem SpellsUnit.ne_nil {us : List Nat} (h : SpellsUnit w us) : us ≠ [] := by
  cases h with
  | raw => exact codeUnits_ne_nil _
  | short => exact codeUnits_ne_nil _
  | code => exact List.cons_ne_nil _ _

/-- The second half of a pair is spelled by its number. -/
theorem Quoted.cons_low {low : Nat} {us : List Nat} (h : Quoted w (low :: us))
    (hlow : 0xDC00 ≤ low ∧ low ≤ 0xDFFF) :
    ∃ w₁ w₂ w₃ w₄ w', w = ['\\', 'u', w₁, w₂, w₃, w₄] ++ w' ∧
      fourDigits? [w₁, w₂, w₃, w₄] = some low ∧ Quoted w' us := by
  generalize hus : low :: us = us₀ at h
  cases h with
  | nil => cases hus
  | cons h hrest =>
    cases h with
    | raw => exact absurd hus.symm (codeUnits_ne_cons_low hlow _ _)
    | short => exact absurd hus.symm (codeUnits_ne_cons_low hlow _ _)
    | code h =>
      obtain ⟨rfl, rfl⟩ := List.cons_eq_cons.mp hus
      exact ⟨_, _, _, _, _, rfl, h, hrest⟩

theorem spells_of_quoted {s : List Char} :
    ∀ {w : List Char}, Quoted w (s.flatMap codeUnits) → Spells w s := by
  induction s with
  | nil =>
    intro w h
    generalize hus : [].flatMap codeUnits = us at h
    cases h with
    | nil => exact .nil
    | cons h _ => exact absurd (List.append_eq_nil_iff.mp hus.symm).1 h.ne_nil
  | cons c s ih =>
    intro w h
    rw [List.flatMap_cons] at h
    generalize hus : codeUnits c ++ s.flatMap codeUnits = us at h
    cases h with
    | nil => exact absurd (List.append_eq_nil_iff.mp hus).1 (codeUnits_ne_nil c)
    | cons h hrest =>
      cases h with
      | raw hquote hbackslash hcode =>
        obtain ⟨rfl, rfl⟩ := codeUnits_append_inj hus
        exact .cons (.raw hquote hbackslash hcode) (ih hrest)
      | short h =>
        obtain ⟨rfl, rfl⟩ := codeUnits_append_inj hus
        exact .cons (.short h) (ih hrest)
      | code h =>
        rcases codeUnits_cases c with ⟨hc, -⟩ | ⟨high, low, hc, hhigh, hlow, hcode⟩
        · rw [hc] at hus
          obtain ⟨rfl, rfl⟩ := List.cons_eq_cons.mp hus
          exact .cons (.code h) (ih hrest)
        · -- the other half of the pair is spelled next
          rw [hc] at hus
          obtain ⟨rfl, rfl⟩ := List.cons_eq_cons.mp hus
          obtain ⟨_, _, _, _, w', rfl, h', hrest'⟩ := Quoted.cons_low hrest hlow
          exact .cons (w := ['\\', 'u', _, _, _, _, '\\', 'u', _, _, _, _])
            (.pair h h' hhigh hlow hcode) (ih hrest')

/-- The spellings of a text are those of its code units. -/
theorem quoted_units_iff {s : String} : Quoted w (units s) ↔ Spells w s.toList :=
  ⟨spells_of_quoted, quoted_of_spells⟩

/-! ## Values -/

/-- What a JSON text can stand for. -/
inductive Datum where
  | null
  | boolean (b : Bool)
  /-- a number, as it is written -/
  | number (literal : List Char)
  | text (units : List Nat)
  | list (vs : List Datum)
  | object (members : List (List Nat × Datum))

def Digits (ds : List Char) : Prop := ds ≠ [] ∧ ∀ c ∈ ds, c.isDigit = true

inductive Fraction : List Char → Prop
  | none : Fraction []
  | some {ds : List Char} (h : Digits ds) : Fraction ('.' :: ds)

inductive Exponent : List Char → Prop
  | none : Exponent []
  | some {e : Char} {sign ds : List Char} (he : e = 'e' ∨ e = 'E')
    (hsign : sign = [] ∨ sign = ['+'] ∨ sign = ['-']) (h : Digits ds) :
    Exponent (e :: sign ++ ds)

/-- The ways in which a number can be written. -/
inductive Literal : List Char → Prop
  | mk {sign whole fraction exponent : List Char} {n : Nat} (hsign : sign = [] ∨ sign = ['-'])
    (hwhole : Numeral whole n) (hfraction : Fraction fraction) (hexponent : Exponent exponent) :
    Literal (sign ++ whole ++ fraction ++ exponent)

/-- What stands before an element of a list or before the quote of a name in an object: blanks,
and a comma if it is not the first one. -/
def Lead (isFirst : Bool) (cs : List Char) : Prop :=
  if isFirst then Gap cs else ∃ before after, cs = before ++ ',' :: after ∧ Gap before ∧ Gap after

/-- Blanks may follow. -/
theorem Lead.append {isFirst : Bool} {lead : List Char} (h : Lead isFirst lead) (hgap : Gap gap) :
    Lead isFirst (lead ++ gap) := by
  cases isFirst with
  | true => exact Gap.append h hgap
  | false =>
    obtain ⟨before, after, rfl, hbefore, hafter⟩ := h
    exact ⟨before, after ++ gap, by simp, hbefore, hafter.append hgap⟩

/-- What a piece of a JSON text can be: a value, or what stands between two brackets, from the
place where the next entry may begin. -/
inductive Phrase where
  | value (v : Datum)
  | elements (isFirst : Bool) (vs : List Datum)
  | members (isFirst : Bool) (ms : List (List Nat × Datum))

/-- The grammar of JSON. -/
inductive Spelled : Phrase → List Char → Prop
  | null : Spelled (.value .null) ['n', 'u', 'l', 'l']
  | isTrue : Spelled (.value (.boolean true)) ['t', 'r', 'u', 'e']
  | isFalse : Spelled (.value (.boolean false)) ['f', 'a', 'l', 's', 'e']
  | number {literal : List Char} (h : Literal literal) : Spelled (.value (.number literal)) literal
  | text {w : List Char} {us : List Nat} (h : Quoted w us) :
    Spelled (.value (.text us)) ('"' :: w ++ ['"'])
  | list {cs : List Char} {vs : List Datum} (h : Spelled (.elements true vs) cs) :
    Spelled (.value (.list vs)) ('[' :: cs ++ [']'])
  | object {cs : List Char} {ms : List (List Nat × Datum)}
    (h : Spelled (.members true ms) cs) :
    Spelled (.value (.object ms)) ('\x7b' :: cs ++ ['\x7d'])
  | noElement {isFirst : Bool} {gap : List Char} (hgap : Gap gap) :
    Spelled (.elements isFirst []) gap
  | element {isFirst : Bool} {lead cs more : List Char} {v : Datum} {vs : List Datum}
    (hlead : Lead isFirst lead) (hvalue : Spelled (.value v) cs)
    (hmore : Spelled (.elements false vs) more) :
    Spelled (.elements isFirst (v :: vs)) (lead ++ cs ++ more)
  | noMember {isFirst : Bool} {gap : List Char} (hgap : Gap gap) :
    Spelled (.members isFirst []) gap
  | member {isFirst : Bool} {lead w before after cs more : List Char} {us : List Nat} {v : Datum}
    {ms : List (List Nat × Datum)} (hlead : Lead isFirst lead) (hname : Quoted w us)
    (hbefore : Gap before) (hafter : Gap after) (hvalue : Spelled (.value v) cs)
    (hmore : Spelled (.members false ms) more) :
    Spelled (.members isFirst ((us, v) :: ms))
      (lead ++ '"' :: w ++ '"' :: before ++ ':' :: after ++ cs ++ more)

/-- A text that is a value between blanks. -/
def Denotes (text : String) (v : Datum) : Prop :=
  ∃ before cs after, text.toList = before ++ cs ++ after ∧ Gap before ∧ Gap after ∧
    Spelled (.value v) cs

end BlobStore.Json
