import BlobStore.Json.Record
import Mathlib.Tactic.Common

/-!
# How texts are spelled in JSON

A character of a string may be spelled by itself, by a short escape, or by one or two `\u`
escapes.  `Spells` is the relation between a spelling and the text that it spells.  Reading
recovers the text from every spelling (`textBody_of_spells`), and what is written is one of
them (`spells_flatMap_escapedChar`), so that written text is read back.
-/

namespace BlobStore.Json

/-- The ways in which one character of a string can be spelled. -/
inductive SpellsChar : List Char → Char → Prop
  | raw {c : Char} (hquote : c ≠ '"') (hbackslash : c ≠ '\\') (hcode : 0x20 ≤ c.toNat) :
    SpellsChar [c] c
  | short {e c : Char} (h : shortEscape e = some c) : SpellsChar ['\\', e] c
  | code {w₁ w₂ w₃ w₄ c : Char} (h : fourDigits? [w₁, w₂, w₃, w₄] = some c.toNat) :
    SpellsChar ['\\', 'u', w₁, w₂, w₃, w₄] c
  | pair {w₁ w₂ w₃ w₄ v₁ v₂ v₃ v₄ c : Char} {high low : Nat}
    (h : fourDigits? [w₁, w₂, w₃, w₄] = some high) (h' : fourDigits? [v₁, v₂, v₃, v₄] = some low)
    (hhigh : 0xD800 ≤ high ∧ high ≤ 0xDBFF) (hlow : 0xDC00 ≤ low ∧ low ≤ 0xDFFF)
    (hc : c.toNat = 0x10000 + (high - 0xD800) * 0x400 + (low - 0xDC00)) :
    SpellsChar ['\\', 'u', w₁, w₂, w₃, w₄, '\\', 'u', v₁, v₂, v₃, v₄] c

/-- The ways in which the characters of a string can be spelled, one after the other. -/
inductive Spells : List Char → List Char → Prop
  | nil : Spells [] []
  | cons {w ws cs : List Char} {c : Char} (h : SpellsChar w c) (hrest : Spells ws cs) :
    Spells (w ++ ws) (c :: cs)

/-! ## Escapes -/

section escapes

variable {w₁ w₂ w₃ w₄ v₁ v₂ v₃ v₄ c e : Char} (rest : List Char)

/-- Four digits are read without looking further. -/
theorem fourDigits_of_eq_some {n : Nat} (h : fourDigits? [w₁, w₂, w₃, w₄] = some n) :
    fourDigits (w₁ :: w₂ :: w₃ :: w₄ :: rest) = .ok n := by
  have hrest : fourDigits? (w₁ :: w₂ :: w₃ :: w₄ :: rest) = some n := h
  rw [fourDigits, hrest]

theorem toNat_lt_or_gt_surrogates (c : Char) :
    c.toNat < 0xD800 ∨ 0xDFFF < c.toNat ∧ c.toNat < 0x110000 := c.valid

theorem escape_short (h : shortEscape e = some c) : escape (e :: rest) = .ok (c, 1) := by
  unfold shortEscape at h
  split at h <;> cases h <;> rfl

theorem escape_code (h : fourDigits? [w₁, w₂, w₃, w₄] = some c.toNat) :
    escape ('u' :: w₁ :: w₂ :: w₃ :: w₄ :: rest) = .ok (c, 5) := by
  have hvalid := toNat_lt_or_gt_surrogates c
  rw [escape, fourDigits_of_eq_some _ h]
  dsimp only [bind, Except.bind]
  rw [if_neg (by omega), if_pos (by omega), Char.ofNat_toNat]

theorem escape_pair {high low : Nat} (h : fourDigits? [w₁, w₂, w₃, w₄] = some high)
    (h' : fourDigits? [v₁, v₂, v₃, v₄] = some low) (hhigh : 0xD800 ≤ high ∧ high ≤ 0xDBFF)
    (hlow : 0xDC00 ≤ low ∧ low ≤ 0xDFFF)
    (hc : c.toNat = 0x10000 + (high - 0xD800) * 0x400 + (low - 0xDC00)) :
    escape ('u' :: w₁ :: w₂ :: w₃ :: w₄ :: '\\' :: 'u' :: v₁ :: v₂ :: v₃ :: v₄ :: rest) =
      .ok (c, 11) := by
  have hdrop : (w₁ :: w₂ :: w₃ :: w₄ :: '\\' :: 'u' :: v₁ :: v₂ :: v₃ :: v₄ :: rest).drop 4 =
      '\\' :: 'u' :: v₁ :: v₂ :: v₃ :: v₄ :: rest := rfl
  rw [escape, fourDigits_of_eq_some _ h]
  dsimp only [bind, Except.bind]
  rw [if_neg (by omega), if_neg (by omega), hdrop]
  simp only [fourDigits_of_eq_some _ h']
  rw [if_pos hlow, ← hc, Char.ofNat_toNat]

end escapes

/-! ## Texts -/

/-- A character that has been spelled is read, and reading goes on after it. -/
theorem textBody_append {w : List Char} {c : Char} (h : SpellsChar w c) {cs s rest : List Char}
    (hcs : textBody cs = .ok (s, rest)) : textBody (w ++ cs) = .ok (c :: s, rest) := by
  have hescape {n : Nat} {w : List Char} (hescape : escape (w ++ cs) = .ok (c, n))
      (hlength : w.length = n) : textBody ('\\' :: w ++ cs) = .ok (c :: s, rest) := by
    have hdrop : (w ++ cs).drop n = cs := hlength ▸ List.drop_left
    rw [List.cons_append, textBody, if_neg (by decide), if_pos rfl, hescape]
    dsimp only
    rw [hdrop, hcs]
  cases h with
  | raw hquote hbackslash hcode =>
    rw [List.singleton_append, textBody, if_neg hquote, if_neg hbackslash, if_neg (by omega), hcs]
  | short h => exact hescape (w := [_]) (escape_short cs h) rfl
  | code h => exact hescape (w := ['u', _, _, _, _]) (escape_code cs h) rfl
  | pair h h' hhigh hlow hc =>
    exact hescape (w := ['u', _, _, _, _, '\\', 'u', _, _, _, _])
      (escape_pair cs h h' hhigh hlow hc) rfl

/-- Every spelling of a text is read as that text. -/
theorem textBody_of_spells {w s : List Char} (h : Spells w s) (rest : List Char) :
    textBody (w ++ '"' :: rest) = .ok (s, rest) := by
  induction h with
  | nil => rw [List.nil_append, textBody, if_pos rfl]
  | cons hchar _ ih =>
    rw [List.append_assoc]
    exact textBody_append hchar ih

theorem readText_of_spells {w : List Char} {s : String} (h : Spells w s.toList)
    (rest : List Char) : readText (w ++ '"' :: rest) = .ok (s, rest) := by
  rw [readText, textBody_of_spells h]
  dsimp only
  rw [String.ofList_toList]

/-! ## What is written -/

/-- The control characters that have no short escape are written by their codes. -/
theorem fourDigits?_pair {n : Nat} (h : n < 0x20) :
    fourDigits? ('0' :: '0' :: Text.Hex.pair (UInt8.ofNat n)) = some n := by
  have hall : ∀ n : Fin 0x20,
      fourDigits? ('0' :: '0' :: Text.Hex.pair (UInt8.ofNat n)) = some n.val := by decide
  exact hall ⟨n, h⟩

theorem spellsChar_escapedChar (c : Char) : SpellsChar (escapedChar c) c := by
  unfold escapedChar
  split_ifs with hquote hbackslash hb hf hn hr ht hcode
  · subst hquote
    exact .short rfl
  · subst hbackslash
    exact .short rfl
  · subst hb
    exact .short rfl
  · subst hf
    exact .short rfl
  · subst hn
    exact .short rfl
  · subst hr
    exact .short rfl
  · subst ht
    exact .short rfl
  · exact .code (fourDigits?_pair hcode)
  · exact .raw hquote hbackslash (Nat.le_of_not_lt hcode)

/-- What is written for a text spells it. -/
theorem spells_flatMap_escapedChar (s : List Char) : Spells (s.flatMap escapedChar) s := by
  induction s with
  | nil => exact .nil
  | cons c s ih =>
    rw [List.flatMap_cons]
    exact .cons (spellsChar_escapedChar c) ih

end BlobStore.Json
