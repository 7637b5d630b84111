import BlobStore.Json.Skip
import BlobStore.Proofs.Json.Grammar

/-!
# What single readers take

The converse of reading values back: where a reader has answered, what it has taken off the front
of the text is spelled by the grammar.  Each lemma names what has been taken, in front of what is
left.
-/

namespace BlobStore.Json

variable {α : Type} {cs rest : List Char}

/-! ## Blanks and words -/

theorem Reader.advance_bind (f : Unit → Reader α) (c : Char) (cs : List Char) :
    (Reader.advance >>= f) (c :: cs) = f () cs := rfl

theorem exists_of_blanks {o : Option Char} (h : blanks cs = .ok (o, rest)) :
    ∃ gap, Gap gap ∧ cs = gap ++ rest ∧ rest.head? = o := by
  obtain ⟨rfl, rfl⟩ := Prod.mk.inj (Except.ok.inj h)
  exact ⟨cs.takeWhile isBlank, fun c hc => List.mem_takeWhile_imp hc,
    List.takeWhile_append_dropWhile.symm, rfl⟩

theorem exists_of_blanks_some {c : Char} (h : blanks cs = .ok (some c, rest)) :
    ∃ gap tail, Gap gap ∧ cs = gap ++ c :: tail ∧ rest = c :: tail := by
  obtain ⟨gap, hgap, rfl, hhead⟩ := exists_of_blanks h
  obtain ⟨tail, rfl⟩ := List.head?_eq_some_iff.mp hhead
  exact ⟨gap, tail, hgap, rfl, rfl⟩

theorem exists_of_valueStart {c : Char} (h : valueStart cs = .ok (c, rest)) :
    ∃ gap tail, Gap gap ∧ cs = gap ++ c :: tail ∧ rest = c :: tail := by
  obtain ⟨o, mid, hblanks, h⟩ := Reader.bind_eq_ok.mp h
  cases o with
  | none => cases h
  | some c' =>
    cases h
    exact exists_of_blanks_some hblanks

theorem eq_append_of_word : ∀ {w cs : List Char}, word w cs = .ok ((), rest) → cs = w ++ rest := by
  intro w
  induction w with
  | nil =>
    intro cs h
    cases h
    rfl
  | cons c w ih =>
    intro cs h
    rw [word] at h
    cases cs with
    | nil => cases h
    | cons c' cs =>
      dsimp only at h
      split_ifs at h with hc
      rw [hc, ih h, List.cons_append]

theorem exists_of_colon (h : colon cs = .ok ((), rest)) :
    ∃ gap, Gap gap ∧ cs = gap ++ ':' :: rest := by
  obtain ⟨o, mid, hblanks, h⟩ := Reader.bind_eq_ok.mp h
  split at h
  · obtain ⟨gap, tail, hgap, rfl, rfl⟩ := exists_of_blanks_some hblanks
    cases h
    exact ⟨gap, hgap, rfl⟩
  · cases h
  · cases h

/-! ## Strings -/

theorem exists_of_fourDigits {n : Nat} (h : fourDigits cs = .ok n) :
    ∃ w₁ w₂ w₃ w₄ rest, cs = w₁ :: w₂ :: w₃ :: w₄ :: rest ∧
      fourDigits? [w₁, w₂, w₃, w₄] = some n := by
  unfold fourDigits at h
  split at h
  · next m hdigits =>
    obtain rfl := Except.ok.inj h
    unfold fourDigits? at hdigits
    split at hdigits
    · exact ⟨_, _, _, _, _, rfl, hdigits⟩
    · cases hdigits
  · split_ifs at h

theorem toNat_ofNat {n : Nat} (h : n < 0xD800 ∨ 0xDFFF < n ∧ n < 0x110000) :
    (Char.ofNat n).toNat = n := by
  rw [Char.ofNat, dif_pos h]
  rfl

/-- An escape that is read spells a character. -/
theorem exists_spellsChar_of_escape {c : Char} {n : Nat} (h : escape cs = .ok (c, n)) :
    ∃ w, cs = w ++ cs.drop n ∧ SpellsChar ('\\' :: w) c := by
  unfold escape at h
  split at h
  · cases h
  · next cs =>
    cases hhigh : fourDigits cs with
    | error e =>
      rw [hhigh] at h
      cases h
    | ok high =>
      obtain ⟨w₁, w₂, w₃, w₄, rest, rfl, hdigits⟩ := exists_of_fourDigits hhigh
      have hbound := fourDigits?_lt hdigits
      rw [hhigh] at h
      dsimp only [bind, Except.bind] at h
      split_ifs at h with hlone hsingle
      · -- no half of a pair, but a character by itself
        obtain ⟨rfl, rfl⟩ := Prod.mk.inj (Except.ok.inj h)
        refine ⟨['u', w₁, w₂, w₃, w₄], rfl, .code ?_⟩
        rw [toNat_ofNat (by omega), hdigits]
      · split at h
        · cases h
        · cases h
        · next cs hcs =>
          -- the first half of a pair; only the second half may follow
          obtain rfl : rest = _ := hcs
          cases hlow : fourDigits cs with
          | error e =>
            rw [hlow] at h
            cases h
          | ok low =>
            obtain ⟨v₁, v₂, v₃, v₄, rest', rfl, hdigits'⟩ := exists_of_fourDigits hlow
            rw [hlow] at h
            dsimp only at h
            split_ifs at h with hpair
            obtain ⟨rfl, rfl⟩ := Prod.mk.inj (Except.ok.inj h)
            exact ⟨['u', w₁, w₂, w₃, w₄, '\\', 'u', v₁, v₂, v₃, v₄], rfl,
              .pair hdigits hdigits' (by omega) hpair (toNat_ofNat (by omega))⟩
        · cases h
        · cases h
  · next c' cs _ =>
    split at h
    · next d hshort =>
      obtain ⟨rfl, rfl⟩ := Prod.mk.inj (Except.ok.inj h)
      exact ⟨[c'], rfl, .short hshort⟩
    · cases h

/-- What is read as characters spells them, up to the closing quote. -/
theorem exists_spells_of_textBody {s : List Char} (h : textBody cs = .ok (s, rest)) :
    ∃ w, cs = w ++ '"' :: rest ∧ Spells w s := by
  fun_induction textBody cs generalizing s with
  | case2 cs =>
    cases h
    exact ⟨[], rfl, .nil⟩
  | case5 cs c n hescape _ _ hbody _ ih =>
    obtain ⟨rfl, rfl⟩ := Prod.mk.inj (Except.ok.inj h)
    obtain ⟨w, hcs, hspells⟩ := ih hbody
    obtain ⟨w', hcs', hchar⟩ := exists_spellsChar_of_escape hescape
    refine ⟨'\\' :: w' ++ w, ?_, .cons hchar hspells⟩
    conv_lhs => rw [hcs', hcs]
    simp
  | case8 c cs hquote hbackslash hcode _ _ hbody ih =>
    obtain ⟨rfl, rfl⟩ := Prod.mk.inj (Except.ok.inj h)
    obtain ⟨w, rfl, hspells⟩ := ih hbody
    exact ⟨c :: w, rfl, .cons (w := [c]) (.raw hquote hbackslash (Nat.le_of_not_lt hcode)) hspells⟩
  | _ => cases h

theorem exists_quoted_of_readText {s : String} (h : readText cs = .ok (s, rest)) :
    ∃ w, cs = w ++ '"' :: rest ∧ Quoted w (units s) := by
  rw [readText] at h
  split at h
  · cases h
  · next l left hbody =>
    obtain ⟨rfl, rfl⟩ := Prod.mk.inj (Except.ok.inj h)
    obtain ⟨w, hcs, hspells⟩ := exists_spells_of_textBody hbody
    refine ⟨w, hcs, quoted_units_iff.mpr ?_⟩
    rw [String.toList_ofList]
    exact hspells

/-- An escape that is passed over spells code units. -/
theorem exists_spellsUnit_of_skipEscape {n : Nat} (h : skipEscape cs = .ok n) :
    ∃ w us, cs = w ++ cs.drop n ∧ SpellsUnit ('\\' :: w) us := by
  unfold skipEscape at h
  split at h
  · cases h
  · next cs =>
    cases hdigits : fourDigits cs with
    | error e =>
      rw [hdigits] at h
      cases h
    | ok m =>
      obtain ⟨w₁, w₂, w₃, w₄, rest, rfl, hcode⟩ := exists_of_fourDigits hdigits
      rw [hdigits] at h
      cases h
      exact ⟨['u', w₁, w₂, w₃, w₄], _, rfl, .code hcode⟩
  · next c cs _ =>
    split at h
    · next d hshort =>
      obtain rfl := Except.ok.inj h
      exact ⟨[c], _, rfl, .short hshort⟩
    · cases h

theorem exists_quoted_of_skipText (h : skipText cs = .ok ((), rest)) :
    ∃ w us, cs = w ++ '"' :: rest ∧ Quoted w us := by
  fun_induction skipText cs with
  | case2 cs =>
    cases h
    exact ⟨[], [], rfl, .nil⟩
  | case4 cs n hescape _ ih =>
    obtain ⟨w, us, hcs, hquoted⟩ := ih h
    obtain ⟨w', u, hcs', hunit⟩ := exists_spellsUnit_of_skipEscape hescape
    refine ⟨'\\' :: w' ++ w, u ++ us, ?_, .cons hunit hquoted⟩
    conv_lhs => rw [hcs', hcs]
    simp
  | case6 c cs hquote hbackslash hcode ih =>
    obtain ⟨w, us, rfl, hquoted⟩ := ih h
    exact ⟨c :: w, codeUnits c ++ us, rfl,
      .cons (w := [c]) (.raw hquote hbackslash (Nat.le_of_not_lt hcode)) hquoted⟩
  | _ => cases h

/-! ## Numbers -/

theorem exists_digits_of_skipDigits (h : skipDigits cs = .ok ((), rest)) :
    ∃ ds, cs = ds ++ rest ∧ Digits ds := by
  unfold skipDigits at h
  split_ifs at h with hahead
  · obtain ⟨-, rfl⟩ := Prod.mk.inj (Except.ok.inj h)
    refine ⟨cs.takeWhile Char.isDigit, List.takeWhile_append_dropWhile.symm, ?_,
      fun c hc => List.mem_takeWhile_imp hc⟩
    cases cs with
    | nil => cases hahead
    | cons c cs =>
      have hc : c.isDigit = true := hahead
      rw [List.takeWhile_cons_of_pos hc]
      exact List.cons_ne_nil _ _
  · cases h

theorem exists_numeral_of_skipWhole (h : skipWhole cs = .ok ((), rest)) :
    ∃ whole n, cs = whole ++ rest ∧ Numeral whole n := by
  unfold skipWhole at h
  split at h
  · next cs =>
    split_ifs at h
    · cases h
    · cases h
      exact ⟨['0'], 0, rfl, numeral_toDigits 0⟩
  · next cs hzero =>
    obtain ⟨ds, rfl, hds⟩ := exists_digits_of_skipDigits h
    obtain ⟨c, ds, rfl⟩ := List.exists_cons_of_ne_nil hds.1
    have hc : c ≠ '0' := fun hc => hzero _ (by rw [hc]; rfl)
    exact ⟨c :: ds, _, rfl, hds.2, Or.inr ⟨c, ds, rfl, hc⟩, rfl⟩

theorem exists_fraction_of_skipFraction (h : skipFraction cs = .ok ((), rest)) :
    ∃ fraction, cs = fraction ++ rest ∧ Fraction fraction := by
  unfold skipFraction at h
  split at h
  · obtain ⟨ds, rfl, hds⟩ := exists_digits_of_skipDigits h
    exact ⟨'.' :: ds, rfl, .some hds⟩
  · cases h
    exact ⟨[], rfl, .none⟩

theorem exists_sign_of_afterSign (cs : List Char) :
    ∃ sign, cs = sign ++ afterSign cs ∧ (sign = [] ∨ sign = ['+'] ∨ sign = ['-']) := by
  unfold afterSign
  split
  · exact ⟨['+'], rfl, Or.inr (Or.inl rfl)⟩
  · exact ⟨['-'], rfl, Or.inr (Or.inr rfl)⟩
  · exact ⟨[], rfl, Or.inl rfl⟩

theorem exists_exponent_of_skipExponent (h : skipExponent cs = .ok ((), rest)) :
    ∃ exponent, cs = exponent ++ rest ∧ Exponent exponent := by
  have hsome {e : Char} (he : e = 'e' ∨ e = 'E') {cs : List Char}
      (h : skipDigits (afterSign cs) = .ok ((), rest)) :
      ∃ exponent, e :: cs = exponent ++ rest ∧ Exponent exponent := by
    obtain ⟨sign, hcs, hsign⟩ := exists_sign_of_afterSign cs
    obtain ⟨ds, hafter, hds⟩ := exists_digits_of_skipDigits h
    refine ⟨e :: sign ++ ds, ?_, .some he hsign hds⟩
    rw [hcs, hafter]
    simp
  unfold skipExponent at h
  split at h
  · exact hsome (Or.inl rfl) h
  · exact hsome (Or.inr rfl) h
  · cases h
    exact ⟨[], rfl, .none⟩

/-- What is passed over as a number, after its sign, is a number with any sign. -/
theorem exists_literal_of_skipNumber (h : skipNumber cs = .ok ((), rest)) :
    ∃ ds, cs = ds ++ rest ∧ ∀ sign, sign = [] ∨ sign = ['-'] → Literal (sign ++ ds) := by
  obtain ⟨⟨⟩, mid, hwhole, h⟩ := Reader.bind_eq_ok.mp h
  obtain ⟨⟨⟩, mid', hfraction, hexponent⟩ := Reader.bind_eq_ok.mp h
  obtain ⟨whole, n, rfl, hnumeral⟩ := exists_numeral_of_skipWhole hwhole
  obtain ⟨fraction, rfl, hpoint⟩ := exists_fraction_of_skipFraction hfraction
  obtain ⟨exponent, rfl, hletter⟩ := exists_exponent_of_skipExponent hexponent
  refine ⟨whole ++ fraction ++ exponent, by simp, fun sign hsign => ?_⟩
  have hliteral := Literal.mk hsign hnumeral hpoint hletter
  simpa using hliteral

theorem exists_digits_of_digitsWithin {limit : Nat} :
    ∀ {cs : List Char} {n m : Nat}, n ≤ limit → digitsWithin limit n cs = (m, rest) →
      m ≤ limit ∧ ∃ ds, cs = ds ++ rest ∧ (∀ c ∈ ds, c.isDigit = true) ∧
        Nat.ofDigitChars 10 ds n = m := by
  intro cs
  induction cs with
  | nil =>
    intro n m hn h
    obtain ⟨rfl, rfl⟩ := Prod.mk.inj h
    exact ⟨hn, [], rfl, fun _ hc => absurd hc List.not_mem_nil, rfl⟩
  | cons c cs ih =>
    intro n m hn h
    rw [digitsWithin] at h
    split_ifs at h with hc
    · obtain ⟨hm, ds, rfl, hds, hvalue⟩ := ih hc.2 h
      refine ⟨hm, c :: ds, rfl, List.forall_mem_cons.mpr ⟨hc.1, hds⟩, ?_⟩
      rw [Nat.ofDigitChars_cons, Nat.mul_comm]
      exact hvalue
    · obtain ⟨rfl, rfl⟩ := Prod.mk.inj h
      exact ⟨hn, [], rfl, fun _ hc => absurd hc List.not_mem_nil, rfl⟩

end BlobStore.Json
