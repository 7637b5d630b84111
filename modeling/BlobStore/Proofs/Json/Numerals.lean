import BlobStore.Proofs.Json.Reading

/-!
# Reading natural numbers back

A numeral is a list of decimal digits without zeros in front.  It is read as its value, as long
as the value fits into 64 bits and ends where the numeral does (`Apart`): a further digit, a point
or an exponent would make it another number.  What is written for a number is its numeral
(`numeral_toDigits`).
-/

namespace BlobStore.Json

variable {ds gap rest : List Char} {n : Nat}

/-- What may follow a number: the end of the text, or a character that is no part of a number. -/
def Apart (rest : List Char) : Prop :=
  ∀ c ∈ rest.head?, c.isDigit = false ∧ c ≠ '.' ∧ c ≠ 'e' ∧ c ≠ 'E'

/-- The decimal digits of a number, without zeros in front. -/
structure Numeral (ds : List Char) (n : Nat) : Prop where
  isDigit : ∀ c ∈ ds, c.isDigit = true
  lead : ds = ['0'] ∨ ∃ c cs, ds = c :: cs ∧ c ≠ '0'
  value : Nat.ofDigitChars 10 ds 0 = n

/-! ## Digits -/

theorem le_ofDigitChars (ds : List Char) : ∀ n, n ≤ Nat.ofDigitChars 10 ds n := by
  induction ds with
  | nil => simp
  | cons c ds ih =>
    intro n
    rw [Nat.ofDigitChars_cons]
    calc
      n ≤ 10 * n + (c.toNat - '0'.toNat) := by omega
      _ ≤ _ := ih _

/-- Digits are taken up to the first character that is none, if their value is small enough. -/
theorem digitsWithin_append {limit : Nat} (hrest : digitAhead rest = false)
    (hds : ∀ c ∈ ds, c.isDigit = true) : ∀ {n : Nat}, Nat.ofDigitChars 10 ds n ≤ limit →
      digitsWithin limit n (ds ++ rest) = (Nat.ofDigitChars 10 ds n, rest) := by
  induction ds with
  | nil =>
    intro n _
    rw [List.nil_append, Nat.ofDigitChars_nil]
    cases rest with
    | nil => rfl
    | cons c rest =>
      have hc : ¬ (c.isDigit = true ∧ n * 10 + digitValue c ≤ limit) := by
        rintro ⟨hdigit, -⟩
        rw [digitAhead, hdigit] at hrest
        exact absurd hrest (by decide)
      rw [digitsWithin]
      exact if_neg hc
  | cons c ds ih =>
    intro n hn
    rw [Nat.ofDigitChars_cons] at hn
    have hvalue : n * 10 + digitValue c = 10 * n + (c.toNat - '0'.toNat) := by
      rw [digitValue, Nat.mul_comm]
    have hle : n * 10 + digitValue c ≤ limit := by
      rw [hvalue]
      exact Nat.le_trans (le_ofDigitChars ds _) hn
    rw [List.cons_append, digitsWithin, Nat.ofDigitChars_cons, ← hvalue]
    refine (if_pos ⟨hds c List.mem_cons_self, hle⟩).trans
      (ih (fun c' hc' => hds c' (List.mem_cons_of_mem _ hc')) ?_)
    rw [hvalue]
    exact hn

/-! ## What is written -/

theorem toDigits_lead (n : Nat) :
    Nat.toDigits 10 n = ['0'] ∨ ∃ c cs, Nat.toDigits 10 n = c :: cs ∧ c ≠ '0' := by
  induction n using Nat.strongRecOn with
  | ind n ih =>
    by_cases hsmall : n < 10
    · rw [Nat.toDigits_of_lt_base hsmall]
      by_cases hzero : n = 0
      · exact Or.inl (by rw [hzero]; rfl)
      · exact Or.inr ⟨_, _, rfl, by simpa using hzero⟩
    · rw [Nat.toDigits_of_base_le (by decide) (by omega)]
      -- the first digit is that of a tenth, which is not zero
      rcases ih (n / 10) (by omega) with hzero | ⟨c, cs, heq, hc⟩
      · have hvalue := Nat.ofDigitChars_ten_toDigits (n := n / 10)
        rw [hzero] at hvalue
        exact absurd (show 0 = n / 10 from hvalue) (by omega)
      · exact Or.inr ⟨c, _, by rw [heq, List.cons_append], hc⟩

theorem numeral_toDigits (n : Nat) : Numeral (Nat.toDigits 10 n) n where
  isDigit _ hc := Nat.isDigit_of_mem_toDigits (by decide) (by decide) hc
  lead := toDigits_lead n
  value := Nat.ofDigitChars_ten_toDigits

/-! ## Reading -/

theorem Apart.digitAhead (h : Apart rest) : digitAhead rest = false := by
  cases rest with
  | nil => rfl
  | cons c cs => exact (h c rfl).1

theorem Apart.afterInteger (h : Apart rest) (n : Nat) :
    afterInteger false n rest = .ok (.natural n, rest) := by
  rw [Json.afterInteger, Reader.bind_of_ok (x := get) rfl]
  split
  · exact absurd rfl (h _ rfl).2.1
  · exact absurd rfl (h _ rfl).2.2.1
  · exact absurd rfl (h _ rfl).2.2.2
  · rfl

theorem isBlank_of_isDigit {c : Char} (hc : c.isDigit = true) : isBlank c = false := by
  rw [← Bool.not_eq_true]
  intro hblank
  have hcases : c = ' ' ∨ c = '\n' ∨ c = '\t' ∨ c = '\r' := by
    simpa [isBlank, or_assoc] using hblank
  rcases hcases with rfl | rfl | rfl | rfl <;> exact absurd hc (by decide)

namespace Numeral

variable (h : Numeral ds n) (hn : n ≤ maxNatural) (hrest : Apart rest)

include h hn hrest

theorem readNumber : readNumber false (ds ++ rest) = .ok (.natural n, rest) := by
  rw [Json.readNumber, Reader.bind_of_ok (x := get) rfl]
  rcases h.lead with rfl | ⟨c, cs, rfl, hc⟩
  · obtain rfl : 0 = n := h.value
    show (if digitAhead rest then _ else Json.afterInteger false 0) rest = _
    rw [hrest.digitAhead]
    exact hrest.afterInteger 0
  · have hdigits : digitsWithin maxNatural 0 (c :: cs ++ rest) = (n, rest) := by
      rw [digitsWithin_append hrest.digitAhead h.isDigit (h.value.trans_le hn), h.value]
    have hahead : Json.digitAhead (c :: cs ++ rest) = true := h.isDigit c List.mem_cons_self
    generalize htext : c :: cs ++ rest = text at hdigits hahead ⊢
    split
    · exact absurd htext (by simp)
    · exact absurd (List.cons_eq_cons.mp htext).1 hc
    · rw [hahead, if_neg (by decide), hdigits]
      show (if Json.digitAhead rest then _ else Json.afterInteger false n) rest = _
      rw [hrest.digitAhead]
      exact hrest.afterInteger n

theorem readNatural (hgap : Gap gap) (expected : String) :
    readNatural expected (gap ++ ds ++ rest) = .ok (n, rest) := by
  obtain ⟨c, cs, hds⟩ : ∃ c cs, ds = c :: cs := by
    rcases h.lead with hzero | ⟨c, cs, heq, -⟩
    · exact ⟨_, _, hzero⟩
    · exact ⟨c, cs, heq⟩
  have hc : c.isDigit = true := h.isDigit c (hds ▸ List.mem_cons_self)
  have hminus : c ≠ '-' := by
    rintro rfl
    exact absurd hc (by decide)
  have hstart : valueStart (gap ++ ds ++ rest) = .ok (c, ds ++ rest) := by
    rw [hds, List.append_assoc, List.cons_append]
    exact valueStart_append hgap (isBlank_of_isDigit hc) _
  rw [Json.readNatural, Reader.bind_of_ok hstart, if_neg hminus, if_pos hc,
    Reader.bind_of_ok (h.readNumber hn hrest)]
  rfl

end Numeral

end BlobStore.Json
