import BlobStore.Proofs.Json.Taken

/-!
# What readers answer

`Reader.Ensures` says of a reader that whatever it answers has a property, on every text.  It is
proved along the definition of the reader.  A fraction or an exponent makes every number a
floating-point number, so that a natural number has been read from its digits, and it fits into 64
bits (`exists_numeral_of_readNatural`).
-/

namespace BlobStore.Json

variable {α β : Type} {P : α → Prop} {Q : β → Prop}

/-- What a reader answers has a property. -/
def Reader.Ensures (x : Reader α) (P : α → Prop) : Prop :=
  ∀ cs a rest, x cs = .ok (a, rest) → P a

namespace Reader.Ensures

theorem pure {a : α} (ha : P a) : (Pure.pure a : Reader α).Ensures P := by
  intro cs a' rest h
  cases h
  exact ha

theorem stop (fault : Fault) : (Reader.stop fault : Reader α).Ensures P :=
  fun _ _ _ h => by cases h

theorem stopAhead (fault : Fault) : (Reader.stopAhead fault : Reader α).Ensures P :=
  fun _ _ _ h => by cases h

/-- What is answered in the end depends on what has been answered before. -/
theorem bind {x : Reader α} {f : α → Reader β} (hx : x.Ensures P) (hf : ∀ a, P a → (f a).Ensures Q) :
    (x >>= f).Ensures Q := by
  intro cs b rest h
  obtain ⟨a, mid, ha, hb⟩ := Reader.bind_eq_ok.mp h
  exact hf a (hx _ _ _ ha) _ _ _ hb

/-- Whatever has been answered before, the same is ensured in the end. -/
theorem after {x : Reader α} {f : α → Reader β} (hf : ∀ a, (f a).Ensures Q) :
    (x >>= f).Ensures Q :=
  bind (P := fun _ => True) (fun _ _ _ _ => trivial) fun a _ => hf a

theorem ite {c : Prop} [Decidable c] {x y : Reader α} (hx : x.Ensures P) (hy : y.Ensures P) :
    (if c then x else y).Ensures P := by
  split_ifs
  · exact hx
  · exact hy

end Reader.Ensures

/-! ## Numbers -/

/-- A fraction or an exponent makes every number a floating-point number. -/
def Number.IsFloat (x : Number) : Prop := ∃ y, x = .float y

theorem ensures_floatOf (negative : Bool) (n : Nat) (exponent : Int) :
    (floatOf negative n exponent).Ensures Number.IsFloat := by
  have hfloat (x : Float) : (pure (.float x) : Reader Number).Ensures Number.IsFloat :=
    .pure ⟨x, rfl⟩
  unfold floatOf
  exact .ite (hfloat _) (.ite (.ite (hfloat _) (.stop _)) (.ite (.stop _) (hfloat _)))

theorem ensures_exponentPart (negative : Bool) (n : Nat) (before : Int) :
    (exponentPart negative n before).Ensures Number.IsFloat := by
  unfold exponentPart
  refine .after fun down => .after fun cs => ?_
  split
  · exact .stop _
  · refine .ite (.stopAhead _) ?_
    exact .ite (.ite (.after fun _ => .stop _) (.after fun _ => .pure ⟨_, rfl⟩))
      (.after fun _ => ensures_floatOf _ _ _)

theorem ensures_afterFraction (negative : Bool) (n : Nat) (exponent : Int) :
    (afterFraction negative n exponent).Ensures Number.IsFloat := by
  unfold afterFraction
  refine .after fun cs => ?_
  split
  · exact .after fun _ => ensures_exponentPart _ _ _
  · exact .after fun _ => ensures_exponentPart _ _ _
  · exact ensures_floatOf _ _ _

theorem ensures_fractionPart (negative : Bool) (n : Nat) (before : Int) :
    (fractionPart negative n before).Ensures Number.IsFloat := by
  unfold fractionPart
  refine .after fun cs => ?_
  exact .ite (.after fun _ => ensures_afterFraction _ _ _)
    (.ite (.ite (.stopAhead _) (.stopAhead _)) (.after fun _ => ensures_afterFraction _ _ _))

theorem ensures_afterLongInteger (negative : Bool) (n : Nat) :
    (afterLongInteger negative n).Ensures Number.IsFloat := by
  unfold afterLongInteger
  refine .after fun cs => ?_
  dsimp only
  split
  · exact .after fun _ => ensures_fractionPart _ _ _
  · exact .after fun _ => ensures_exponentPart _ _ _
  · exact .after fun _ => ensures_exponentPart _ _ _
  · exact .after fun _ => ensures_floatOf _ _ _

/-- Digits that are followed by nothing else are the number itself. -/
theorem eq_of_afterInteger {negative : Bool} {n m : Nat} {cs rest : List Char}
    (h : afterInteger negative n cs = .ok (.natural m, rest)) :
    negative = false ∧ n = m ∧ cs = rest := by
  have hnever {x : Reader Number} (hx : x.Ensures Number.IsFloat) {cs : List Char} :
      x cs ≠ .ok (.natural m, rest) := by
    intro hx'
    obtain ⟨y, hy⟩ := hx _ _ _ hx'
    cases hy
  obtain ⟨cs', mid, hget, h⟩ := Reader.bind_eq_ok.mp h
  obtain ⟨rfl, rfl⟩ := Prod.mk.inj (Except.ok.inj hget)
  split at h
  · exact absurd h (hnever (.after fun _ => ensures_fractionPart _ _ _))
  · exact absurd h (hnever (.after fun _ => ensures_exponentPart _ _ _))
  · exact absurd h (hnever (.after fun _ => ensures_exponentPart _ _ _))
  · cases negative with
    | false =>
      cases h
      exact ⟨rfl, rfl, rfl⟩
    | true =>
      rw [Bool.not_true, if_neg Bool.false_ne_true] at h
      split_ifs at h
      · cases h
      · cases h

/-- A natural number is read from its numeral, and has no sign. -/
theorem exists_numeral_of_readNumber {negative : Bool} {n : Nat} {cs rest : List Char}
    (h : readNumber negative cs = .ok (.natural n, rest)) :
    negative = false ∧ n ≤ maxNatural ∧ ∃ ds, cs = ds ++ rest ∧ Numeral ds n := by
  obtain ⟨cs', mid, hget, h⟩ := Reader.bind_eq_ok.mp h
  obtain ⟨rfl, rfl⟩ := Prod.mk.inj (Except.ok.inj hget)
  split at h
  · cases h
  · next cs =>
    -- no digit follows a zero
    obtain ⟨⟨⟩, mid, hset, h⟩ := Reader.bind_eq_ok.mp h
    obtain ⟨-, rfl⟩ := Prod.mk.inj (Except.ok.inj hset)
    split_ifs at h
    · cases h
    · obtain ⟨rfl, rfl, rfl⟩ := eq_of_afterInteger h
      exact ⟨rfl, Nat.zero_le _, ['0'], rfl, numeral_toDigits 0⟩
  · next hzero =>
    split_ifs at h with hahead
    · cases h
    · obtain ⟨hle, ds, hcs, hdigits, hvalue⟩ := exists_digits_of_digitsWithin (Nat.zero_le _)
        (rfl : digitsWithin maxNatural 0 cs = ((digitsWithin maxNatural 0 cs).1, _))
      obtain ⟨⟨⟩, mid, hset, h⟩ := Reader.bind_eq_ok.mp h
      obtain ⟨-, rfl⟩ := Prod.mk.inj (Except.ok.inj hset)
      split_ifs at h with hmore
      · -- with the next digit the number is too large for an integer
        obtain ⟨y, hy⟩ := ensures_afterLongInteger _ _ _ _ _ h
        cases hy
      · obtain ⟨rfl, rfl, rfl⟩ := eq_of_afterInteger h
        refine ⟨rfl, hle, ds, hcs, hdigits, Or.inr ?_, hvalue⟩
        cases ds with
        | nil =>
          rw [List.nil_append] at hcs
          rw [← hcs] at hmore
          exact absurd (by simpa using hahead) hmore
        | cons c ds => exact ⟨c, ds, rfl, fun hc => hzero (ds ++ _) (by rw [hcs, hc]; rfl)⟩

theorem ensures_unexpected (expected : String) : (unexpected expected : Reader α).Ensures P := by
  unfold unexpected
  refine .after fun c => ?_
  split
  · exact .after fun _ => .after fun _ => .stop _
  · exact .after fun _ => .after fun _ => .stop _
  · exact .after fun _ => .after fun _ => .stop _
  · exact .after fun _ => .after fun _ => .stop _
  · exact .after fun _ => .after fun _ => .stop _
  · exact .stop _
  · exact .stop _
  · split_ifs
    · exact .after fun _ => .stop _
    · exact .stopAhead _

/-- Where a natural number is expected nothing else is read. -/
theorem exists_numeral_of_readNatural {expected : String} {n : Nat} {cs rest : List Char}
    (h : readNatural expected cs = .ok (n, rest)) :
    n ≤ maxNatural ∧ ∃ gap ds, cs = gap ++ ds ++ rest ∧ Gap gap ∧ Numeral ds n := by
  obtain ⟨c, mid, hstart, h⟩ := Reader.bind_eq_ok.mp h
  obtain ⟨gap, tail, hgap, rfl, rfl⟩ := exists_of_valueStart hstart
  split_ifs at h
  · obtain ⟨⟨⟩, mid, -, h⟩ := Reader.bind_eq_ok.mp h
    obtain ⟨x, mid', hnumber, h⟩ := Reader.bind_eq_ok.mp h
    cases x with
    | natural m => cases (exists_numeral_of_readNumber hnumber).1
    | negative m => cases h
    | float x => cases h
  · obtain ⟨x, mid', hnumber, h⟩ := Reader.bind_eq_ok.mp h
    cases x with
    | natural m =>
      cases h
      obtain ⟨-, hle, ds, hcs, hnumeral⟩ := exists_numeral_of_readNumber hnumber
      exact ⟨hle, gap, ds, by rw [hcs, List.append_assoc], hgap, hnumeral⟩
    | negative m => cases h
    | float x => cases h
  · exact (ensures_unexpected expected (P := fun _ => False) _ _ _ h).elim

/-- A natural number that is read fits into 64 bits. -/
theorem ensures_readNatural (expected : String) :
    (readNatural expected).Ensures (· ≤ maxNatural) :=
  fun _ _ _ h => (exists_numeral_of_readNatural h).1

end BlobStore.Json
