import BlobStore.Json.Value
import BlobStore.Proofs.Json.Spelling
import Mathlib.Data.List.TakeWhile

/-!
# Reading values back

What each reader takes off the front of a text.  Blanks may stand before a value, and what
follows it is left, so that readers can be put one after the other.  Only the end of a number
depends on what follows, so numbers are no part of this module.
-/

namespace BlobStore.Json

variable {α β : Type} {gap rest : List Char}

/-- A reader that has taken something lets the next one begin there. -/
theorem Reader.bind_of_ok {x : Reader α} {f : α → Reader β} {cs : List Char} {a : α}
    (h : x cs = .ok (a, rest)) : (x >>= f) cs = f a rest := by
  show (x cs >>= fun p => f p.1 p.2) = f a rest
  rw [h]
  rfl

/-- A reader that has gone on has first taken something. -/
theorem Reader.bind_eq_ok {x : Reader α} {f : α → Reader β} {cs : List Char} {b : β} :
    (x >>= f) cs = .ok (b, rest) ↔ ∃ a mid, x cs = .ok (a, mid) ∧ f a mid = .ok (b, rest) := by
  constructor
  · intro h
    rcases hx : x cs with e | ⟨a, mid⟩
    · have herror : (x >>= f) cs = .error e := by
        show (x cs >>= fun p => f p.1 p.2) = .error e
        rw [hx]
        rfl
      rw [herror] at h
      cases h
    · rw [bind_of_ok hx] at h
      exact ⟨a, mid, rfl, h⟩
  · rintro ⟨a, mid, hx, h⟩
    rw [bind_of_ok hx, h]

/-! ## Blanks and words -/

/-- Blanks, or nothing. -/
def Gap (cs : List Char) : Prop := ∀ c ∈ cs, isBlank c = true

theorem gap_nil : Gap [] := fun _ h => absurd h List.not_mem_nil

theorem Gap.append {cs : List Char} (h : Gap gap) (h' : Gap cs) : Gap (gap ++ cs) := by
  intro c hc
  rcases List.mem_append.mp hc with hc | hc
  · exact h c hc
  · exact h' c hc

theorem blanks_append (hgap : Gap gap) {c : Char} (hc : isBlank c = false) (rest : List Char) :
    blanks (gap ++ c :: rest) = .ok (some c, c :: rest) := by
  have hdrop : (gap ++ c :: rest).dropWhile isBlank = c :: rest := by
    rw [List.dropWhile_append_of_pos hgap, List.dropWhile_cons_of_neg (by simp [hc])]
  rw [blanks, hdrop]
  rfl

theorem blanks_of_gap (hgap : Gap gap) : blanks gap = .ok (none, []) := by
  have hdrop : gap.dropWhile isBlank = [] := List.dropWhile_eq_nil_iff.mpr hgap
  rw [blanks, hdrop]
  rfl

theorem valueStart_append (hgap : Gap gap) {c : Char} (hc : isBlank c = false)
    (rest : List Char) : valueStart (gap ++ c :: rest) = .ok (c, c :: rest) := by
  rw [valueStart, Reader.bind_of_ok (blanks_append hgap hc rest)]
  rfl

theorem colon_append (hgap : Gap gap) (rest : List Char) :
    colon (gap ++ ':' :: rest) = .ok ((), rest) := by
  rw [colon, Reader.bind_of_ok (blanks_append hgap rfl rest)]
  rfl

theorem word_append (w rest : List Char) : word w (w ++ rest) = .ok ((), rest) := by
  induction w with
  | nil => rfl
  | cons c w ih =>
    rw [List.cons_append, word]
    dsimp only
    rw [if_pos rfl, ih]

/-! ## Strings and truth values -/

section strings

variable (hgap : Gap gap) {w : List Char} {s : String} (hw : Spells w s.toList)
  (rest : List Char)

include hgap hw

theorem readString_append (expected : String) :
    readString expected (gap ++ '"' :: w ++ '"' :: rest) = .ok (s, rest) := by
  rw [List.append_assoc, List.cons_append, readString,
    Reader.bind_of_ok (valueStart_append hgap rfl _)]
  exact readText_of_spells hw rest

theorem readVariant_append {variants : List (String × α)} {a : α}
    (ha : variants.lookup s = some a) :
    readVariant variants (gap ++ '"' :: w ++ '"' :: rest) = .ok (a, rest) := by
  have hname : readName variants ('"' :: w ++ '"' :: rest) = .ok (a, rest) := by
    have hstring : readString "variant identifier" ('"' :: w ++ '"' :: rest) = .ok (s, rest) :=
      readString_append gap_nil hw rest _
    rw [readName, Reader.bind_of_ok hstring, ha]
    rfl
  rw [List.append_assoc, List.cons_append, readVariant,
    Reader.bind_of_ok (blanks_append hgap rfl _)]
  exact hname

end strings

theorem readBoolean_append (hgap : Gap gap) (b : Bool) (expected : String) (rest : List Char) :
    readBoolean expected (gap ++ (Scalar.boolean b).write ++ rest) = .ok (b, rest) := by
  cases b with
  | true =>
    rw [List.append_assoc, Scalar.write, List.cons_append, readBoolean,
      Reader.bind_of_ok (valueStart_append hgap rfl _)]
    exact (Reader.bind_of_ok rfl).trans (Reader.bind_of_ok (word_append ['r', 'u', 'e'] rest))
  | false =>
    rw [List.append_assoc, Scalar.write, List.cons_append, readBoolean,
      Reader.bind_of_ok (valueStart_append hgap rfl _)]
    exact (Reader.bind_of_ok rfl).trans (Reader.bind_of_ok (word_append ['a', 'l', 's', 'e'] rest))

end BlobStore.Json
