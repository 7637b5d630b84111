/-!
# Cutting a text at a separator

`parts` cuts a list at every occurrence of a separator, so that joining the
pieces with that separator gives the list back (`intercalate_parts`) and no
piece holds the separator (`not_mem_of_mem_parts`).  Keys and paths are both
cut at `/` with it.
-/

namespace BlobStore.Text

variable {α : Type} [DecidableEq α]

/-- The pieces of a list between the occurrences of a separator; there is
always one piece more than there are separators. -/
def parts (sep : α) : List α → List (List α)
  | [] => [[]]
  | c :: cs =>
    if c = sep then [] :: parts sep cs
    else
      match parts sep cs with
      | [] => [[c]]
      | p :: ps => (c :: p) :: ps

@[simp] theorem parts_nil (sep : α) : parts sep [] = [[]] := rfl

@[simp] theorem parts_cons_self (sep : α) (cs : List α) :
    parts sep (sep :: cs) = [] :: parts sep cs := by
  simp [parts]

theorem parts_ne_nil (sep : α) (cs : List α) : parts sep cs ≠ [] := by
  cases cs with
  | nil => simp
  | cons c cs =>
    unfold parts
    split
    · simp
    · split <;> simp

/-- A character other than the separator joins the first piece. -/
theorem parts_cons_of_ne {sep c : α} (h : c ≠ sep) (cs : List α) :
    ∃ p ps, parts sep cs = p :: ps ∧ parts sep (c :: cs) = (c :: p) :: ps := by
  cases hps : parts sep cs with
  | nil => exact absurd hps (parts_ne_nil sep cs)
  | cons p ps => exact ⟨p, ps, rfl, by simp [parts, h, hps]⟩

/-- Nothing is lost: the pieces joined by the separator are the list again. -/
theorem intercalate_parts (sep : α) (cs : List α) :
    [sep].intercalate (parts sep cs) = cs := by
  induction cs with
  | nil => simp
  | cons c cs ih =>
    by_cases h : c = sep
    · subst h
      rw [parts_cons_self]
      cases hps : parts c cs with
      | nil => exact absurd hps (parts_ne_nil c cs)
      | cons p ps => simpa [hps, List.intercalate_cons_cons] using ih
    · obtain ⟨p, ps, hp, hc⟩ := parts_cons_of_ne h cs
      rw [hc]
      rw [hp] at ih
      cases ps with
      | nil => simpa using ih
      | cons q qs => simpa [List.intercalate_cons_cons] using ih

/-- No piece holds the separator. -/
theorem not_mem_of_mem_parts {sep : α} {cs p : List α} (h : p ∈ parts sep cs) : sep ∉ p := by
  induction cs generalizing p with
  | nil =>
    obtain rfl : p = [] := by simpa using h
    simp
  | cons c cs ih =>
    by_cases hc : c = sep
    · subst hc
      rw [parts_cons_self] at h
      rcases List.mem_cons.1 h with rfl | h
      · simp
      · exact ih h
    · obtain ⟨q, qs, hq, hcs⟩ := parts_cons_of_ne hc cs
      rw [hcs] at h
      rcases List.mem_cons.1 h with rfl | h
      · have hqs : sep ∉ q := ih (by simp [hq])
        simp only [List.mem_cons, not_or]
        exact ⟨fun heq => hc heq.symm, hqs⟩
      · exact ih (by simp [hq, h])

end BlobStore.Text
