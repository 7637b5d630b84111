import BlobStore.Path.Basic
import Mathlib.Data.List.Infix
import Mathlib.Tactic.Common

/-!
# Pieces between separators

System calls skip the empty parts of a path, and so does a placement when it looks
for its directories.  `pieces` is what both are left with.

Keys are cut at the *character* `/` and paths at the *byte* `0x2F`.  The two agree
because UTF-8 uses that byte for no other character (`slash_mem_utf8EncodeChar`), so
cutting commutes with encoding (`parts_encode`, `pieces_encode`).
-/

namespace BlobStore.Text

variable {α : Type} [DecidableEq α]

/-- The parts of a list between the occurrences of a separator that are not empty. -/
def pieces (sep : α) (cs : List α) : List (List α) := (parts sep cs).filter (!·.isEmpty)

/-! ## Cutting a joined list -/

theorem parts_append_cons (sep : α) (xs ys : List α) :
    parts sep (xs ++ sep :: ys) = parts sep xs ++ parts sep ys := by
  induction xs with
  | nil => simp
  | cons c xs ih =>
    by_cases hc : c = sep
    · subst hc
      rw [List.cons_append, parts_cons_self, parts_cons_self, ih, List.cons_append]
    · obtain ⟨p, ps, hp, hcons⟩ := parts_cons_of_ne hc xs
      obtain ⟨q, qs, hq, hcons'⟩ := parts_cons_of_ne hc (xs ++ sep :: ys)
      rw [ih, hp, List.cons_append] at hq
      obtain ⟨rfl, rfl⟩ := List.cons_eq_cons.mp hq
      rw [List.cons_append, hcons', hcons, List.cons_append]

/-- A list without the separator is its only part. -/
theorem parts_of_not_mem {sep : α} {cs : List α} (h : sep ∉ cs) : parts sep cs = [cs] := by
  induction cs with
  | nil => rfl
  | cons c cs ih =>
    rw [List.mem_cons, not_or] at h
    rw [parts, if_neg (Ne.symm h.1), ih h.2]

theorem parts_intercalate {sep : α} {ps : List (List α)} (hne : ps ≠ [])
    (h : ∀ p ∈ ps, sep ∉ p) : parts sep ([sep].intercalate ps) = ps := by
  induction ps with
  | nil => exact absurd rfl hne
  | cons p ps ih =>
    have hp : sep ∉ p := h p List.mem_cons_self
    cases ps with
    | nil => simpa using parts_of_not_mem hp
    | cons q qs =>
      rw [List.intercalate_cons_cons, List.append_assoc, List.singleton_append,
        parts_append_cons, parts_of_not_mem hp,
        ih (by simp) fun r hr => h r (List.mem_cons_of_mem _ hr), List.singleton_append]

omit [DecidableEq α] in
theorem mem_intercalate {sep c : α} {ps : List (List α)} (h : c ∈ [sep].intercalate ps) :
    c = sep ∨ ∃ p ∈ ps, c ∈ p := by
  induction ps with
  | nil => simp at h
  | cons p ps ih =>
    cases ps with
    | nil => exact Or.inr ⟨p, by simp, by simpa using h⟩
    | cons q qs =>
      rw [List.intercalate_cons_cons, List.append_assoc, List.mem_append, List.mem_append,
        List.mem_singleton] at h
      rcases h with hp | hsep | hrest
      · exact Or.inr ⟨p, by simp, hp⟩
      · exact Or.inl hsep
      · rcases ih hrest with hsep | ⟨r, hmem, hc⟩
        · exact Or.inl hsep
        · exact Or.inr ⟨r, List.mem_cons_of_mem _ hmem, hc⟩

@[simp] theorem pieces_nil (sep : α) : pieces sep [] = [] := rfl

theorem pieces_append_cons (sep : α) (xs ys : List α) :
    pieces sep (xs ++ sep :: ys) = pieces sep xs ++ pieces sep ys := by
  rw [pieces, parts_append_cons, List.filter_append]
  rfl

@[simp] theorem pieces_cons_self (sep : α) (cs : List α) :
    pieces sep (sep :: cs) = pieces sep cs := by
  simp [pieces]

/-- A separator at the end makes no further piece. -/
theorem pieces_append_self (sep : α) (cs : List α) :
    pieces sep (cs ++ [sep]) = pieces sep cs := by
  simpa using pieces_append_cons sep cs []

theorem pieces_of_not_mem {sep : α} {cs : List α} (hne : cs ≠ []) (h : sep ∉ cs) :
    pieces sep cs = [cs] := by
  simp [pieces, parts_of_not_mem h, hne]

/-- The last part of a list is its last piece, unless the list ends in a separator. -/
theorem getLast?_pieces {sep : α} {cs p : List α} (h : (parts sep cs).getLast? = some p)
    (hne : p ≠ []) : (pieces sep cs).getLast? = some p := by
  obtain ⟨front, hfront⟩ := List.getLast?_eq_some_iff.mp h
  have hkept : [p].filter (!·.isEmpty) = [p] := by simp [hne]
  rw [pieces, hfront, List.filter_append, hkept, List.getLast?_concat]

theorem getLast?_ne_of_parts {sep : α} {cs p : List α} (h : (parts sep cs).getLast? = some p)
    (hne : p ≠ []) : cs.getLast? ≠ some sep := by
  intro hsep
  obtain ⟨front, rfl⟩ := List.getLast?_eq_some_iff.mp hsep
  rw [parts_append_cons, parts_nil, List.getLast?_concat] at h
  exact hne (Option.some.inj h).symm

theorem ne_nil_of_mem_pieces {sep : α} {cs p : List α} (h : p ∈ pieces sep cs) : p ≠ [] := by
  have := (List.mem_filter.mp h).2
  simpa using this

theorem not_mem_of_mem_pieces {sep : α} {cs p : List α} (h : p ∈ pieces sep cs) : sep ∉ p :=
  not_mem_of_mem_parts (List.mem_filter.mp h).1

/-- Cutting takes away the separators and nothing else. -/
theorem flatten_pieces (sep : α) (cs : List α) :
    (pieces sep cs).flatten = cs.filter (· ≠ sep) := by
  have hparts : (parts sep cs).flatten = cs.filter (· ≠ sep) := by
    induction cs with
    | nil => rfl
    | cons c cs ih =>
      by_cases hc : c = sep
      · subst hc
        simp [ih]
      · obtain ⟨q, qs, hq, hcs⟩ := parts_cons_of_ne hc cs
        rw [hcs, List.filter_cons_of_pos (by simpa using hc), ← ih, hq]
        rfl
  rw [← hparts, pieces]
  exact List.flatten_filter_not_isEmpty

/-- Joining puts every piece back where cutting finds it. -/
theorem pieces_intercalate {sep : α} {ps : List (List α)} (h : ∀ p ∈ ps, sep ∉ p) :
    pieces sep ([sep].intercalate ps) = ps.filter (!·.isEmpty) := by
  cases ps with
  | nil => simp
  | cons p ps => rw [pieces, parts_intercalate (by simp) h]

omit [DecidableEq α] in
/-- What is cut off at the end of a joined list leaves a beginning of it. -/
theorem isPrefix_intercalate (sep : List α) (ps qs : List (List α)) :
    sep.intercalate ps <+: sep.intercalate (ps ++ qs) := by
  induction ps with
  | nil => simp
  | cons p ps ih =>
    cases ps with
    | nil =>
      cases qs with
      | nil => simp
      | cons q qs => simp [List.intercalate_cons_cons, List.append_assoc]
    | cons r rs =>
      rw [List.cons_append, List.cons_append, List.intercalate_cons_cons,
        List.intercalate_cons_cons]
      exact (List.prefix_append_right_inj _).mpr ih

/-! ## Characters and bytes -/

theorem fromUTF8?_toUTF8 (s : String) : String.fromUTF8? s.toUTF8 = some s := by
  unfold String.fromUTF8?
  exact dif_pos s.isValidUTF8

theorem toUTF8_of_fromUTF8? {b : ByteArray} {s : String} (h : String.fromUTF8? b = some s) :
    s.toUTF8 = b := by
  unfold String.fromUTF8? at h
  split_ifs at h
  cases h
  rfl

/-- The UTF-8 bytes of some characters. -/
def encode (cs : List Char) : List UInt8 := cs.flatMap String.utf8EncodeChar

@[simp] theorem encode_nil : encode [] = [] := rfl

@[simp] theorem encode_cons (c : Char) (cs : List Char) :
    encode (c :: cs) = String.utf8EncodeChar c ++ encode cs := rfl

@[simp] theorem encode_append (cs ds : List Char) : encode (cs ++ ds) = encode cs ++ encode ds :=
  List.flatMap_append

@[simp] theorem encode_eq_nil {cs : List Char} : encode cs = [] ↔ cs = [] := by
  cases cs <;> simp

theorem length_encode {cs : List Char} (h : ∀ c ∈ cs, (String.utf8EncodeChar c).length = 1) :
    (encode cs).length = cs.length := by
  induction cs with
  | nil => rfl
  | cons c cs ih =>
    rw [encode_cons, List.length_append, h c List.mem_cons_self,
      ih fun c hc => h c (List.mem_cons_of_mem _ hc), List.length_cons, Nat.add_comm]

theorem not_mem_encode {cs : List Char} {b : UInt8} (h : ∀ c ∈ cs, b ∉ String.utf8EncodeChar c) :
    b ∉ encode cs := by
  rw [encode, List.mem_flatMap]
  rintro ⟨c, hc, hb⟩
  exact h c hc hb

theorem utf8EncodeChar_slash : String.utf8EncodeChar '/' = [Path.slash] := rfl

/-- Only the slash has the byte of the slash in its encoding. -/
theorem slash_mem_utf8EncodeChar (c : Char) : Path.slash ∈ String.utf8EncodeChar c ↔ c = '/' := by
  have hchar : c = '/' ↔ c.val.toNat = 0x2F := by
    constructor
    · rintro rfl
      rfl
    · intro h
      exact Char.ext (UInt32.toNat_inj.1 h)
  have hbyte (n : Nat) : Path.slash = UInt8.ofNat n ↔ n % 256 = 0x2F := by
    rw [← UInt8.toNat_inj, UInt8.toNat_ofNat']
    exact eq_comm
  rw [hchar]
  unfold String.utf8EncodeChar
  dsimp only
  -- the bytes of longer encodings all have their highest bit set
  split_ifs <;> simp only [List.mem_cons, List.not_mem_nil, or_false, hbyte] <;> omega

/-- A byte string without slashes joins the first part of what follows it. -/
private theorem parts_append_of_not_mem {sep : α} {xs : List α} (h : sep ∉ xs) (ys p : List α)
    (ps : List (List α)) (hys : parts sep ys = p :: ps) :
    parts sep (xs ++ ys) = (xs ++ p) :: ps := by
  induction xs with
  | nil => simpa using hys
  | cons x xs ih =>
    rw [List.mem_cons, not_or] at h
    rw [List.cons_append, parts, if_neg (Ne.symm h.1), ih h.2]
    rfl

/-- Cutting encoded text at the byte of the slash is cutting the text at slashes. -/
theorem parts_encode (cs : List Char) :
    parts Path.slash (encode cs) = (parts '/' cs).map encode := by
  induction cs with
  | nil => rfl
  | cons c cs ih =>
    by_cases hc : c = '/'
    · subst hc
      rw [encode_cons, utf8EncodeChar_slash, List.singleton_append, parts_cons_self,
        parts_cons_self, ih, List.map_cons, encode_nil]
    · obtain ⟨p, ps, hp, hcons⟩ := parts_cons_of_ne hc cs
      have hbytes : Path.slash ∉ String.utf8EncodeChar c :=
        fun h => hc ((slash_mem_utf8EncodeChar c).mp h)
      rw [encode_cons, hcons]
      rw [hp, List.map_cons] at ih
      exact parts_append_of_not_mem hbytes _ _ _ ih

theorem pieces_encode (cs : List Char) :
    pieces Path.slash (encode cs) = (pieces '/' cs).map encode := by
  rw [pieces, pieces, parts_encode, List.filter_map]
  congr 1
  apply List.filter_congr
  intro p _
  cases p <;> simp

end BlobStore.Text
