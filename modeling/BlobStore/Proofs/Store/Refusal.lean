import BlobStore.Proofs.Store.Acceptance
import BlobStore.Proofs.Store.Opening
import BlobStore.Proofs.Store.Removing

/-!
# Refusals from the texts of a placement

Whether a key is refused can be read off the two texts of its placement: the filename lacks a name
at its end (`LacksName`), or one of the texts leads out of the root or begins with a dot
(`Store.Strays`).  Both may be so, and then the missing name is the reason that is given.

A key that is refused is refused by every operation, and by each with the same failure.  The
converse needs that no operation fails like that for another reason.  Which failures an action can
end in is seen from the action without running it (`Action.Fails`): an operation finds the site of
its key first, and after that it fails for no other reasons than the file system and a missing
object (`Store.exists_perform_eq`).
-/

namespace BlobStore

open Text (parts)

/-! ## Texts in quotes -/

/-- A visible ASCII character is quoted as it is, unless it is itself used for quoting. -/
theorem Text.quotedChar_of_visible {c : Char} (hcode : 0x20 ≤ c.toNat ∧ c.toNat < 0x7F)
    (hquote : c ≠ '"') (hbackslash : c ≠ '\\') : quotedChar c = [c] := by
  have hne {e : Char} (he : e.toNat < 0x20) : c ≠ e := by
    rintro rfl
    omega
  rw [quotedChar, if_neg (hne (by decide)), if_neg (hne (by decide)), if_neg (hne (by decide)),
    if_neg (hne (by decide)), if_neg hquote, if_neg hbackslash, if_pos hcode]

/-- A text of such characters stands between quotes as it is. -/
theorem Text.quoted_of_visible {s : String} (h : ∀ c ∈ s.toList,
    (0x20 ≤ c.toNat ∧ c.toNat < 0x7F) ∧ c ≠ '"' ∧ c ≠ '\\') : quoted s = "\"" ++ s ++ "\"" := by
  have hchars : s.toList.flatMap quotedChar = s.toList := by
    rw [List.flatMap_congr fun c hc => quotedChar_of_visible (h c hc).1 (h c hc).2.1 (h c hc).2.2]
    exact List.flatMap_singleton' _
  apply String.toList_injective
  rw [quoted, hchars, String.toList_ofList, String.toList_append, String.toList_append]
  rfl

/-! ## Texts that end in no name -/

/-- A text with nothing after its last slash. -/
def LacksName (text : String) : Prop := text = "" ∨ text.toList.getLast? = some '/'

instance (text : String) : Decidable (LacksName text) := inferInstanceAs (Decidable (_ ∨ _))

/-- The last part is empty if there is nothing at all or the separator is at the end. -/
theorem Text.getLast?_parts_eq_nil {α : Type} [DecidableEq α] {sep : α} {cs : List α} :
    (parts sep cs).getLast? = some [] ↔ cs = [] ∨ cs.getLast? = some sep := by
  constructor
  · intro h
    induction cs with
    | nil => exact Or.inl rfl
    | cons c cs ih =>
      right
      by_cases hc : c = sep
      · subst hc
        rw [parts_cons_self, List.getLast?_cons_of_ne_nil (parts_ne_nil c cs)] at h
        rcases ih h with rfl | hlast
        · rfl
        · rw [List.getLast?_cons, hlast]
          rfl
      · obtain ⟨q, qs, hq, hcons⟩ := parts_cons_of_ne hc cs
        rw [hcons] at h
        -- the character is in the first part, so there is a further one
        cases qs with
        | nil => simp at h
        | cons q' qs =>
          rw [List.getLast?_cons_cons] at h
          rcases ih (by rw [hq, List.getLast?_cons_cons, h]) with rfl | hlast
          · simp at hq
          · rw [List.getLast?_cons, hlast]
            rfl
  · rintro (rfl | h)
    · rfl
    · obtain ⟨front, rfl⟩ := List.getLast?_eq_some_iff.mp h
      rw [parts_append_cons, List.getLast?_append_of_ne_nil _ (parts_ne_nil sep [])]
      rfl

theorem Store.lastPiece_eq_nil {text : String} : lastPiece text = [] ↔ LacksName text := by
  have hempty : text = "" ↔ text.toList = [] := by simp
  rw [LacksName, hempty, ← Text.getLast?_parts_eq_nil, lastPiece]
  cases hlast : (parts '/' text.toList).getLast? with
  | none => exact absurd (List.getLast?_eq_none_iff.mp hlast) (Text.parts_ne_nil '/' _)
  | some part => simp

/-! ## Failures of an action -/

namespace Action

variable {ε ε' α β : Type} {P : ε → Prop}

/-- Every failure in which an action may end satisfies a condition. -/
def Fails (P : ε → Prop) : Action ε α → Prop
  | done _ => True
  | fail e => P e
  | ask _ next => ∀ answer, (next answer).Fails P

namespace Fails

theorem bind {x : Action ε α} {f : α → Action ε β} (hx : x.Fails P) (hf : ∀ a, (f a).Fails P) :
    (x >>= f).Fails P := by
  induction x with
  | done a => exact hf a
  | fail e => exact hx
  | ask r next ih => exact fun answer => ih answer (hx answer)

theorem map (f : α → β) {x : Action ε α} (hx : x.Fails P) : (f <$> x).Fails P := by
  rw [← bind_pure_comp]
  exact hx.bind fun _ => trivial

/-- A failure that is named differently has the new name. -/
theorem mapError {g : ε' → ε} (hg : ∀ e, P (g e)) (x : Action ε' α) : (x.mapError g).Fails P := by
  induction x with
  | done a => trivial
  | fail e => exact hg e
  | ask r next ih => exact ih

theorem attempt (r : Request) : (Action.attempt r : Action ε _).Fails P := fun _ => trivial

/-- A run that fails does so with one of the failures of the action. -/
theorem run {x : Action ε α} (hx : x.Fails P) {d : Disk} {e : ε} (h : (x.run d).1 = .error e) :
    P e := by
  induction x generalizing d with
  | done a => cases h
  | fail e' =>
    cases h
    exact hx
  | ask r next ih => exact ih _ (hx _) h

end Fails

end Action

/-! ## What the operations refuse -/

/-- A failure for which the key is the reason. -/
def StoreError.IsRefusal : StoreError → Prop
  | .invalidKey _ _ => True
  | _ => False

/-- A result that is a refusal of a key. -/
def IsRefusal {α : Type} (result : Except StoreError α) : Prop :=
  ∃ e, result = .error e ∧ e.IsRefusal

/-- The key that an operation is about. -/
def Operation.key? : Operation → Option String
  | has key => some key
  | write key _ => some key
  | read key => some key
  | delete key => some key
  | clear => none

namespace Store

variable {s : Store} {key : String}

instance (p : Placement) : Decidable (Strays p) := inferInstanceAs (Decidable (_ ∨ _))

theorem fails_removing (r : Request) : (removing r).Fails (¬ ·.IsRefusal) := by
  unfold removing
  refine .bind (.attempt r) fun answer => ?_
  split
  · trivial
  · split
    · trivial
    · exact id

/-- An operation on a key finds the site of the key first, and what it does then does not refuse
the key. -/
theorem exists_perform_eq {o : Operation} (ho : o.key? = some key) :
    ∃ rest : Site → Action StoreError Answer,
      s.perform o = Action.ofExcept (s.site key) >>= rest ∧
        ∀ site, (rest site).Fails (¬ ·.IsRefusal) := by
  cases o with
  | has key' =>
    obtain rfl := Option.some.inj ho
    refine ⟨_, map_bind _ _ _, fun site => .map _ (.bind (.attempt _) fun answer => ?_)⟩
    split
    · trivial
    · split
      · trivial
      · exact id
  | write key' source =>
    obtain rfl := Option.some.inj ho
    exact ⟨_, map_bind _ _ _, fun site => .map _ (.mapError (fun _ => id) _)⟩
  | read key' =>
    obtain rfl := Option.some.inj ho
    refine ⟨_, map_bind _ _ _, fun site => .map _ (.bind (.attempt _) fun answer => ?_)⟩
    split
    · trivial
    · exact id
    · split <;> exact id
  | delete key' =>
    obtain rfl := Option.some.inj ho
    refine ⟨_, map_bind _ _ _, fun site => .map _ ?_⟩
    dsimp only
    split <;> exact fails_removing _
  | clear => cases ho

/-- Without a name at the end of the filename this is the reason to refuse the key, whatever the
rest of the placement is like. -/
theorem site_of_refused (h : LacksName (s.layout key).filename ∨ Strays (s.layout key)) :
    s.site key = .error (.invalidKey key
      (if LacksName (s.layout key).filename then .emptyFilename else .outsideRoot)) := by
  unfold site
  dsimp only
  by_cases hlacks : LacksName (s.layout key).filename
  · rw [if_pos (lastPiece_eq_nil.mpr hlacks), if_pos hlacks]
  · have hpiece : lastPiece (s.layout key).filename ≠ [] := lastPiece_eq_nil.not.mpr hlacks
    have hdown : (!leadsDown (s.layout key).pathname ||
        !leadsDown (s.layout key).filename) = true := by
      by_contra hdown
      simp only [Bool.or_eq_true, Bool.not_eq_true', not_or, Bool.not_eq_false] at hdown
      have haccepted : (s.layout key).Accepted := ⟨hpiece, hdown.1, hdown.2⟩
      exact (accepted_iff.mp haccepted).2 (h.resolve_left hlacks)
    rw [if_neg hpiece, if_pos hdown, if_neg hlacks]

theorem exists_site_of_not_refused
    (h : ¬ (LacksName (s.layout key).filename ∨ Strays (s.layout key))) :
    ∃ site, s.site key = .ok site := by
  obtain ⟨hlacks, hstrays⟩ := not_or.mp h
  exact exists_site (accepted_iff.mpr ⟨lastPiece_eq_nil.not.mpr hlacks, hstrays⟩)

/-- **Which keys are refused, and how.**  For every layout a key is refused if and only if the
filename of its placement lacks a name at its end, or one of the two texts begins with a slash or
with the part `.`, or has a part `..`.  That is so of the location and of every operation on the
key, on every disk.

A refusal is the same failure for all of them: it is worded with the key in quotes and with the
missing name as the reason whenever that is one, and it is the whole of the operation, which asks
nothing of the file system.  A write is over before its source is asked for anything, since it ends
in the same way whatever stands in the place of the copy. -/
theorem key_refused_iff (s : Store) (key : String) :
    let p := s.layout key
    let refusal := StoreError.invalidKey key
      (if LacksName p.filename then .emptyFilename else .outsideRoot)
    (IsRefusal (s.location key) ↔ LacksName p.filename ∨ Strays p) ∧
    (∀ o d, o.key? = some key →
      (IsRefusal ((s.perform o).run d).1 ↔ LacksName p.filename ∨ Strays p)) ∧
    (LacksName p.filename ∨ Strays p →
      s.location key = .error refusal ∧
      (∀ o, o.key? = some key → s.perform o = .fail refusal) ∧
      (∀ copy, s.writeBy key copy = .fail refusal)) ∧
    refusal.message = "Invalid key: " ++ Text.quoted key ++ " " ++
      (if LacksName p.filename then "maps to an empty filename"
        else "resolves outside the store root") := by
  intro p refusal
  have hmessage : refusal.message = "Invalid key: " ++ Text.quoted key ++ " " ++
      (if LacksName p.filename then "maps to an empty filename"
        else "resolves outside the store root") :=
    congrArg ("Invalid key: " ++ Text.quoted key ++ " " ++ ·)
      (apply_ite KeyFault.message _ KeyFault.emptyFilename KeyFault.outsideRoot)
  by_cases h : LacksName p.filename ∨ Strays p
  · have hsite : s.site key = .error refusal := site_of_refused h
    have hlocation : s.location key = .error refusal := by
      rw [location, hsite]
      rfl
    have hperform (o : Operation) (ho : o.key? = some key) : s.perform o = .fail refusal := by
      obtain ⟨rest, heq, -⟩ := exists_perform_eq (s := s) ho
      rw [heq, hsite]
      rfl
    have hwrite (copy : Handle → Action IoError Nat) : s.writeBy key copy = .fail refusal := by
      rw [writeBy, hsite]
      rfl
    refine ⟨iff_of_true ⟨refusal, hlocation, trivial⟩ h, fun o d ho => iff_of_true ?_ h,
      fun _ => ⟨hlocation, hperform, hwrite⟩, hmessage⟩
    rw [hperform o ho]
    exact ⟨refusal, rfl, trivial⟩
  · obtain ⟨site, hsite⟩ := exists_site_of_not_refused h
    refine ⟨iff_of_false ?_ h, fun o d ho => iff_of_false ?_ h, fun hrefused => absurd hrefused h,
      hmessage⟩
    · rintro ⟨e, heq, -⟩
      rw [location, hsite] at heq
      cases heq
    · rintro ⟨e, heq, hrefusal⟩
      obtain ⟨rest, hrest, hfails⟩ := exists_perform_eq (s := s) ho
      rw [hrest, hsite] at heq
      exact (hfails site).run heq hrefusal

/-- In a store with the identity layout the key `../` strays and its filename lacks a name, which is
the reason that is given; `../a` strays only, and `a/b` does neither.  The messages show the keys in
quotes, with what needs it escaped. -/
theorem key_refused_dots :
    let s : Store := ⟨⟨[0x73]⟩, Layout.identity, false⟩
    s.perform (.read "../") = .fail (.invalidKey "../" .emptyFilename) ∧
      (StoreError.invalidKey "../" .emptyFilename).message =
        "Invalid key: \"../\" maps to an empty filename" ∧
      s.perform (.delete "../a") = .fail (.invalidKey "../a" .outsideRoot) ∧
      ¬ IsRefusal (s.location "a/b") ∧
      (StoreError.invalidKey "\n\"\x01é\\/" .emptyFilename).message =
        "Invalid key: \"\\n\\\"\\u\x7b1\x7dé\\\\/\" maps to an empty filename" := by
  intro s
  obtain ⟨-, -, hlacks, hmessage⟩ := key_refused_iff s "../"
  obtain ⟨-, -, hstrays, -⟩ := key_refused_iff s "../a"
  obtain ⟨haccepted, -⟩ := key_refused_iff s "a/b"
  obtain ⟨-, -, -, hescaped⟩ := key_refused_iff s "\n\"\x01é\\/"
  have hread := (hlacks (by decide)).2.1 (.read "../") rfl
  have hdelete := (hstrays (by decide)).2.1 (.delete "../a") rfl
  rw [if_pos (by decide), if_pos (by decide),
    Text.quoted_of_visible (by simp)] at hmessage
  rw [if_pos (by decide), if_pos (by decide)] at hescaped
  rw [if_pos (by decide)] at hread
  rw [if_neg (by decide)] at hdelete
  exact ⟨hread, hmessage, hdelete, haccepted.not.mpr (by decide),
    hescaped.trans (by decide +kernel)⟩

end Store

end BlobStore
