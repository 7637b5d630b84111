import BlobStore.Proofs.Store.Acceptance
import BlobStore.Proofs.Store.Contents

/-!
# One lookup behind two questions

Whether there is an object under a key can be asked in two ways: by its kind alone, or by opening
it.  The requests differ, and each answer sorts its failures for itself.  Both come down to one
lookup (`Store.lookup`): the path of the object is followed, and what is found is a file, or it is
nothing, or there is a failure.  A directory counts as nothing, and so does a path on which a name
is missing or a file stands for a directory.

Both questions are answered from the lookup (`run_has_eq_lookup`, `run_read_eq_lookup`), so that
they agree on every disk, whatever the root and the layout are.
-/

namespace BlobStore

/-- A failure for which the key itself or the file system is the reason. -/
def StoreError.IsHindrance : StoreError → Prop
  | .invalidKey _ _ | .io _ => True
  | _ => False

/-- The number of the file to which a path leads, if it leads to one.  Only a failure that does not
say that something is missing is one. -/
def Disk.lookup (d : Disk) (p : Path) : Except IoError (Option Nat) :=
  match d.resolve p with
  | .ok (_, .file i) => .ok (some i)
  | .ok (_, .dir) => .ok none
  | .error e => if e.isMissing then .ok none else .error e

namespace Store

variable {s : Store} {key : String} {d : Disk}

/-- The number of the file that is found under a key, if there is one. -/
def lookup (s : Store) (key : String) (d : Disk) : Except StoreError (Option Nat) :=
  match s.site key with
  | .error e => .error e
  | .ok site => (d.lookup site.file).mapError .io

/-- A lookup never fails because there is no object. -/
theorem isHindrance_of_lookup {e : StoreError} (h : s.lookup key d = .error e) :
    e.IsHindrance := by
  unfold lookup at h
  cases hsite : s.site key with
  | error e' =>
    obtain ⟨fault, rfl⟩ := site_eq_error hsite
    rw [hsite] at h
    cases h
    trivial
  | ok site =>
    rw [hsite] at h
    dsimp only at h
    cases hfound : d.lookup site.file with
    | ok found =>
      rw [hfound] at h
      cases h
    | error e' =>
      rw [hfound] at h
      cases h
      trivial

/-- Whether there is an object is whether a file is found. -/
theorem run_has_eq_lookup (s : Store) (key : String) (d : Disk) :
    (s.has key).run d = ((s.lookup key d).map Option.isSome, d) := by
  rw [has, Action.run_bind, Action.run_ofExcept, lookup]
  cases s.site key with
  | error e => rfl
  | ok site =>
    dsimp only
    rw [Action.run_bind, Action.run_attempt, Disk.lookup]
    simp only [Disk.perform, Disk.looking]
    cases hresolve : d.resolve site.file with
    | error e =>
      rw [Disk.kind_of_resolve_error hresolve]
      cases hmissing : e.isMissing <;> simp [hmissing, Except.map]
    | ok found =>
      obtain ⟨l, node⟩ := found
      rw [Disk.kind, hresolve]
      cases node <;> rfl

/-- An object is opened if a file is found, and then it is this file. -/
theorem run_read_eq_lookup (s : Store) (key : String) (d : Disk) :
    (s.read key).run d = (match s.lookup key d with
      | .error e => .error e
      | .ok none => .error (.notFound key)
      | .ok (some i) => .ok (Blob.start ⟨i⟩ (d.bytes i).size), d) := by
  rw [run_read, lookup]
  cases s.site key with
  | error e => rfl
  | ok site =>
    dsimp only
    rw [Disk.lookup]
    cases hresolve : d.resolve site.file with
    | error e =>
      rw [Disk.openRead_of_resolve_error hresolve]
      cases hmissing : e.isMissing <;> simp [hmissing]
    | ok found =>
      obtain ⟨l, node⟩ := found
      rw [Disk.openRead, hresolve]
      cases node <;> rfl

/-- **Looking for an object and opening it agree.**  On every disk and for every store and key, the
object is present if and only if it can be opened, and then the size that has been noted is that of
all its bytes; it is absent if and only if opening it fails for want of an object; and a failure of
one that has another reason is the failure of the other, with the same wording.  There are no other
failures than these. -/
theorem has_and_read_agree (s : Store) (key : String) (d : Disk) :
    let present := ((s.has key).run d).1
    let opened := ((s.read key).run d).1
    (present = .ok true ↔ ∃ blob, opened = .ok blob) ∧
    (∀ blob, opened = .ok blob → ∃ bytes, blob.rest.run d = (.ok bytes, d) ∧
      blob.size = bytes.size) ∧
    (present = .ok false ↔ opened = .error (.notFound key)) ∧
    (∀ e : StoreError, e.IsHindrance → (present = .error e ↔ opened = .error e)) ∧
    (∀ e, present = .error e → e.IsHindrance) ∧
    ∀ e, opened = .error e → e = .notFound key ∨ e.IsHindrance := by
  intro present opened
  have hpresent : present = (s.lookup key d).map Option.isSome :=
    congrArg Prod.fst (run_has_eq_lookup s key d)
  have hopened := congrArg Prod.fst (run_read_eq_lookup s key d)
  change opened = _ at hopened
  have hnotFound : ¬ (StoreError.notFound key).IsHindrance := id
  rw [hpresent, hopened]
  cases hlookup : s.lookup key d with
  | error e =>
    -- the same failure for both
    have he := isHindrance_of_lookup hlookup
    refine ⟨by simp [Except.map], by simp, ?_, fun e' _ => by simp [Except.map], ?_, ?_⟩
    · simp only [Except.map, reduceCtorEq, Except.error.injEq, false_iff]
      rintro rfl
      exact hnotFound he
    · rintro _ ⟨⟩
      exact he
    · rintro _ ⟨⟩
      exact Or.inr he
  | ok found =>
    cases found with
    | none =>
      refine ⟨by simp [Except.map], by simp, by simp [Except.map], fun e' he' => ?_, ?_, ?_⟩
      · simp only [Except.map, reduceCtorEq, Except.error.injEq, false_iff]
        rintro rfl
        exact hnotFound he'
      · rintro _ ⟨⟩
      · rintro _ ⟨⟩
        exact Or.inl rfl
    | some i =>
      refine ⟨by simp [Except.map], ?_, by simp [Except.map], fun e' _ => by simp [Except.map],
        by simp [Except.map], by simp⟩
      rintro _ ⟨⟩
      exact ⟨d.bytes i, Blob.run_rest_start d ⟨i⟩ _, rfl⟩

end Store

end BlobStore
