import BlobStore.Proofs.Store.Removing
import BlobStore.Proofs.Store.Requests

/-!
# Nothing outside the root is touched

Whatever a layout makes of a key, an operation of a store stays below the root.  Looking
changes nothing.  A write may make the root and what is missing above it; everything else
that it changes lies strictly below.  A deletion removes entries strictly below the root
only, and clearing the store removes the root and what lies below it.

A file that does not lie strictly below the root is therefore untouched by every run of
operations on stores with this root.
-/

namespace BlobStore

/-- A location lies strictly below another one. -/
def Inside (root l : Location) : Prop := root <+: l ∧ l ≠ root

instance (root l : Location) : Decidable (Inside root l) :=
  inferInstanceAs (Decidable (_ ∧ _))

theorem inside_append {root names : Location} (h : names ≠ []) : Inside root (root ++ names) :=
  ⟨List.prefix_append .., by simpa using h⟩

/-- What is above or at something strictly below the root is above or at the root, or strictly
below the root itself. -/
theorem prefix_or_inside {root l m : Location} (hl : l <+: m) (hm : root <+: m) :
    l <+: root ∨ Inside root l := by
  rcases List.prefix_or_prefix_of_prefix hl hm with h | h
  · exact Or.inl h
  · by_cases heq : l = root
    · exact Or.inl (heq ▸ List.prefix_refl _)
    · exact Or.inr ⟨h, heq⟩

theorem Inside.trans {root l m : Location} (h : Inside root l) (hlm : l <+: m) :
    Inside root m := by
  refine ⟨h.1.trans hlm, ?_⟩
  rintro rfl
  exact h.2 (hlm.eq_of_length_le h.1.length_le)

namespace Store

variable {s : Store} {d : Disk}

/-! ## Writing -/

/-- A write changes nothing but what lies strictly below the root, and otherwise makes
missing directories on the way to it. -/
theorem view_next_write (hroot : s.root.Plain) (hd : d.Unshared) (key : String) (source : Source)
    (l : Location) :
    (s.next (.write key source) d).view l = d.view l ∨ Inside (d.locate s.root) l ∨
      l <+: d.locate s.root ∧ d.view l = none ∧
        (s.next (.write key source) d).view l = some .dir := by
  rw [next_write]
  rcases write_cases source hroot hd key with ⟨e, -, hrun⟩ | ⟨site, d₁, hsite, hgrows, hwritten⟩
  · rw [hrun]
    exact Or.inl rfl
  · have hbelow := below_of_site hroot hsite
    -- the directories lie on the way to the site's, which lies at the root or below it
    have hdirs : d₁.view l = d.view l ∨ Inside (d.locate s.root) l ∨
        l <+: d.locate s.root ∧ d.view l = none ∧ d₁.view l = some .dir := by
      rcases hgrows.view l with hsame | ⟨hnone, hdir, hway⟩
      · exact Or.inl hsame
      · rw [hbelow.locate_dir] at hway
        rcases prefix_or_inside hway (List.prefix_append ..) with habove | hinside
        · exact Or.inr (Or.inr ⟨habove, hnone, hdir⟩)
        · exact Or.inr (Or.inl hinside)
    rcases hwritten with ⟨e, -, hview⟩ | ⟨d₂, -, hstores, -⟩
    · rw [hview]
      exact hdirs
    · by_cases hl : l = d.locate site.file
      · refine Or.inr (Or.inl ?_)
        rw [hl, hbelow.locate_file]
        exact inside_append hbelow.names_ne_nil
      · rw [hstores.view_other hl]
        exact hdirs

/-! ## Removing -/

/-- A deletion removes entries strictly below the root. -/
theorem view_next_delete (hroot : s.root.Plain) (key : String) (d : Disk) (l : Location) :
    (s.next (.delete key) d).view l = d.view l ∨
      Inside (d.locate s.root) l ∧ (s.next (.delete key) d).view l = none := by
  rw [next_delete, delete, Action.run_bind, Action.run_ofExcept]
  cases hsite : s.site key with
  | error e => exact Or.inl rfl
  | ok site =>
    have hbelow := below_of_site hroot hsite
    dsimp only
    split_ifs with hfirst
    · rw [run_removing]
      simp only [Disk.perform, Disk.changing]
      cases hunlink : d.unlink site.file with
      | error e => exact Or.inl rfl
      | ok d' =>
        obtain ⟨m, hends, rfl⟩ := Disk.unlink_eq_ok hunlink
        dsimp only
        rw [Disk.view_erase hends.ne_nil]
        split_ifs with hl
        · refine Or.inr ⟨?_, rfl⟩
          rw [hl, hends.eq_locate hbelow.plain_file, hbelow.locate_file]
          exact inside_append hbelow.names_ne_nil
        · exact Or.inl rfl
    · obtain ⟨hplain, hlocate⟩ := hbelow.first fun hempty => hfirst (String.isEmpty_iff.mpr hempty)
      rw [run_removing]
      rcases view_removeTree hplain d l with hsame | ⟨hunder, hnone, -⟩
      · exact Or.inl hsame
      · rw [hlocate] at hunder
        have hne : site.placement.names.take 1 ≠ [] := by simpa using hbelow.names_ne_nil
        exact Or.inr ⟨(inside_append hne).trans hunder, hnone⟩

/-- Clearing removes the root and what lies below it, and that only if it is a directory. -/
theorem view_next_clear (hroot : s.root.Plain) (d : Disk) (l : Location) :
    (s.next .clear d).view l = d.view l ∨ d.locate s.root <+: l ∧ (s.next .clear d).view l = none ∧
      d.view (d.locate s.root) = some .dir := by
  rw [next_clear, clear, run_removing]
  exact view_removeTree hroot d l

/-! ## Runs -/

/-- An operation keeps every file that does not lie strictly below the root. -/
theorem view_file_next (hroot : s.root.Plain) (hd : d.Unshared) (operation : Operation)
    {l : Location} {b : ByteArray} (hl : ¬ Inside (d.locate s.root) l)
    (hfile : d.view l = some (.file b)) : (s.next operation d).view l = some (.file b) := by
  cases operation with
  | has key => rw [next_has_eq, hfile]
  | read key => rw [next_read_eq, hfile]
  | write key source =>
    rcases view_next_write hroot hd key source l with hsame | hinside | ⟨-, hnone, -⟩
    · rw [hsame, hfile]
    · exact absurd hinside hl
    · rw [hfile] at hnone
      exact absurd hnone (by simp)
  | delete key =>
    rcases view_next_delete hroot key d l with hsame | ⟨hinside, -⟩
    · rw [hsame, hfile]
    · exact absurd hinside hl
  | clear =>
    rcases view_next_clear hroot d l with hsame | ⟨hunder, -, hdir⟩
    · rw [hsame, hfile]
    · -- a file at the root is no directory
      have heq : l = d.locate s.root := by
        by_contra hne
        exact hl ⟨hunder, hne⟩
      rw [heq, hdir] at hfile
      exact absurd hfile (by simp)

/-- A run of operations on stores with one root keeps every file that does not lie strictly
below it. -/
theorem view_file_after (hroot : s.root.Plain) {calls : List Call}
    (hcalls : ∀ c ∈ calls, c.store.root = s.root) : ∀ {d : Disk}, d.Unshared →
      ∀ {l : Location} {b : ByteArray}, ¬ Inside (d.locate s.root) l →
        d.view l = some (.file b) → (d.after calls).view l = some (.file b) := by
  induction calls with
  | nil => intro d _ l b _ hfile; exact hfile
  | cons c calls ih =>
    intro d hd l b hl hfile
    have hsame : c.store.root = s.root := hcalls c List.mem_cons_self
    apply ih (fun c' hc' => hcalls c' (List.mem_cons_of_mem _ hc'))
      (c.store.next_unshared c.operation hd)
    · rw [next_locate]
      exact hl
    · exact view_file_next (hsame ▸ hroot) hd c.operation (hsame ▸ hl) hfile

/-- **Containment.**  Below a plain root, looking changes nothing; a write changes only what
lies strictly below the root, but for missing directories that it makes there and above; a
deletion only removes entries strictly below the root; clearing only removes the root and
entries below it.  So no run touches a file that is not strictly below the root. -/
theorem containment (hroot : s.root.Plain) (hd : d.Unshared) (key : String) (source : Source) :
    s.next (.has key) d = d ∧ s.next (.read key) d = d ∧
      (∀ l, (s.next (.write key source) d).view l = d.view l ∨ Inside (d.locate s.root) l ∨
        l <+: d.locate s.root ∧ d.view l = none ∧
          (s.next (.write key source) d).view l = some .dir) ∧
      (∀ l, (s.next (.delete key) d).view l = d.view l ∨
        Inside (d.locate s.root) l ∧ (s.next (.delete key) d).view l = none) ∧
      (∀ l, (s.next .clear d).view l = d.view l ∨
        d.locate s.root <+: l ∧ (s.next .clear d).view l = none) ∧
      ∀ calls : List Call, (∀ c ∈ calls, c.store.root = s.root) →
        ∀ l b, ¬ Inside (d.locate s.root) l → d.view l = some (.file b) →
          (d.after calls).view l = some (.file b) := by
  refine ⟨next_has_eq s key d, next_read_eq s key d, view_next_write hroot hd key source,
    view_next_delete hroot key d, fun l => ?_, fun calls hcalls l b => ?_⟩
  · rcases view_next_clear hroot d l with hsame | ⟨hunder, hnone, -⟩
    · exact Or.inl hsame
    · exact Or.inr ⟨hunder, hnone⟩
  · exact view_file_after hroot hcalls hd

/-- A file next to the root outlives a write and the removal of the whole store. -/
theorem containment_file_beside :
    let s : Store := ⟨⟨[0x73]⟩, Layout.identity, false⟩
    let d := (Disk.empty.insertFile [[0x66]]).setBytes 0 ⟨#[7]⟩
    s.root.Plain ∧ d.Unshared ∧
      (d.after [⟨s, .write "a" (.ofBytes ⟨#[1, 2]⟩)⟩, ⟨s, .clear⟩]).view [[0x66]] =
        some (.file ⟨#[7]⟩) := by
  intro s d
  have hroot : s.root.Plain := ⟨by decide, by decide⟩
  have hd : d.Unshared := (Disk.wellFormed_empty.toUnshared.insertFile (by decide)).setBytes 0 _
  obtain ⟨-, -, -, -, -, hrun⟩ := containment hroot hd "a" (.ofBytes ⟨#[1, 2]⟩)
  refine ⟨hroot, hd, hrun _ (fun c hc => ?_) _ _ (by decide) (by rfl)⟩
  simp only [List.mem_cons, List.not_mem_nil, or_false] at hc
  rcases hc with rfl | rfl <;> rfl

end Store

end BlobStore
