import BlobStore.Proofs.Disk.AnyPath
import BlobStore.Proofs.Store.Acceptance
import BlobStore.Proofs.Store.Looking
import BlobStore.Proofs.Store.Removing

/-!
# Clearing a store at any root

A root is any text but the empty one.  What a clearing does depends on where the root leads and
on how it is spelled:

```text
the root                                       answer     the tree
leads nowhere for want of an entry             success    unchanged
leads to a file, or cannot be followed         failure    unchanged
leads to a directory and ends in a name        success    the directory is gone
leads to a directory through what it holds     success    the directory is empty
leads to a directory, ends in dots or is top   failure    the directory is empty
```

After a success the root leads nowhere (`Store.Gone`), whichever of the three cases it was.  In the
fourth one the way went down into the directory and up again, and is lost with what was in it.
-/

namespace BlobStore

/-- A store made from options has a root that is not empty. -/
theorem Store.root_ofOptions_ne_nil (o : Options) : (Store.ofOptions o).root.bytes ≠ [] := by
  cases hroot : o.root.filter (!·.isEmpty) with
  | none =>
    rw [show (ofOptions o).root = defaultRoot from congrArg (·.getD defaultRoot) hroot]
    decide
  | some p =>
    rw [show (ofOptions o).root = p from congrArg (·.getD defaultRoot) hroot]
    have hp := (Option.filter_eq_some_iff.mp hroot).2
    simpa [Path.isEmpty] using hp

namespace Store

variable {s : Store} {d d' : Disk}

/-! ## A root that leads nowhere -/

/-- A store of which nothing can be found: neither its root nor anything below it. -/
structure Gone (s : Store) (d : Disk) : Prop where
  root : d.resolve s.root = .error (.system .noEntry)
  below : ∀ p : Path, p.bytes ≠ [] → p.isAbsolute = false →
    ∀ found, d.resolve (s.root.join p) ≠ .ok found
  has : ∀ key, s.reply (.has key) d ≠ .present true
  again : s.clear.run d = (.ok (), d)

/-- An object that is found has a path that leads somewhere. -/
theorem exists_resolve_of_has {key : String} (h : s.reply (.has key) d = .present true) :
    ∃ site found, s.site key = .ok site ∧ d.resolve site.file = .ok found := by
  rw [reply_has] at h
  cases hsite : s.site key with
  | error e =>
    rw [hsite] at h
    cases h
  | ok site =>
    simp only [hsite] at h
    cases hkind : d.kind site.file with
    | ok kind =>
      obtain ⟨found, hfound, -⟩ := exists_of_bind_eq_ok hkind
      exact ⟨site, found, rfl, hfound⟩
    | error e =>
      simp only [hkind] at h
      split_ifs at h
      cases h

theorem gone_of_resolve (hroot : s.root.bytes ≠ [])
    (h : d.resolve s.root = .error (.system .noEntry)) : s.Gone d := by
  have hbelow (p : Path) (hne : p.bytes ≠ []) (hrel : p.isAbsolute = false)
      (found : Location × Node) : d.resolve (s.root.join p) ≠ .ok found := by
    intro hfound
    obtain ⟨l, hl⟩ := Disk.resolve_of_resolve_join hroot hrel hne hfound
    rw [h] at hl
    cases hl
  refine ⟨h, hbelow, fun key hpresent => ?_, ?_⟩
  · obtain ⟨site, found, hsite, hfound⟩ := exists_resolve_of_has hpresent
    obtain ⟨-, haccepted, hfile, -⟩ := site_eq_ok hsite
    rw [hfile] at hfound
    exact hbelow _ haccepted.fullPath_ne_nil haccepted.isAbsolute_fullPath found hfound
  · exact run_removing_of_missing (by rw [Disk.perform, Disk.removeTree, h])

/-! ## After a clearing -/

/-- What a clearing that succeeds leaves.  All that was below the directory to which the root led is
gone, and the directory as well, unless the way to it entered what was below it. -/
structure Cleared (s : Store) (d d' : Disk) : Prop extends s.Gone d' where
  inside : ∀ l n, d.resolve s.root = .ok (l, n) → ∀ m, l <+: m → m ≠ l → d'.view m = none
  self : ∀ l n, d.resolve s.root = .ok (l, n) → ¬ d.EntersBelow s.root l → d'.view l = none
  left : ∀ l n, d.resolve s.root = .ok (l, n) → d.EntersBelow s.root l → d'.view l = d.view l
  named : Path.dotDot ∉ s.root.pieces → ∀ m, d.locate s.root <+: m → d'.view m = none
  outside : ∀ m, (∀ l n, d.resolve s.root = .ok (l, n) → ¬ l <+: m) → d'.view m = d.view m

section cleared

variable (hroot : s.root.bytes ≠ [])

include hroot

theorem cleared_of_missing (hd : Closed d.view)
    (h : d.resolve s.root = .error (.system .noEntry)) : s.Cleared d d where
  toGone := gone_of_resolve hroot h
  inside l n hl := by
    rw [h] at hl
    cases hl
  self l n hl := by
    rw [h] at hl
    cases hl
  left l n hl := by
    rw [h] at hl
    cases hl
  named hdots m hm := by
    obtain ⟨k, hk, hnone⟩ := Disk.exists_none_of_resolve hdots hroot h
    exact hd.none_of_none (hk.trans hm) (Disk.view_eq_none.mpr hnone)
  outside _ _ := rfl

theorem cleared_of_removed {dir : Location} {n : Name} {slash : Bool}
    (h : d.target s.root = .ok ⟨dir, .name n, slash⟩) (hn : n.length ≤ Disk.maxName)
    (hresolve : d.resolve s.root = .ok (dir ++ [n], .dir))
    (hway : ¬ d.EntersBelow s.root (dir ++ [n])) :
    s.Cleared d ((d.eraseBelow (dir ++ [n])).erase (dir ++ [n])) := by
  have hne : dir ++ [n] ≠ [] := by simp
  have hview (m : Location) : ((d.eraseBelow (dir ++ [n])).erase (dir ++ [n])).view m =
      if dir ++ [n] <+: m then none else d.view m := by
    rw [Disk.view_erase hne, Disk.view_eraseBelow]
    by_cases heq : m = dir ++ [n]
    · rw [if_pos heq, if_pos (heq ▸ List.prefix_refl _)]
    · simp only [heq, ne_eq, not_false_eq_true, and_true, if_false]
  have hgone : ((d.eraseBelow (dir ++ [n])).erase (dir ++ [n])).resolve s.root =
      .error (.system .noEntry) := by
    -- the way to the directory may still be there, but the directory is not
    rcases ((Disk.Fewer.eraseBelow d (dir ++ [n])).erase hne).target_eq h with hsame | hnone
    · have hnode := Disk.view_eq_none.mp ((hview (dir ++ [n])).trans (if_pos (List.prefix_refl _)))
      have hfind := Disk.find_of_length_le ((d.eraseBelow (dir ++ [n])).erase (dir ++ [n])) dir hn
      rw [hnode] at hfind
      simp only [Disk.resolve, hsame, hfind, bind, Except.bind]
      rfl
    · rw [Disk.resolve, hnone]
      rfl
  refine ⟨gone_of_resolve hroot hgone, fun l node hl m hm _ => ?_, fun l node hl _ => ?_,
    fun l node hl hbelow => ?_, fun hdots m hm => ?_, fun m hm => ?_⟩
  · obtain ⟨rfl, -⟩ := by simpa using hresolve.symm.trans hl
    rw [hview, if_pos hm]
  · obtain ⟨rfl, -⟩ := by simpa using hresolve.symm.trans hl
    rw [hview, if_pos (List.prefix_refl _)]
  · obtain ⟨rfl, -⟩ := by simpa using hresolve.symm.trans hl
    exact absurd hbelow hway
  · rw [hview, if_pos (Disk.eq_locate_of_resolve hdots hresolve ▸ hm)]
  · rw [hview, if_neg (hm _ _ hresolve)]

theorem cleared_of_lost {l : Location} (h : d.resolve s.root = .ok (l, .dir))
    (hlost : (d.eraseBelow l).target s.root = .error (.system .noEntry))
    (hway : d.EntersBelow s.root l) : s.Cleared d (d.eraseBelow l) := by
  have hgone : (d.eraseBelow l).resolve s.root = .error (.system .noEntry) := by
    rw [Disk.resolve, hlost]
    rfl
  refine ⟨gone_of_resolve hroot hgone, fun l' node hl m hm hne => ?_, fun l' node hl hout => ?_,
    fun l' node hl _ => ?_, fun hdots => ?_, fun m hm => ?_⟩
  · obtain ⟨rfl, -⟩ := by simpa using h.symm.trans hl
    rw [Disk.view_eraseBelow, if_pos ⟨hm, hne⟩]
  · obtain ⟨rfl, -⟩ := by simpa using h.symm.trans hl
    exact absurd hway hout
  · obtain ⟨rfl, -⟩ := by simpa using h.symm.trans hl
    rw [Disk.view_eraseBelow, if_neg fun hbelow => hbelow.2 rfl]
  · obtain ⟨t, htarget, -⟩ := Disk.exists_target_of_resolve h
    rw [Disk.eq_locate_of_resolve hdots h] at hway
    exact absurd hway (Disk.not_entersBelow hdots htarget)
  · rw [Disk.view_eraseBelow, if_neg fun hbelow => hm _ _ h hbelow.1]

end cleared

/-- **A clearing leaves nothing to be found, or it reports a failure.**  Let a store have any root
and any layout.  If the clearing succeeds, then neither the root nor any path below it leads
anywhere, no object is present, and a second clearing succeeds and changes nothing.  Of the tree all
is gone that was below the directory to which the root led, and the directory as well, unless the
way to it entered what was below it; everything outside that directory is the same as before.  A
root without a part `..` never goes such a way.

If the clearing fails, then nothing has changed, or else the root does not end in a name and exactly
what was below the directory is gone. -/
theorem clear_outcome (o : Options) {d : Disk} (hd : Closed d.view) :
    let s := Store.ofOptions o
    let cleared := s.clear.run d
    (cleared.1 = .ok () → s.Cleared d cleared.2) ∧
    ∀ e, cleared.1 = .error e → cleared.2 = d ∨
      ¬ s.root.EndsInName ∧ ∃ l, d.resolve s.root = .ok (l, .dir) ∧
        ∀ m, cleared.2.view m = if l <+: m ∧ m ≠ l then none else d.view m := by
  intro s cleared
  have hroot : s.root.bytes ≠ [] := root_ofOptions_ne_nil o
  have hrun : cleared = _ := run_removing (.removeTree s.root) d
  have hremoval := d.removal_removeTree s.root
  rw [Disk.perform] at hrun
  rw [hrun]
  generalize (d.removeTree s.root).1 = answer at *
  generalize (d.removeTree s.root).2 = d' at *
  cases hremoval with
  | @refused e h =>
    by_cases he : e = .system .noEntry
    · subst he
      exact ⟨fun _ => cleared_of_missing hroot hd h, by simp [IoError.isNotFound]⟩
    · exact ⟨by simp [IoError.isNotFound, he], fun _ _ => Or.inl rfl⟩
  | file h => exact ⟨by simp [IoError.isNotFound], fun _ _ => Or.inl rfl⟩
  | removed h hn hresolve hway =>
    exact ⟨fun _ => cleared_of_removed hroot h hn hresolve hway, by simp⟩
  | lost h hlost hway =>
    exact ⟨fun _ => cleared_of_lost hroot h hlost hway, by simp [IoError.isNotFound]⟩
  | emptied h hlast he =>
    refine ⟨by simp [IoError.isNotFound, he], fun _ _ => Or.inr ⟨hlast, _, h, fun m => ?_⟩⟩
    exact Disk.view_eraseBelow

/-- A store with the root `s` is cleared with the object of the key `a`, which is not present
afterwards. -/
theorem clear_outcome_object :
    let s := Store.ofOptions ⟨some ⟨[0x73]⟩, none, true⟩
    let d := ((Disk.empty.insert [[0x73]] .dir).insert [[0x73], [0x61]] .dir).insertFile
      [[0x73], [0x61], [0x61]]
    Closed d.view ∧ (s.clear.run d).2.view [[0x73], [0x61], [0x61]] = none ∧
      s.reply (.has "a") (s.clear.run d).2 ≠ .present true := by
  intro s d
  have hd : Closed d.view :=
    (((Disk.wellFormed_empty.insert_dir (by decide) rfl).insert_dir (by decide) rfl).insertFile
      (by decide) rfl (by decide)).closed
  have hok : (s.clear.run d).1 = .ok () := by unfold s d; rfl
  have hcleared := (clear_outcome ⟨some ⟨[0x73]⟩, none, true⟩ hd).1 hok
  exact ⟨hd, hcleared.named (by decide) _ (by decide), hcleared.has "a"⟩

/-- With the root `s/.` a clearing fails, and the object is gone nevertheless.  With the root
`s/a/../../s` it succeeds, and the directory `s` is left. -/
theorem clear_neither_all_nor_nothing :
    let dotted := Store.ofOptions ⟨some ⟨[0x73, 0x2F, 0x2E]⟩, none, true⟩
    let looped := Store.ofOptions
      ⟨some ⟨[0x73, 0x2F, 0x61, 0x2F, 0x2E, 0x2E, 0x2F, 0x2E, 0x2E, 0x2F, 0x73]⟩, none, true⟩
    let d := ((Disk.empty.insert [[0x73]] .dir).insert [[0x73], [0x61]] .dir).insertFile
      [[0x73], [0x61], [0x61]]
    Closed d.view ∧
      ((dotted.clear.run d).1 = .error (.io (.system .invalid)) ∧
        d.node? [[0x73], [0x61], [0x61]] = some (.file 0) ∧
        (dotted.clear.run d).2.node? [[0x73], [0x61], [0x61]] = none) ∧
      ((looped.clear.run d).1 = .ok () ∧ d.resolve looped.root = .ok ([[0x73]], .dir) ∧
        (looped.clear.run d).2.node? [[0x73]] = some .dir) := by
  refine ⟨?_, ⟨by rfl, by decide, by decide⟩, ⟨by rfl, by rfl, by decide⟩⟩
  exact (((Disk.wellFormed_empty.insert_dir (by decide) rfl).insert_dir (by decide) rfl).insertFile
    (by decide) rfl (by decide)).closed

end Store

end BlobStore
