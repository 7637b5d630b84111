import BlobStore.Proofs.Disk.Asking
import BlobStore.Proofs.Disk.Reach
import BlobStore.Store.Directory

/-!
# What making directories does

`makeDirs` either fails or succeeds, and in both cases it has only added directories, all
of them on the way down to the one that was asked for (`grows_makeDirs`).  If no file is
in the way it succeeds, and then the whole way is there (`view_makeDirs`, and for the top
`view_makeDirs_of_trimmed`).

The list of paths that `makeFirst` recurses on is known through one fact only: each is
plain and names a location above that of the first (`mem_ancestors`).
-/

namespace BlobStore

/-- A disk that differs from another one in further directories only, which all lie on
the way to a location. -/
structure Disk.Grows (d d' : Disk) (l : Location) : Prop where
  base : d'.base = d.base
  contents : d'.contents = d.contents
  node : ∀ m, d'.node? m = d.node? m ∨ d.node? m = none ∧ d'.node? m = some .dir ∧ m <+: l

namespace Disk.Grows

variable {d d' d'' : Disk} {l m : Location}

theorem refl (d : Disk) (l : Location) : d.Grows d l := ⟨rfl, rfl, fun _ => Or.inl rfl⟩

theorem trans (h : d.Grows d' l) (h' : d'.Grows d'' l) : d.Grows d'' l where
  base := h'.base.trans h.base
  contents := h'.contents.trans h.contents
  node m := by
    rcases h.node m with hm | ⟨hnone, hdir, hl⟩
    · rw [← hm]
      exact h'.node m
    · rcases h'.node m with hm' | ⟨hnone', -, -⟩
      · exact Or.inr ⟨hnone, hm'.trans hdir, hl⟩
      · rw [hdir] at hnone'
        exact absurd hnone' (by simp)

theorem bytes (h : d.Grows d' l) (i : Nat) : d'.bytes i = d.bytes i := by
  rw [Disk.bytes, Disk.bytes, h.contents]

theorem view (h : d.Grows d' l) (m : Location) :
    d'.view m = d.view m ∨ d.view m = none ∧ d'.view m = some .dir ∧ m <+: l := by
  rcases h.node m with hm | ⟨hnone, hdir, hl⟩
  · exact Or.inl (view_congr hm fun i _ => h.bytes i)
  · exact Or.inr ⟨view_eq_none.mpr hnone, view_eq_dir.mpr hdir, hl⟩

theorem node?_dir (h : d.Grows d' l) (hm : d.node? m = some .dir) : d'.node? m = some .dir := by
  rcases h.node m with heq | ⟨hnone, -, -⟩
  · exact heq.trans hm
  · rw [hm] at hnone
    exact absurd hnone (by simp)

theorem view_file (h : d.Grows d' l) {b : ByteArray} :
    d'.view m = some (.file b) ↔ d.view m = some (.file b) := by
  rcases h.view m with heq | ⟨hnone, hdir, -⟩
  · rw [heq]
  · simp [hnone, hdir]

end Disk.Grows

/-! ## The paths above a path -/

namespace Path

/-- The paths above a plain path are plain or empty and have fewer names. -/
theorem mem_ancestorsWithin {n : Nat} : ∀ {p q : Path}, (p.bytes ≠ [] → p.Plain) →
    q ∈ ancestorsWithin n p → q.bytes ≠ [] →
      q.Plain ∧ q.isAbsolute = p.isAbsolute ∧ q.names <+: p.names := by
  induction n with
  | zero => intro p q _ hq; exact absurd hq (by simp [ancestorsWithin])
  | succ n ih =>
    intro p q hp hq hne
    rw [ancestorsWithin, List.mem_cons] at hq
    rcases hq with rfl | hq
    · exact ⟨hp hne, rfl, List.prefix_refl _⟩
    · by_cases hempty : p.bytes = []
      · have hparent : p.parent? = none := by
          simp [parent?, split, hempty, trimEnd, component]
        rw [hparent] at hq
        exact absurd hq (by simp)
      · have hplain := hp hempty
        by_cases hnames : p.names = []
        · rw [hplain.parent?_eq_none hnames] at hq
          exact absurd hq (by simp)
        · rw [hplain.parent?_eq hnames] at hq
          obtain ⟨hq', habs, hpre⟩ := ih hplain.plain_above hq hne
          rw [hplain.isAbsolute_above] at habs
          rw [hplain.names_above] at hpre
          exact ⟨hq', habs, hpre.trans (List.dropLast_prefix _)⟩

theorem mem_ancestors {d : Disk} {p q : Path} (hp : p.Plain) (hq : q ∈ p.ancestors)
    (hne : q.bytes ≠ []) : q.Plain ∧ d.locate q <+: d.locate p := by
  obtain ⟨hplain, habs, hpre⟩ := mem_ancestorsWithin (fun _ => hp) hq hne
  refine ⟨hplain, ?_⟩
  rw [Disk.locate, Disk.locate, Disk.start, Disk.start, habs]
  exact (List.prefix_append_right_inj _).mpr hpre

end Path

/-! ## What is asked -/

section asks

variable {P : Request → Prop}

theorem asks_isDirectory {ε : Type} {p : Path} (hkind : P (.kind p)) :
    (isDirectory p : Action ε Bool).Asks P := by
  unfold isDirectory
  refine .bind (.attempt hkind) fun answer => ?_
  split <;> trivial

theorem asks_makeDir {p : Path} (hkind : P (.kind p)) (hmake : P (.makeDir p)) :
    (makeDir p).Asks P := by
  unfold makeDir
  refine .bind (.attempt hmake) fun answer => ?_
  split
  · trivial
  · refine .bind (asks_isDirectory hkind) fun found => ?_
    split <;> trivial

theorem asks_makeFirst (hkind : ∀ p, P (.kind p)) {ps : List Path}
    (hmake : ∀ p ∈ ps, p.bytes ≠ [] → P (.makeDir p)) : (makeFirst ps).Asks P := by
  induction ps with
  | nil => trivial
  | cons p above ih =>
    rw [makeFirst]
    split
    · trivial
    · next hempty =>
      have hmakep := hmake p List.mem_cons_self (by simpa [Path.isEmpty] using hempty)
      refine .bind (.attempt hmakep) fun answer => ?_
      split
      · trivial
      · exact .bind (ih fun q hq => hmake q (List.mem_cons_of_mem _ hq)) fun _ =>
          asks_makeDir (hkind p) hmakep
      · refine .bind (asks_isDirectory (hkind p)) fun found => ?_
        split <;> trivial

theorem asks_makeDirs (p : Path) : (makeDirs p).Asks Request.Builds :=
  asks_makeFirst (fun _ => trivial) fun _ _ _ => trivial

end asks

/-! ## Growth -/

theorem run_isDirectory {ε : Type} (p : Path) (d : Disk) :
    (isDirectory p : Action ε Bool).run d = (.ok (d.kind p = .ok .dir), d) := by
  rw [isDirectory, Action.run_bind, Action.run_attempt]
  simp only [Disk.perform, Disk.looking]
  cases d.kind p with
  | error e => rfl
  | ok k => cases k <;> rfl

/-- What making one directory answers, given what the disk answers. -/
theorem run_makeDir (p : Path) (d : Disk) :
    (makeDir p).run d = match d.makeDir p with
      | .ok d' => (.ok (), d')
      | .error e => (if d.kind p = .ok .dir then .ok () else .error e, d) := by
  rw [makeDir, Action.run_bind, Action.run_attempt]
  simp only [Disk.perform, Disk.changing]
  cases d.makeDir p with
  | ok d' => rfl
  | error e =>
    simp only [Action.run_bind, run_isDirectory]
    by_cases hkind : d.kind p = .ok .dir <;> simp [hkind]

theorem grows_makeDir {p : Path} {d : Disk} {l : Location} (hp : p.Plain)
    (hl : d.locate p <+: l) : d.Grows ((makeDir p).run d).2 l := by
  rw [run_makeDir]
  cases h : d.makeDir p with
  | error e => exact .refl d l
  | ok d' =>
    obtain ⟨m, hends, hnone, rfl⟩ := Disk.makeDir_eq_ok h
    obtain rfl := hends.eq_locate hp
    refine ⟨rfl, rfl, fun k => ?_⟩
    rw [Disk.node?_insert hends.ne_nil]
    split_ifs with hk
    · exact Or.inr ⟨hk ▸ hnone, rfl, hk ▸ hl⟩
    · exact Or.inl rfl

/-- What `makeFirst` does at one path, given what the disk answers. -/
theorem run_makeFirst_cons {p : Path} (hp : p.bytes ≠ []) (above : List Path) (d : Disk) :
    (makeFirst (p :: above)).run d = match d.makeDir p with
      | .ok d' => (.ok (), d')
      | .error (.system .noEntry) => (do makeFirst above; makeDir p : Action IoError Unit).run d
      | .error e => (if d.kind p = .ok .dir then .ok () else .error e, d) := by
  have hempty : p.isEmpty = false := by simpa [Path.isEmpty] using hp
  rw [makeFirst, hempty, if_neg (by simp), Action.run_bind, Action.run_attempt]
  simp only [Disk.perform, Disk.changing]
  cases d.makeDir p with
  | ok d' => rfl
  | error e =>
    dsimp only
    split
    · rename_i heq
      cases heq
    · rename_i heq
      cases heq
      rfl
    · rename_i hne heq
      cases heq
      simp only [Action.run_bind, run_isDirectory]
      by_cases hkind : d.kind p = .ok .dir <;> simp [hkind]

theorem grows_makeFirst {ps : List Path} : ∀ {d : Disk} {l : Location},
    (∀ p ∈ ps, p.bytes ≠ [] → p.Plain ∧ d.locate p <+: l) →
      d.Grows ((makeFirst ps).run d).2 l := by
  induction ps with
  | nil => intro d l _; exact .refl d l
  | cons p above ih =>
    intro d l h
    by_cases hempty : p.bytes = []
    · rw [makeFirst, if_pos (by simp [Path.isEmpty, hempty])]
      exact .refl d l
    · obtain ⟨hplain, hl⟩ := h p List.mem_cons_self hempty
      have hmake := grows_makeDir hplain hl
      rw [run_makeDir] at hmake
      rw [run_makeFirst_cons hempty]
      cases hd : d.makeDir p with
      | ok d' =>
        rw [hd] at hmake
        exact hmake
      | error e =>
        split
        · rename_i heq
          cases heq
        · -- the paths above are made first, and then this one
          have habove : d.Grows ((makeFirst above).run d).2 l :=
            ih fun q hq => h q (List.mem_cons_of_mem _ hq)
          rw [Action.run_bind]
          rcases hrun : (makeFirst above).run d with ⟨_ | _, d'⟩
          · rw [hrun] at habove
            exact habove
          · rw [hrun] at habove
            refine habove.trans (grows_makeDir hplain ?_)
            rw [Disk.locate_of_base habove.base]
            exact hl
        · exact .refl d l

/-- Making directories adds directories on the way to the path's location, and nothing
else, also when it fails. -/
theorem grows_makeDirs {p : Path} (hp : p.Plain) (d : Disk) :
    d.Grows ((makeDirs p).run d).2 (d.locate p) :=
  grows_makeFirst fun _ hq hne => Path.mem_ancestors hp hq hne

/-! ## Success -/

/-- Following a path begins at a directory, if the base is one. -/
theorem start_dir {d : Disk} (hbase : d.view d.base = some .dir) (p : Path) :
    d.view (d.start p) = some .dir := by
  rw [Disk.start]
  split_ifs
  · rfl
  · exact hbase

/-- A directory is made in a directory, so that the disk stays a tree. -/
theorem wellFormed_makeDir {d d' : Disk} {p : Path} (hp : p.Plain) (hd : d.WellFormed)
    (hmake : d.makeDir p = .ok d') : d'.WellFormed := by
  obtain ⟨l, hends, -, rfl⟩ := Disk.makeDir_eq_ok hmake
  have hne := hends.ne_nil
  obtain ⟨dir, n, slash, htarget, rfl⟩ := hends
  apply hd.insert_dir hne
  rw [List.dropLast_concat, Disk.view_eq_dir]
  exact Disk.dirs_of_target hd.closed hp (start_dir hd.base_dir p) htarget (List.prefix_refl _)

/-- What is asked for while directories are made: only directories with plain paths are made. -/
def Request.MakesPlain : Request → Prop
  | .kind _ => True
  | .makeDir p => p.Plain
  | _ => False

theorem wellFormed_makeDirs {d : Disk} {p : Path} (hp : p.Plain) (hd : d.WellFormed) :
    ((makeDirs p).run d).2.WellFormed := by
  have hasks : (makeDirs p).Asks Request.MakesPlain :=
    asks_makeFirst (fun _ => trivial) fun q hq hne => (Path.mem_ancestors (d := d) hp hq hne).1
  refine hasks.run_invariant (fun d₁ r hr hd₁ => ?_) hd
  cases r with
  | kind q => exact hd₁
  | makeDir q =>
    simp only [Disk.perform]
    cases hmake : d₁.makeDir q with
    | error e => exact hd₁
    | ok d₂ => exact wellFormed_makeDir hr hd₁ hmake
  | _ => exact hr.elim

theorem node?_of_kind {d : Disk} {p : Path} (hp : p.Plain) (hkind : d.kind p = .ok .dir) :
    d.node? (d.locate p) = some .dir := by
  obtain ⟨⟨l, node⟩, hresolve, hkind⟩ := exists_of_bind_eq_ok hkind
  obtain ⟨rfl, hnode⟩ := Disk.location_resolve hp hresolve
  cases node with
  | dir => exact hnode
  | file i => cases hkind

theorem node?_makeDir {d : Disk} {p : Path} (hp : p.Plain)
    (hok : ((makeDir p).run d).1 = .ok ()) :
    ((makeDir p).run d).2.node? (d.locate p) = some .dir := by
  rw [run_makeDir] at hok ⊢
  cases hmake : d.makeDir p with
  | ok d' =>
    obtain ⟨l, hends, -, rfl⟩ := Disk.makeDir_eq_ok hmake
    obtain rfl := hends.eq_locate hp
    exact (Disk.node?_insert hends.ne_nil ..).trans (if_pos rfl)
  | error e =>
    simp only [hmake] at hok
    split_ifs at hok with hkind
    exact node?_of_kind hp hkind

/-- If making directories succeeds, there is a directory at the end, whatever was there
before. -/
theorem node?_makeFirst {d : Disk} {p : Path} (hp : p.Plain) {above : List Path}
    (hok : ((makeFirst (p :: above)).run d).1 = .ok ()) :
    ((makeFirst (p :: above)).run d).2.node? (d.locate p) = some .dir := by
  rw [run_makeFirst_cons hp.bytes_ne_nil] at hok ⊢
  cases hmake : d.makeDir p with
  | ok d' =>
    have hmade := node?_makeDir (d := d) hp
    simp only [run_makeDir, hmake, forall_const] at hmade
    exact hmade
  | error e =>
    simp only [hmake] at hok ⊢
    split at hok
    · next heq => cases heq
    · have hlocate := Action.run_locate (makeFirst above) d p
      rw [Action.run_bind] at hok ⊢
      rcases hrun : (makeFirst above).run d with ⟨e | _, d'⟩
      · rw [hrun] at hok
        cases hok
      · rw [hrun] at hok hlocate
        rw [← show d'.locate p = d.locate p from hlocate]
        exact node?_makeDir hp hok
    · split_ifs at hok with hkind
      exact node?_of_kind hp hkind

/-- If making directories succeeds, the whole way is there. -/
theorem dirs_of_makeDirs {d : Disk} {p : Path} (hp : p.Plain) (hd : d.WellFormed)
    (hok : ((makeDirs p).run d).1 = .ok ()) {m : Location} (hm : m <+: d.locate p) :
    ((makeDirs p).run d).2.node? m = some .dir := by
  refine Disk.dirs_of_dir (wellFormed_makeDirs hp hd).closed ?_ hm
  rw [Disk.view_eq_dir]
  exact node?_makeFirst hp hok

/-- Where the way to a path is there, making its directory makes the last step. -/
theorem view_makeDir_of_dirs {d : Disk} {p : Path} (hp : Disk.Followable p)
    (hdirs : ∀ m, m <+: (d.locate p).dropLast → d.node? m = some .dir)
    (hnone : d.node? (d.locate p) = none) :
    ∃ d', d.makeDir p = .ok d' ∧
      ∀ m, d'.view m = if m <+: d.locate p then some .dir else d.view m := by
  refine ⟨_, Disk.makeDir_of_dirs hp hdirs hnone, fun m => ?_⟩
  rw [Disk.view_insert_dir (hp.locate_ne_nil d)]
  by_cases hm : m <+: d.locate p
  · rw [if_pos hm]
    rcases hp.eq_or_of_isPrefix hm with heq | habove
    · rw [if_pos heq]
    · split_ifs
      · rfl
      · exact Disk.view_eq_dir.mpr (hdirs m habove)
  · rw [if_neg hm, if_neg]
    rintro rfl
    exact hm (List.prefix_refl _)

/-- Where the way to a path is there and no file in its place, nothing else has to be made. -/
theorem view_makeFirst_of_dirs {d : Disk} {p : Path} (hp : Disk.Followable p)
    (hclosed : Closed d.view) (hdirs : ∀ m, m <+: (d.locate p).dropLast → d.node? m = some .dir)
    (hplace : ∀ i, d.node? (d.locate p) ≠ some (.file i)) (above : List Path) :
    ((makeFirst (p :: above)).run d).1 = .ok () ∧
      ∀ m, ((makeFirst (p :: above)).run d).2.view m =
        if m <+: d.locate p then some .dir else d.view m := by
  rw [run_makeFirst_cons hp.plain.bytes_ne_nil]
  cases hnode : d.node? (d.locate p) with
  | none =>
    obtain ⟨d', hmake, hview⟩ := view_makeDir_of_dirs hp hdirs hnode
    rw [hmake]
    exact ⟨rfl, hview⟩
  | some node =>
    cases node with
    | file i => exact absurd hnode (hplace i)
    | dir =>
      obtain ⟨hmake, hkind⟩ := Disk.makeDir_of_taken hp hdirs hnode
      rw [hmake]
      refine ⟨by simp [hkind], fun m => ?_⟩
      dsimp only
      split_ifs with hm
      · exact Disk.view_eq_dir.mpr (Disk.dirs_of_dir hclosed (Disk.view_eq_dir.mpr hnode) hm)
      · rfl

/-- Where a directory is missing above a path, those above are made first, and then the
path's own. -/
theorem view_makeFirst_of_missing {d : Disk} {p : Path} (hp : Disk.Followable p)
    (htarget : d.target p = .error (.system .noEntry)) (hnone : d.view (d.locate p) = none)
    {above : List Path} (hok : ((makeFirst above).run d).1 = .ok ())
    (hview : ∀ m, ((makeFirst above).run d).2.view m =
      if m <+: (d.locate p).dropLast then some .dir else d.view m) :
    ((makeFirst (p :: above)).run d).1 = .ok () ∧
      ∀ m, ((makeFirst (p :: above)).run d).2.view m =
        if m <+: d.locate p then some .dir else d.view m := by
  have hlocate := Action.run_locate (makeFirst above) d p
  have hmake : d.makeDir p = .error (.system .noEntry) := by
    rw [Disk.makeDir, htarget]
    rfl
  rw [run_makeFirst_cons hp.plain.bytes_ne_nil, hmake]
  dsimp only
  rw [Action.run_bind]
  rcases hrun : (makeFirst above).run d with ⟨r, d'⟩
  rw [hrun] at hok hview hlocate
  dsimp only at hok hview hlocate
  subst hok
  dsimp only
  rw [run_makeDir]
  have hdirs (m : Location) (hm : m <+: (d'.locate p).dropLast) : d'.node? m = some .dir := by
    rw [hlocate] at hm
    rw [← Disk.view_eq_dir, hview, if_pos hm]
  have hnone' : d'.node? (d'.locate p) = none := by
    rw [hlocate, ← Disk.view_eq_none, hview, if_neg (hp.locate_not_isPrefix d), hnone]
  obtain ⟨d'', hmake', hview'⟩ := view_makeDir_of_dirs hp hdirs hnone'
  rw [hmake']
  refine ⟨rfl, fun m => ?_⟩
  dsimp only
  rw [hview', hlocate, hview]
  split_ifs with hm habove
  · rfl
  · exact absurd (habove.trans (List.dropLast_prefix _)) hm
  · rfl

/-- With no file in the way, making directories makes a path and all that is missing above
it a directory. -/
theorem view_makeFirst {n : Nat} : ∀ {p : Path}, Disk.Followable p → p.bytes.length < n →
    ∀ {d : Disk}, Closed d.view → d.view (d.start p) = some .dir →
      (∀ m, m <+: d.locate p → ∀ i, d.node? m ≠ some (.file i)) →
        ((makeFirst (p.ancestorsWithin n)).run d).1 = .ok () ∧
          ∀ m, ((makeFirst (p.ancestorsWithin n)).run d).2.view m =
            if m <+: d.locate p then some .dir else d.view m := by
  induction n with
  | zero => intro p _ hn; omega
  | succ n ih =>
    intro p hp hn d hclosed hstart hfile
    have hway : (d.locate p).dropLast <+: d.locate p := List.dropLast_prefix _
    rw [Path.ancestorsWithin]
    rcases Disk.target_cases hp fun m hm => hfile m (hm.trans hway) with
      htarget | ⟨htarget, k, hk, hmissing⟩
    · refine view_makeFirst_of_dirs hp hclosed (fun m hm => ?_) (hfile _ (List.prefix_refl _)) _
      exact Disk.dirs_of_target hclosed hp.plain hstart htarget hm
    · -- a directory above is missing, so there are names above
      have hnames : p.names.dropLast ≠ [] := by
        intro hnil
        rw [hp.dropLast_locate, hnil, List.append_nil] at hk
        rw [Disk.dirs_of_dir hclosed hstart hk] at hmissing
        exact absurd hmissing (by simp)
      -- and nothing is at the path's own location
      have hnone : d.view (d.locate p) = none := by
        by_contra hsome
        have hne : k ≠ d.locate p := by
          rintro rfl
          exact hp.locate_not_isPrefix d hk
        have hdir := Disk.view_eq_dir.mp (hclosed.dir_of_prefix (hk.trans hway) hne hsome)
        rw [hmissing] at hdir
        exact absurd hdir (by simp)
      have hlength := hp.plain.length_above_lt hp.names_ne_nil
      have hsame : d.start p.above = d.start p := by
        rw [Disk.start, Disk.start, hp.plain.isAbsolute_above]
      obtain ⟨hok, hview⟩ := ih (hp.above hnames) (by omega) hclosed (hsame ▸ hstart) fun m hm =>
        hfile m (hm.trans (by rw [hp.locate_above]; exact hway))
      rw [hp.locate_above] at hview
      rw [hp.plain.parent?_eq hp.names_ne_nil]
      exact view_makeFirst_of_missing hp htarget hnone hok hview

/-- With no file in the way, `makeDirs` succeeds, and all that is new are the directories on
the way to the path's location. -/
theorem view_makeDirs {p : Path} (hp : Disk.Followable p) {d : Disk} (hclosed : Closed d.view)
    (hstart : d.view (d.start p) = some .dir)
    (hfile : ∀ m, m <+: d.locate p → ∀ i, d.node? m ≠ some (.file i)) :
    ((makeDirs p).run d).1 = .ok () ∧
      ∀ m, ((makeDirs p).run d).2.view m = if m <+: d.locate p then some .dir else d.view m :=
  view_makeFirst hp (Nat.lt_succ_self _) hclosed hstart hfile

/-- A path without names is the top, where no directory can be made since one is there. -/
theorem makeDir_of_names_eq_nil {p : Path} (hp : p.Plain) (haccepted : p.Accepted)
    (htrimmed : p.Trimmed) (hnames : p.names = []) (d : Disk) :
    d.makeDir p = .error (.system .taken) ∧ d.kind p = .ok .dir := by
  have hpieces : p.pieces = [] := by
    by_contra hne
    have hdot := List.filter_eq_nil_iff.mp hnames _ (List.getLast_mem hne)
    rw [decide_eq_true_iff, not_not] at hdot
    exact htrimmed (by rw [List.getLast?_eq_some_getLast hne, hdot])
  have htarget : d.target p = .ok ⟨d.start p, .top, p.endsInSlash⟩ := by
    rw [Disk.target_eq_walk d haccepted.zero_not_mem hp.bytes_ne_nil haccepted.length_le, hpieces]
    rfl
  constructor
  · rw [Disk.makeDir, htarget]
    rfl
  · rw [Disk.kind, Disk.resolve, htarget]
    rfl

/-- The same holds of a path without names, for which there is nothing to make. -/
theorem view_makeDirs_of_trimmed {p : Path} (hp : p.Plain) (haccepted : p.Accepted)
    (htrimmed : p.Trimmed) {d : Disk} (hclosed : Closed d.view)
    (hstart : d.view (d.start p) = some .dir)
    (hfile : ∀ m, m <+: d.locate p → ∀ i, d.node? m ≠ some (.file i)) :
    ((makeDirs p).run d).1 = .ok () ∧
      ∀ m, ((makeDirs p).run d).2.view m = if m <+: d.locate p then some .dir else d.view m := by
  by_cases hnames : p.names = []
  · obtain ⟨hmake, hkind⟩ := makeDir_of_names_eq_nil hp haccepted htrimmed hnames d
    rw [makeDirs, Path.ancestors, Path.ancestorsWithin, run_makeFirst_cons hp.bytes_ne_nil, hmake]
    refine ⟨by simp [hkind], fun m => ?_⟩
    dsimp only
    rw [Disk.locate, hnames, List.append_nil]
    split_ifs with hm
    · exact Disk.view_eq_dir.mpr (Disk.dirs_of_dir hclosed hstart hm)
    · rfl
  · exact view_makeDirs ⟨hp, haccepted, htrimmed, hnames⟩ hclosed hstart hfile

end BlobStore
