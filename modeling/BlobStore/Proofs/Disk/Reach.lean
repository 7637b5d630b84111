import BlobStore.Proofs.Disk.Effects
import BlobStore.Proofs.Path.Above

/-!
# Paths that can be followed

The lemmas of `Locate` say where a path leads if it can be followed.  Here is when it
can: its text is accepted by the system (`Path.Accepted`), does not end in a dot, and no
file stands in the way.  Then either all directories above its location are there, or
one of them is missing and so is everything below it (`target_cases`).

A path that ends in a dot leads to a directory as well as another one, but what is asked of
the entry itself is refused: such a directory can be emptied and not removed
(`removeTree_of_not_trimmed`).
-/

namespace BlobStore

/-- What the system asks of the text of a path: no zero byte, and neither the path nor a
name in it is too long. -/
structure Path.Accepted (p : Path) : Prop where
  zero_not_mem : 0 ∉ p.bytes
  length_le : p.bytes.length ≤ Disk.maxPath
  length_name_le : ∀ n ∈ p.names, n.length ≤ Disk.maxName

theorem Path.Accepted.length_le_of_mem_pieces {p : Path} (h : p.Accepted) :
    ∀ n ∈ p.pieces, n.length ≤ Disk.maxName := by
  intro n hn
  by_cases hdot : n = Path.dot
  · rw [hdot]
    decide
  · exact h.length_name_le n (List.mem_filter.mpr ⟨hn, by simpa using hdot⟩)

/-- What is above an accepted path is accepted. -/
theorem Path.Accepted.above {p : Path} (h : p.Accepted) (hp : p.Plain) : p.above.Accepted where
  zero_not_mem hmem := h.zero_not_mem (hp.isPrefix_above.subset hmem)
  length_le := hp.isPrefix_above.length_le.trans h.length_le
  length_name_le n hn := by
    rw [hp.names_above] at hn
    exact h.length_name_le n (List.mem_of_mem_dropLast hn)

namespace Disk

variable {d : Disk}

/-! ## Following parts -/

/-- With no file in the way, parts can be followed unless a directory is missing. -/
theorem walk_cases {parts : List Name} (hup : Path.dotDot ∉ parts)
    (hshort : ∀ n ∈ parts, n.length ≤ maxName) : ∀ {dir : Location},
      (∀ m, dir <+: m → m <+: dir ++ parts.filter (· ≠ Path.dot) →
        ∀ i, d.node? m ≠ some (.file i)) →
      d.walk dir parts = .ok (dir ++ parts.filter (· ≠ Path.dot)) ∨
        d.walk dir parts = .error (.system .noEntry) ∧
          ∃ m, m <+: dir ++ parts.filter (· ≠ Path.dot) ∧ d.node? m = none := by
  induction parts with
  | nil => intro dir _; exact Or.inl (by simp [walk])
  | cons part parts ih =>
    intro dir hfile
    rw [List.mem_cons, not_or] at hup
    have hshort' : ∀ n ∈ parts, n.length ≤ maxName := fun n hn =>
      hshort n (List.mem_cons_of_mem _ hn)
    by_cases hdot : part = Path.dot
    · subst hdot
      have henter : d.enter dir Path.dot = .ok dir := if_pos rfl
      rw [List.filter_cons_of_neg (by simp)] at hfile ⊢
      rw [walk, henter]
      exact ih hup.2 hshort' hfile
    · -- the part is a name, so the way leads through the location of that name
      have hsplit : dir ++ (part :: parts).filter (· ≠ Path.dot) =
          (dir ++ [part]) ++ parts.filter (· ≠ Path.dot) := by
        simp [hdot]
      have hnext : dir ++ [part] <+: (dir ++ [part]) ++ parts.filter (· ≠ Path.dot) :=
        List.prefix_append ..
      have hfind := d.find_of_length_le dir (hshort part List.mem_cons_self)
      rw [hsplit] at hfile ⊢
      cases hnode : d.node? (dir ++ [part]) with
      | none =>
        refine Or.inr ⟨?_, _, hnext, hnode⟩
        rw [walk, enter, if_neg hdot, if_neg (Ne.symm hup.1), hfind, hnode]
      | some node =>
        cases node with
        | file i => exact absurd hnode (hfile _ (List.prefix_append ..) hnext i)
        | dir =>
          have henter : d.enter dir part = .ok (dir ++ [part]) := by
            rw [enter, if_neg hdot, if_neg (Ne.symm hup.1), hfind, hnode]
          rw [walk, henter]
          exact ih hup.2 hshort' fun m hm hm' => hfile m ((List.prefix_append ..).trans hm) hm'

/-! ## Targets -/

/-- What a path that can be followed to its last name has to be. -/
structure Followable (p : Path) : Prop where
  plain : p.Plain
  accepted : p.Accepted
  trimmed : p.Trimmed
  names_ne_nil : p.names ≠ []

variable {p : Path}

namespace Followable

theorem locate_ne_nil (hp : Followable p) (d : Disk) : d.locate p ≠ [] :=
  List.append_ne_nil_of_right_ne_nil _ hp.names_ne_nil

theorem dropLast_locate (hp : Followable p) (d : Disk) :
    (d.locate p).dropLast = d.start p ++ p.names.dropLast :=
  List.dropLast_append_of_ne_nil hp.names_ne_nil

theorem locate_eq (hp : Followable p) (d : Disk) :
    d.locate p = (d.locate p).dropLast ++ [p.names.getLast hp.names_ne_nil] := by
  rw [hp.dropLast_locate, List.append_assoc, List.dropLast_append_getLast, locate]

/-- What is above or at a location is at it, or above or at its directory. -/
theorem eq_or_of_isPrefix (hp : Followable p) {d : Disk} {m : Location} (hm : m <+: d.locate p) :
    m = d.locate p ∨ m <+: (d.locate p).dropLast := by
  rw [hp.locate_eq d] at hm ⊢
  rwa [List.dropLast_concat, ← List.prefix_concat_iff]

theorem locate_not_isPrefix (hp : Followable p) (d : Disk) :
    ¬ d.locate p <+: (d.locate p).dropLast := by
  intro h
  have := h.length_le
  have := List.length_pos_iff.mpr (hp.locate_ne_nil d)
  rw [List.length_dropLast] at *
  omega

/-- The path above one of several names can be followed, too. -/
theorem above (hp : Followable p) (hnames : p.names.dropLast ≠ []) : Followable p.above := by
  have hne : p.above.names ≠ [] := by rwa [hp.plain.names_above]
  refine ⟨hp.plain.plain_above fun hempty => hne ?_, hp.accepted.above hp.plain,
    Path.trimmed_above p, hne⟩
  simp [Path.names, Path.pieces, hempty]

theorem locate_above (hp : Followable p) (d : Disk) : d.locate p.above = (d.locate p).dropLast := by
  rw [hp.dropLast_locate, locate, start, start, hp.plain.isAbsolute_above, hp.plain.names_above]

end Followable

/-- With no file in the way, a path can be followed unless a directory is missing. -/
theorem target_cases (hp : Followable p)
    (hfile : ∀ m, m <+: (d.locate p).dropLast → ∀ i, d.node? m ≠ some (.file i)) :
    d.target p = .ok ⟨(d.locate p).dropLast, .name (p.names.getLast hp.names_ne_nil),
        p.endsInSlash⟩ ∨
      d.target p = .error (.system .noEntry) ∧
        ∃ m, m <+: (d.locate p).dropLast ∧ d.node? m = none := by
  obtain ⟨hpieces, hfilter⟩ := hp.trimmed.pieces_eq hp.names_ne_nil
  have hlast : lastOf p.pieces = .name (p.names.getLast hp.names_ne_nil) := by
    have hmem := List.getLast_mem hp.names_ne_nil
    have hup : p.names.getLast hp.names_ne_nil ≠ Path.dotDot := fun heq =>
      hp.plain.dotDot_not_mem_pieces (heq ▸ List.mem_of_mem_filter hmem)
    rw [hpieces, lastOf, List.getLast?_concat]
    simp [Path.ne_dot_of_mem_names hmem, hup]
  have hup : Path.dotDot ∉ p.pieces.dropLast := fun hmem =>
    hp.plain.dotDot_not_mem_pieces (List.mem_of_mem_dropLast hmem)
  have hshort : ∀ n ∈ p.pieces.dropLast, n.length ≤ maxName := fun n hn =>
    hp.accepted.length_le_of_mem_pieces n (List.mem_of_mem_dropLast hn)
  have hlocate := hp.dropLast_locate d
  rw [← hfilter] at hlocate
  rw [target_eq_walk d hp.accepted.zero_not_mem hp.plain.bytes_ne_nil hp.accepted.length_le, hlast]
  rw [hlocate] at hfile ⊢
  rcases walk_cases hup hshort fun m _ hm => hfile m hm with hwalk | ⟨hwalk, hmissing⟩
  · exact Or.inl (by rw [hwalk]; rfl)
  · exact Or.inr ⟨by rw [hwalk]; rfl, hmissing⟩

/-- What is above or at a location stays when what is below is removed. -/
theorem node?_eraseBelow_of_isPrefix {l m : Location} (h : m <+: l) :
    (d.eraseBelow l).node? m = d.node? m := by
  rw [node?_eraseBelow, if_neg]
  rintro ⟨hle, hne⟩
  exact hne (h.eq_of_length_le hle.length_le)

/-- In a closed view all that is above a directory is there. -/
theorem dirs_of_dir (hclosed : Closed d.view) {l m : Location} (hl : d.view l = some .dir)
    (hm : m <+: l) : d.node? m = some .dir := by
  rw [← view_eq_dir]
  by_cases heq : m = l
  · rw [heq, hl]
  · exact hclosed.dir_of_prefix hm heq (by simp [hl])

/-- Whatever a path leads through is there, if it begins at a directory. -/
theorem dirs_of_target (hclosed : Closed d.view) (hplain : p.Plain)
    (hstart : d.view (d.start p) = some .dir) {t : Target} (htarget : d.target p = .ok t)
    {m : Location} (hm : m <+: t.dir) : d.node? m = some .dir := by
  obtain ⟨-, -, -, hwalk, -, -⟩ := target_eq_ok.mp htarget
  have hup : Path.dotDot ∉ p.pieces.dropLast := fun hmem =>
    hplain.dotDot_not_mem_pieces (List.mem_of_mem_dropLast hmem)
  refine dirs_of_dir hclosed ?_ hm
  rcases walk_eq_ok_dir hup hwalk with hsame | hdir
  · rw [hsame, hstart]
  · exact view_eq_dir.mpr hdir

/-- If all above a path's location is there, the path can be followed. -/
theorem target_of_dirs (hp : Followable p)
    (hdirs : ∀ m, m <+: (d.locate p).dropLast → d.node? m = some .dir) :
    d.target p = .ok ⟨(d.locate p).dropLast, .name (p.names.getLast hp.names_ne_nil),
      p.endsInSlash⟩ := by
  refine (target_cases hp fun m hm i => by simp [hdirs m hm]).resolve_right ?_
  rintro ⟨-, m, hm, hnone⟩
  rw [hdirs m hm] at hnone
  exact absurd hnone (by simp)

/-- The name at the end of such a path is looked up at its location. -/
theorem find_eq_node? (hp : Followable p) (d : Disk) :
    d.find (d.locate p).dropLast (p.names.getLast hp.names_ne_nil) = .ok (d.node? (d.locate p)) := by
  rw [d.find_of_length_le _ (hp.accepted.length_name_le _ (List.getLast_mem _)),
    ← hp.locate_eq d]

theorem leads_of_dirs (hp : Followable p) (hslash : p.endsInSlash = false)
    (hdirs : ∀ m, m <+: (d.locate p).dropLast → d.node? m = some .dir) : d.Leads p (d.locate p) :=
  ⟨_, _, hslash ▸ target_of_dirs hp hdirs,
    hp.accepted.length_name_le _ (List.getLast_mem hp.names_ne_nil), hp.locate_eq d⟩

/-! ## Requests that cannot fail otherwise -/

section requests

variable (hp : Followable p) (hdirs : ∀ m, m <+: (d.locate p).dropLast → d.node? m = some .dir)

include hp hdirs

theorem makeDir_of_dirs (hnone : d.node? (d.locate p) = none) :
    d.makeDir p = .ok (d.insert (d.locate p) .dir) := by
  have htarget := target_of_dirs hp hdirs
  have hfind := find_eq_node? hp d
  rw [hnone] at hfind
  have hlocate := hp.locate_eq d
  simp only [makeDir, htarget, hfind, bind, Except.bind]
  rw [← hlocate]
  rfl

theorem resolve_of_dir (hdir : d.node? (d.locate p) = some .dir) :
    d.resolve p = .ok (d.locate p, .dir) := by
  have htarget := target_of_dirs hp hdirs
  have hfind := find_eq_node? hp d
  have hlocate := hp.locate_eq d
  rw [hdir] at hfind
  simp only [resolve, htarget, hfind, bind, Except.bind]
  rw [← hlocate]
  rfl

theorem makeDir_of_taken (hdir : d.node? (d.locate p) = some .dir) :
    d.makeDir p = .error (.system .taken) ∧ d.kind p = .ok .dir := by
  constructor
  · have htarget := target_of_dirs hp hdirs
    have hfind := find_eq_node? hp d
    rw [hdir] at hfind
    simp only [makeDir, htarget, hfind, bind, Except.bind]
    rfl
  · rw [kind, resolve_of_dir hp hdirs hdir]
    rfl

/-- A directory cannot be removed as a file. -/
theorem unlink_of_dir (hdir : d.node? (d.locate p) = some .dir) :
    d.unlink p = .error (.system .isDirectory) := by
  have htarget := target_of_dirs hp hdirs
  have hfind := find_eq_node? hp d
  rw [hdir] at hfind
  simp only [unlink, htarget, hfind, bind, Except.bind]
  rfl

/-- A directory can be removed with all that is in it. -/
theorem removeTree_of_dir (hdir : d.node? (d.locate p) = some .dir) :
    d.removeTree p = (.ok (), (d.eraseBelow (d.locate p)).erase (d.locate p)) := by
  -- all above is still there when what is below has been removed
  have htarget : (d.eraseBelow (d.locate p)).target p = .ok ⟨(d.locate p).dropLast,
      .name (p.names.getLast hp.names_ne_nil), p.endsInSlash⟩ := by
    apply target_of_dirs hp
    intro m hm
    have hle : m <+: d.locate p := hm.trans (List.dropLast_prefix _)
    rw [node?_eraseBelow_of_isPrefix hle, hdirs m hm]
  rw [removeTree, resolve_of_dir hp hdirs hdir]
  dsimp only
  rw [htarget]

end requests

/-! ## Paths that end in a dot -/

section dots

variable (hp : p.Plain) (haccepted : p.Accepted) (hdot : ¬ p.Trimmed)

include hp haccepted hdot

/-- With no file in the way, a path that ends in a dot leads to the directory itself unless
a directory is missing. -/
theorem target_cases_of_not_trimmed
    (hfile : ∀ m, m <+: d.locate p → ∀ i, d.node? m ≠ some (.file i)) :
    d.target p = .ok ⟨d.locate p, .here, p.endsInSlash⟩ ∨
      d.target p = .error (.system .noEntry) ∧ ∃ m, m <+: d.locate p ∧ d.node? m = none := by
  obtain ⟨hpieces, hfilter⟩ := Path.pieces_eq_of_not_trimmed hdot
  have hlast : lastOf p.pieces = .here := by
    rw [hpieces, lastOf, List.getLast?_concat]
    exact if_pos rfl
  have hup : Path.dotDot ∉ p.pieces.dropLast := fun hmem =>
    hp.dotDot_not_mem_pieces (List.mem_of_mem_dropLast hmem)
  have hshort := haccepted.length_le_of_mem_pieces
  rw [target_eq_walk d haccepted.zero_not_mem hp.bytes_ne_nil haccepted.length_le, hlast]
  rw [locate, ← hfilter] at hfile ⊢
  rcases walk_cases hup (fun n hn => hshort n (List.mem_of_mem_dropLast hn))
    fun m _ hm => hfile m hm with hwalk | ⟨hwalk, hmissing⟩
  · exact Or.inl (by rw [hwalk]; rfl)
  · exact Or.inr ⟨by rw [hwalk]; rfl, hmissing⟩

/-- What is in a directory is removed, but not the directory. -/
theorem removeTree_of_not_trimmed
    (hdirs : ∀ m, m <+: d.locate p → d.node? m = some .dir) :
    d.removeTree p = (.error (.system .invalid), d.eraseBelow (d.locate p)) := by
  have htarget (d' : Disk) (hlocate : d'.locate p = d.locate p)
      (hdirs' : ∀ m, m <+: d.locate p → d'.node? m = some .dir) :
      d'.target p = .ok ⟨d.locate p, .here, p.endsInSlash⟩ := by
    rw [← hlocate] at hdirs' ⊢
    refine (target_cases_of_not_trimmed hp haccepted hdot fun m hm i => ?_).resolve_right ?_
    · simp [hdirs' m hm]
    · rintro ⟨-, m, hm, hnone⟩
      rw [hdirs' m hm] at hnone
      exact absurd hnone (by simp)
  have hresolve : d.resolve p = .ok (d.locate p, .dir) := by
    rw [resolve, htarget d rfl hdirs]
    rfl
  have hcleared : (d.eraseBelow (d.locate p)).target p = .ok ⟨d.locate p, .here, p.endsInSlash⟩ := by
    apply htarget (d.eraseBelow (d.locate p)) rfl
    intro m hm
    rw [node?_eraseBelow_of_isPrefix hm, hdirs m hm]
  rw [removeTree, hresolve]
  dsimp only
  rw [hcleared]

/-- Nothing is removed where nothing is. -/
theorem removeTree_of_not_trimmed_of_missing (hne : p.names ≠ [])
    (hfile : ∀ m, m <+: d.locate p → ∀ i, d.node? m ≠ some (.file i))
    (hnone : d.node? (d.locate p) = none) :
    d.removeTree p = (.error (.system .noEntry), d) := by
  rcases target_cases_of_not_trimmed hp haccepted hdot hfile with htarget | ⟨htarget, -⟩
  · -- a path that can be followed leads to a directory
    obtain ⟨-, -, -, hwalk, -⟩ := target_eq_ok.mp htarget
    have hup : Path.dotDot ∉ p.pieces.dropLast := fun hmem =>
      hp.dotDot_not_mem_pieces (List.mem_of_mem_dropLast hmem)
    rcases walk_eq_ok_dir hup hwalk with hstart | hdir
    · exact absurd hstart (by simpa [locate] using hne)
    · rw [hnone] at hdir
      exact absurd hdir (by simp)
  · have hresolve : d.resolve p = .error (.system .noEntry) := by
      rw [resolve, htarget]
      rfl
    rw [removeTree, hresolve]

end dots

/-! ## Nothing to be found -/

section missing

variable (hp : Followable p)
  (hfile : ∀ m, m <+: (d.locate p).dropLast → ∀ i, d.node? m ≠ some (.file i))
  (hnone : d.node? (d.locate p) = none)

include hp hfile hnone

/-- Following a path at whose location there is nothing fails for want of an entry, if no
file is in the way. -/
theorem resolve_of_missing : d.resolve p = .error (.system .noEntry) := by
  have hfind := find_eq_node? hp d
  rw [hnone] at hfind
  rcases target_cases hp hfile with htarget | ⟨htarget, -⟩
  · simp only [resolve, htarget, hfind, bind, Except.bind]
    rfl
  · rw [resolve, htarget]
    rfl

theorem unlink_of_missing : d.unlink p = .error (.system .noEntry) := by
  have hfind := find_eq_node? hp d
  rw [hnone] at hfind
  rcases target_cases hp hfile with htarget | ⟨htarget, -⟩
  · simp only [unlink, htarget, hfind, bind, Except.bind]
    rfl
  · rw [unlink, htarget]
    rfl

theorem removeTree_of_missing : d.removeTree p = (.error (.system .noEntry), d) := by
  rw [removeTree, resolve_of_missing hp hfile hnone]

end missing

end Disk

end BlobStore
