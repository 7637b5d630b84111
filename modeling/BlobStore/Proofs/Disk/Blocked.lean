import BlobStore.Proofs.Disk.Numbers
import BlobStore.Proofs.Disk.Reach

/-!
# Files in the way

A file that stands where a path asks for a directory is in the way, and whatever is asked of the
path fails for want of a directory (`target_of_blocked`); with no file in the way the path can be
followed, or a directory is missing (`target_cases`).  So what a path is answered depends on two
things only: whether a file is in the way, and what lies at its location.

The disk has to be a tree, and the path has to begin at a directory (`Disk.Tree`).  For a relative
path this is the base; an absolute path begins at the top, so that the base may be missing.
-/

namespace BlobStore.Disk

variable {d d' : Disk} {p : Path} {l m : Location}

/-- A tree on which a path begins at a directory. -/
structure Tree (d : Disk) (p : Path) : Prop extends Unshared d where
  closed : Closed d.view
  start_dir : d.view (d.start p) = some .dir

/-- A file stands at a location or above it. -/
def Blocked (d : Disk) (l : Location) : Prop := ∃ m, m <+: l ∧ ∃ i, d.node? m = some (.file i)

theorem not_blocked :
    ¬ d.Blocked l ↔ ∀ m, m <+: l → ∀ i, d.node? m ≠ some (.file i) := by
  simp only [Blocked, not_exists, not_and]

theorem Blocked.of_isPrefix (h : d.Blocked l) (hle : l <+: m) : d.Blocked m := by
  obtain ⟨k, hk, hfile⟩ := h
  exact ⟨k, hk.trans hle, hfile⟩

/-- Why a directory cannot be made at a location where a file is in the way: the file is there, or
it stands above. -/
def obstacle (d : Disk) (l : Location) : Errno :=
  match d.view l with
  | some (.file _) => .taken
  | _ => .notDirectory

theorem exists_file_iff :
    (∃ i, d.node? l = some (.file i)) ↔ ∃ b, d.view l = some (.file b) := by
  constructor
  · rintro ⟨i, hi⟩
    exact ⟨_, view_of_file hi⟩
  · rintro ⟨b, hb⟩
    obtain ⟨i, hi, -⟩ := view_eq_file.mp hb
    exact ⟨i, hi⟩

/-- Whether a file is in the way can be seen. -/
theorem blocked_iff : d.Blocked l ↔ ∃ m, m <+: l ∧ ∃ b, d.view m = some (.file b) := by
  simp only [Blocked, exists_file_iff]

theorem Blocked.of_view (h : d'.Blocked l)
    (hview : ∀ m b, d'.view m = some (.file b) → d.view m = some (.file b)) : d.Blocked l := by
  obtain ⟨m, hm, b, hb⟩ := blocked_iff.mp h
  exact blocked_iff.mpr ⟨m, hm, b, hview m b hb⟩

/-- Above what is there, there are directories only. -/
theorem not_blocked_of_view (hclosed : Closed d.view) (hl : d.view l ≠ none) :
    ¬ d.Blocked l.dropLast := by
  rw [not_blocked]
  intro m hm i hi
  by_cases hnil : l = []
  · rw [hnil, List.dropLast_nil, List.prefix_nil] at hm
    rw [hm, node?_nil] at hi
    cases hi
  · have hne : m ≠ l := by
      rintro rfl
      have := hm.length_le
      rw [List.length_dropLast] at this
      have := List.length_pos_iff.mpr hnil
      omega
    have hdir := hclosed.dir_of_prefix (hm.trans (List.dropLast_prefix l)) hne hl
    rw [view_of_file hi] at hdir
    cases hdir

theorem obstacle_of_file {b : ByteArray} (h : d.view l = some (.file b)) :
    d.obstacle l = .taken := by
  rw [obstacle, h]

theorem obstacle_of_blocked (hclosed : Closed d.view) (h : d.Blocked l.dropLast) :
    d.obstacle l = .notDirectory := by
  unfold obstacle
  split
  · next b hb => exact absurd h (not_blocked_of_view hclosed (by simp [hb]))
  · rfl

/-! ## Following a path -/

/-- Parts that lead through a file cannot be followed. -/
theorem walk_of_blocked (hclosed : Closed d.view) {parts : List Name}
    (hup : Path.dotDot ∉ parts) (hshort : ∀ n ∈ parts, n.length ≤ maxName) : ∀ {dir : Location},
      d.node? dir = some .dir → d.Blocked (dir ++ parts.filter (· ≠ Path.dot)) →
        d.walk dir parts = .error (.system .notDirectory) := by
  induction parts with
  | nil =>
    rintro dir hdir ⟨m, hm, i, hi⟩
    rw [List.filter_nil, List.append_nil] at hm
    rw [dirs_of_dir hclosed (view_eq_dir.mpr hdir) hm] at hi
    cases hi
  | cons part parts ih =>
    intro dir hdir hblocked
    rw [List.mem_cons, not_or] at hup
    have hshort' : ∀ n ∈ parts, n.length ≤ maxName := fun n hn =>
      hshort n (List.mem_cons_of_mem _ hn)
    by_cases hdot : part = Path.dot
    · have henter : d.enter dir part = .ok dir := if_pos hdot
      rw [List.filter_cons_of_neg (by simp [hdot])] at hblocked
      rw [walk, henter]
      exact ih hup.2 hshort' hdir hblocked
    · have hsplit : dir ++ (part :: parts).filter (· ≠ Path.dot) =
          (dir ++ [part]) ++ parts.filter (· ≠ Path.dot) := by
        simp [hdot]
      have hfind := d.find_of_length_le dir (hshort part List.mem_cons_self)
      rw [hsplit] at hblocked
      rw [walk, enter, if_neg hdot, if_neg (Ne.symm hup.1), hfind]
      cases hnode : d.node? (dir ++ [part]) with
      | none =>
        -- the file would lie below what is missing, or above a directory
        obtain ⟨m, hm, i, hi⟩ := hblocked
        rcases List.prefix_or_prefix_of_prefix hm (List.prefix_append (dir ++ [part]) _) with
          habove | hbelow
        · rcases List.prefix_concat_iff.mp habove with rfl | hway
          · rw [hnode] at hi
            cases hi
          · rw [dirs_of_dir hclosed (view_eq_dir.mpr hdir) hway] at hi
            cases hi
        · have hnone := hclosed.none_of_none hbelow (view_eq_none.mpr hnode)
          rw [view_of_file hi] at hnone
          cases hnone
      | some node =>
        cases node with
        | file i => rfl
        | dir => exact ih hup.2 hshort' hnode hblocked

/-- A path on whose way a file stands cannot be followed. -/
theorem target_of_blocked (hp : Followable p) (hd : d.Tree p)
    (hblocked : d.Blocked (d.locate p).dropLast) :
    d.target p = .error (.system .notDirectory) := by
  obtain ⟨hpieces, hfilter⟩ := hp.trimmed.pieces_eq hp.names_ne_nil
  have hup : Path.dotDot ∉ p.pieces.dropLast := fun hmem =>
    hp.plain.dotDot_not_mem_pieces (List.mem_of_mem_dropLast hmem)
  have hshort : ∀ n ∈ p.pieces.dropLast, n.length ≤ maxName := fun n hn =>
    hp.accepted.length_le_of_mem_pieces n (List.mem_of_mem_dropLast hn)
  rw [hp.dropLast_locate d, ← hfilter] at hblocked
  rw [target_eq_walk d hp.accepted.zero_not_mem hp.plain.bytes_ne_nil hp.accepted.length_le,
    walk_of_blocked hd.closed hup hshort (view_eq_dir.mp hd.start_dir) hblocked]
  rfl

/-- With no file in the way either all above a path's location is there, or a directory is
missing and nothing is at the location. -/
theorem dirs_or_missing (hp : Followable p) (hd : d.Tree p)
    (hway : ¬ d.Blocked (d.locate p).dropLast) :
    (∀ m, m <+: (d.locate p).dropLast → d.node? m = some .dir) ∨
      d.target p = .error (.system .noEntry) ∧ d.node? (d.locate p) = none := by
  rcases target_cases hp (not_blocked.mp hway) with htarget | ⟨htarget, m, hm, hmissing⟩
  · exact Or.inl fun m hm => dirs_of_target hd.closed hp.plain hd.start_dir htarget hm
  · refine Or.inr ⟨htarget, view_eq_none.mp ?_⟩
    exact hd.closed.none_of_none (hm.trans (List.dropLast_prefix _)) (view_eq_none.mpr hmissing)

/-! ## What is asked of the path -/

section requests

variable (hp : Followable p) (hd : d.Tree p)

include hp hd

theorem resolve_of_blocked (hblocked : d.Blocked (d.locate p).dropLast) :
    d.resolve p = .error (.system .notDirectory) := by
  rw [resolve, target_of_blocked hp hd hblocked]
  rfl

/-- What lies at the location of a path is found. -/
theorem resolve_of_node? (hslash : p.endsInSlash = false) {n : Node}
    (hnode : d.node? (d.locate p) = some n) : d.resolve p = .ok (d.locate p, n) := by
  have hway : ¬ d.Blocked (d.locate p).dropLast :=
    not_blocked_of_view hd.closed fun hnone => by simp [view_eq_none.mp hnone] at hnode
  rcases dirs_or_missing hp hd hway with hdirs | ⟨-, hnone⟩
  · rw [(leads_of_dirs hp hslash hdirs).resolve_eq, hnode]
  · rw [hnode] at hnone
    cases hnone

/-- Where nothing is, either a file is in the way or an entry is missing. -/
theorem resolve_of_none (hnone : d.node? (d.locate p) = none) :
    d.resolve p = .error (.system .notDirectory) ∨ d.resolve p = .error (.system .noEntry) := by
  by_cases hblocked : d.Blocked (d.locate p).dropLast
  · exact Or.inl (resolve_of_blocked hp hd hblocked)
  · exact Or.inr (resolve_of_missing hp (not_blocked.mp hblocked) hnone)

/-- A directory cannot be made where a file is, nor below a file. -/
theorem makeDir_of_blocked (hblocked : d.Blocked (d.locate p)) :
    d.makeDir p = .error (.system (d.obstacle (d.locate p))) ∧ d.kind p ≠ .ok .dir := by
  by_cases habove : d.Blocked (d.locate p).dropLast
  · have hobstacle := obstacle_of_blocked hd.closed habove
    constructor
    · rw [makeDir, target_of_blocked hp hd habove, hobstacle]
      rfl
    · rw [kind, resolve_of_blocked hp hd habove]
      exact fun h => by cases h
  · -- the file is in the place of the directory
    obtain ⟨m, hm, i, hi⟩ := hblocked
    obtain rfl : m = d.locate p := (hp.eq_or_of_isPrefix hm).resolve_right fun hway =>
      habove ⟨m, hway, i, hi⟩
    rcases dirs_or_missing hp hd habove with hdirs | ⟨-, hnone⟩
    · have htarget := target_of_dirs hp hdirs
      have hfind := find_eq_node? hp d
      rw [hi] at hfind
      constructor
      · simp only [makeDir, htarget, hfind, bind, Except.bind, obstacle, view_of_file hi]
        rfl
      · simp only [kind, resolve, htarget, hfind, bind, Except.bind]
        cases p.endsInSlash <;> exact fun h => by cases h
    · rw [hi] at hnone
      cases hnone

/-- A tree cannot be removed where a file is, nor below a file. -/
theorem removeTree_of_blocked (hslash : p.endsInSlash = false)
    (hblocked : d.Blocked (d.locate p)) :
    d.removeTree p = (.error (.system .notDirectory), d) := by
  by_cases habove : d.Blocked (d.locate p).dropLast
  · rw [removeTree, resolve_of_blocked hp hd habove]
  · obtain ⟨m, hm, i, hi⟩ := hblocked
    obtain rfl : m = d.locate p := (hp.eq_or_of_isPrefix hm).resolve_right fun hway =>
      habove ⟨m, hway, i, hi⟩
    rw [removeTree, resolve_of_node? hp hd hslash hi]

/-- A file cannot be removed below a file. -/
theorem unlink_of_blocked (hblocked : d.Blocked (d.locate p).dropLast) :
    d.unlink p = .error (.system .notDirectory) := by
  rw [unlink, target_of_blocked hp hd hblocked]
  rfl

/-- A path leads to a file if and only if one lies at its location. -/
theorem file?_eq_some_iff (hslash : p.endsInSlash = false) {b : ByteArray} :
    d.file? p = some b ↔ d.view (d.locate p) = some (.file b) := by
  rw [file?_eq_some, view_eq_file]
  refine exists_congr fun i => and_congr_left fun _ => ?_
  constructor
  · intro h
    obtain ⟨l, hleads, hnode⟩ := number?_eq_some.mp h
    rwa [← hleads.eq_locate hp.plain]
  · intro hnode
    rw [number?, resolve_of_node? hp hd hslash hnode]

/-- A path that leads to no file leads to a directory, or nowhere. -/
theorem resolve_of_file?_eq_none (hslash : p.endsInSlash = false) (hfile : d.file? p = none) :
    d.resolve p = .ok (d.locate p, .dir) ∨ ∃ e, e.isMissing = true ∧ d.resolve p = .error e := by
  cases hnode : d.node? (d.locate p) with
  | none =>
    refine Or.inr ?_
    rcases resolve_of_none hp hd hnode with h | h
    · exact ⟨_, rfl, h⟩
    · exact ⟨_, rfl, h⟩
  | some n =>
    cases n with
    | dir => exact Or.inl (resolve_of_node? hp hd hslash hnode)
    | file i =>
      rw [(file?_eq_some_iff hp hd hslash).mpr (view_of_file hnode)] at hfile
      cases hfile

end requests

end BlobStore.Disk
