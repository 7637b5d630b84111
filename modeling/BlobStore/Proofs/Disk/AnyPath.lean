import BlobStore.Proofs.Disk.Reach

/-!
# Any path at all

A path that goes up again may lead through what it removes.  Where such a path leads is not known
from its text, and after a change it may lead nowhere.  What is known is this.

* Of a longer path all shorter ones can be followed, and lead to directories
  (`resolve_of_pieces`, `resolve_of_resolve_join`).
* On a disk with fewer entries a path leads where it led before, or there is no entry on its way
  (`Fewer.target_eq`).

Removing the tree at a path follows the path twice, before what lies below is removed and after it.
The second time can therefore fail for want of an entry only, and `Removal` lists all that can
happen.
-/

namespace BlobStore

/-- The last piece of a path is a name, and not one or two dots. -/
def Path.EndsInName (p : Path) : Prop :=
  ∃ n, p.pieces.getLast? = some n ∧ n ≠ dot ∧ n ≠ dotDot

namespace Disk

variable {d d' : Disk} {p q : Path} {l : Location}

/-! ## Longer paths -/

/-- All ways in which a part leads to a directory. -/
theorem enter_cases {dir : Location} {part : Name} (h : d.enter dir part = .ok l) :
    part = Path.dot ∧ l = dir ∨ part = Path.dotDot ∧ l = dir.dropLast ∨
      (part ≠ Path.dot ∧ part ≠ Path.dotDot) ∧ l = dir ++ [part] ∧ d.node? l = some .dir ∧
        part.length ≤ maxName := by
  by_cases hup : part = Path.dotDot
  · subst hup
    exact Or.inr (Or.inl ⟨rfl, (Except.ok.inj h).symm⟩)
  · rcases enter_eq_ok hup h with hdot | ⟨hdot, hl, hnode, hlength⟩
    · exact Or.inl hdot
    · exact Or.inr (Or.inr ⟨⟨hdot, hup⟩, hl, hnode, hlength⟩)

theorem walk_append_eq_ok {xs ys : List Name} : ∀ {dir : Location},
    d.walk dir (xs ++ ys) = .ok l → ∃ m, d.walk dir xs = .ok m ∧ d.walk m ys = .ok l := by
  induction xs with
  | nil => intro dir h; exact ⟨dir, rfl, h⟩
  | cons x xs ih =>
    intro dir h
    obtain ⟨next, henter, hwalk⟩ := walk_cons_eq_ok h
    obtain ⟨m, hm, hrest⟩ := ih hwalk
    exact ⟨m, by rw [walk, henter]; exact hm, hrest⟩

/-- A path of which all pieces lead to directories leads to a directory. -/
theorem resolve_of_walk (hzero : 0 ∉ p.bytes) (hempty : p.bytes ≠ [])
    (hlong : p.bytes.length ≤ maxPath) (h : d.walk (d.start p) p.pieces = .ok l) :
    d.resolve p = .ok (l, .dir) := by
  rw [resolve, target_eq_walk d hzero hempty hlong]
  by_cases hpieces : p.pieces = []
  · rw [hpieces] at h ⊢
    obtain rfl := Except.ok.inj h
    rfl
  · rw [← List.dropLast_append_getLast hpieces] at h
    obtain ⟨dir, hdir, hlast⟩ := walk_append_eq_ok h
    obtain ⟨next, henter, hnext⟩ := walk_cons_eq_ok hlast
    obtain rfl := Except.ok.inj hnext
    rw [hdir, lastOf, List.getLast?_eq_some_getLast hpieces]
    dsimp only [Except.map, bind, Except.bind]
    rcases enter_cases henter with ⟨hdot, rfl⟩ | ⟨hup, rfl⟩ | ⟨⟨hdot, hup⟩, rfl, hnode, hlength⟩
    · rw [if_pos hdot]
      rfl
    · rw [hup]
      rfl
    · have hfind := d.find_of_length_le dir hlength
      rw [if_neg hdot, if_neg hup]
      simp only [hfind, hnode]
      rfl

/-- A text that goes on after a path can be followed only if the path leads to a directory. -/
theorem resolve_of_pieces (hp : p.bytes ≠ []) (hbegins : p.bytes <+: q.bytes) {after : List Name}
    (hafter : after ≠ []) (hpieces : q.pieces = p.pieces ++ after) {found : Location × Node}
    (h : d.resolve q = .ok found) : ∃ l, d.resolve p = .ok (l, .dir) := by
  obtain ⟨t, htarget, -⟩ := exists_of_bind_eq_ok h
  obtain ⟨hzero, -, hlong, hwalk, -⟩ := target_eq_ok.mp htarget
  have hstart : d.start q = d.start p := by
    obtain ⟨b, bs, hb⟩ := List.exists_cons_of_ne_nil hp
    obtain ⟨rest, hrest⟩ := hbegins
    rw [start, start, Path.isAbsolute, Path.isAbsolute, ← hrest, hb]
    rfl
  rw [hstart, hpieces, List.dropLast_append_of_ne_nil hafter] at hwalk
  obtain ⟨l, hl, -⟩ := walk_append_eq_ok hwalk
  have hlength := hbegins.length_le
  exact ⟨l, resolve_of_walk (fun hmem => hzero (hbegins.subset hmem)) hp (by omega) hl⟩

/-- What lies below a path can be found only if the path leads to a directory. -/
theorem resolve_of_resolve_join (hp : p.bytes ≠ []) (hq : q.isAbsolute = false) (hne : q.bytes ≠ [])
    {found : Location × Node} (h : d.resolve (p.join q) = .ok found) :
    ∃ l, d.resolve p = .ok (l, .dir) := by
  have hpieces : q.pieces ≠ [] := by
    obtain ⟨b, bs, hb⟩ := List.exists_cons_of_ne_nil hne
    have hslash : b ≠ Path.slash := by
      rintro rfl
      rw [Path.isAbsolute_iff.mpr ⟨bs, hb⟩] at hq
      cases hq
    obtain ⟨part, parts, -, hcons⟩ := Text.parts_cons_of_ne hslash bs
    rw [Path.pieces, Text.pieces, hb, hcons]
    simp
  have hbegins : p.bytes <+: (p.join q).bytes := by
    obtain ⟨between, -, hbytes⟩ := Path.bytes_join (p := p) hq
    rw [hbytes, List.append_assoc]
    exact List.prefix_append ..
  exact resolve_of_pieces hp hbegins hpieces (Path.pieces_join hq) h

/-- A path that can be resolved has a target, which is where it leads unless it ends in `..`. -/
theorem exists_target_of_resolve {node : Node} (h : d.resolve p = .ok (l, node)) :
    ∃ t, d.target p = .ok t ∧ (t.last ≠ .up → l = t.location) ∧
      ∀ n, t.last = .name n → n.length ≤ maxName := by
  obtain ⟨⟨dir, last, slash⟩, htarget, hfound⟩ := exists_of_bind_eq_ok h
  refine ⟨_, htarget, ?_⟩
  cases last with
  | top => cases hfound; exact ⟨fun _ => rfl, by simp⟩
  | here => cases hfound; exact ⟨fun _ => rfl, by simp⟩
  | up => exact ⟨fun hup => absurd rfl hup, by simp⟩
  | name n =>
    obtain ⟨o, hfind, hfound⟩ := exists_of_bind_eq_ok hfound
    have hlength : ∀ m, Last.name n = .name m → m.length ≤ maxName := by
      rintro m ⟨⟩
      exact (find_eq_ok hfind).2
    rcases o with _ | _ | i
    · cases hfound
    · cases hfound
      exact ⟨fun _ => rfl, hlength⟩
    · cases slash <;> cases hfound
      exact ⟨fun _ => rfl, hlength⟩

/-! ## Fewer entries -/

/-- A disk on which some entries of another one are missing. -/
structure Fewer (d d' : Disk) : Prop where
  base : d'.base = d.base
  node : ∀ m, d'.node? m = d.node? m ∨ d'.node? m = none

namespace Fewer

theorem eraseBelow (d : Disk) (l : Location) : d.Fewer (d.eraseBelow l) where
  base := rfl
  node m := by
    rw [node?_eraseBelow]
    split_ifs
    · exact Or.inr rfl
    · exact Or.inl rfl

variable (h : d.Fewer d')

include h

theorem erase (hl : l ≠ []) : d.Fewer (d'.erase l) where
  base := h.base
  node m := by
    rw [node?_erase hl]
    split_ifs
    · exact Or.inr rfl
    · exact h.node m

theorem enter_eq {dir : Location} {part : Name} (henter : d.enter dir part = .ok l) :
    d'.enter dir part = .ok l ∨ d'.enter dir part = .error (.system .noEntry) := by
  rcases enter_cases henter with ⟨rfl, -⟩ | ⟨rfl, -⟩ | ⟨⟨hdot, hup⟩, rfl, hnode, hlength⟩
  · exact Or.inl henter
  · exact Or.inl henter
  · rw [enter, if_neg hdot, if_neg hup, find_of_length_le d' dir hlength]
    rcases h.node (dir ++ [part]) with hsame | hnone
    · rw [hsame, hnode]
      exact Or.inl rfl
    · rw [hnone]
      exact Or.inr rfl

theorem walk_eq {parts : List Name} : ∀ {dir : Location}, d.walk dir parts = .ok l →
    d'.walk dir parts = .ok l ∨ d'.walk dir parts = .error (.system .noEntry) := by
  induction parts with
  | nil => intro dir hwalk; exact Or.inl hwalk
  | cons part parts ih =>
    intro dir hwalk
    obtain ⟨next, henter, hrest⟩ := walk_cons_eq_ok hwalk
    rcases h.enter_eq henter with hsame | hnone
    · rw [walk, hsame]
      exact ih hrest
    · rw [walk, hnone]
      exact Or.inr rfl

/-- A path leads where it led before, or there is no entry on its way. -/
theorem target_eq {t : Target} (htarget : d.target p = .ok t) :
    d'.target p = .ok t ∨ d'.target p = .error (.system .noEntry) := by
  obtain ⟨hzero, hempty, hlong, hwalk, hlast⟩ := target_eq_ok.mp htarget
  have hstart : d'.start p = d.start p := by rw [start, start, h.base]
  rcases h.walk_eq hwalk with hwalk' | hwalk'
  · exact Or.inl (target_eq_ok.mpr ⟨hzero, hempty, hlong, hstart ▸ hwalk', hlast⟩)
  · refine Or.inr ?_
    rw [target_eq_walk d' hzero hempty hlong, hstart, hwalk']
    rfl

end Fewer

/-! ## Ways through a directory -/

/-- On the way to its last piece a path goes down from a location, or from below it. -/
def EntersBelow (d : Disk) (p : Path) (l : Location) : Prop :=
  ∃ before part after m, p.pieces.dropLast = before ++ part :: after ∧
    d.walk (d.start p) before = .ok m ∧ l <+: m ∧ d.enter m part = .ok (m ++ [part])

/-- Where a way is lost when what lies below a location is removed, it has entered that. -/
theorem exists_enter_of_walk {parts : List Name} : ∀ {dir end_ : Location},
    d.walk dir parts = .ok end_ → (d.eraseBelow l).walk dir parts = .error (.system .noEntry) →
      ∃ before part after m, parts = before ++ part :: after ∧ d.walk dir before = .ok m ∧
        l <+: m ∧ d.enter m part = .ok (m ++ [part]) := by
  induction parts with
  | nil => intro dir end_ _ hlost; cases hlost
  | cons part parts ih =>
    intro dir end_ hwalk hlost
    obtain ⟨next, henter, hrest⟩ := walk_cons_eq_ok hwalk
    rcases (Fewer.eraseBelow d l).enter_eq henter with hsame | hnone
    · rw [walk, hsame] at hlost
      obtain ⟨before, part', after, m, rfl, hm, hlm, hpart⟩ := ih hrest hlost
      exact ⟨part :: before, part', after, m, rfl, by rw [walk, henter]; exact hm, hlm, hpart⟩
    · rcases enter_cases henter with ⟨rfl, rfl⟩ | ⟨rfl, rfl⟩ | ⟨⟨hdot, hup⟩, rfl, hnode, hlength⟩
      · cases hnone
      · cases hnone
      · refine ⟨[], part, parts, dir, rfl, rfl, ?_, henter⟩
        -- the entry that is missing now was removed
        by_contra hlm
        have hkept : (d.eraseBelow l).node? (dir ++ [part]) = some .dir := by
          rw [node?_eraseBelow, if_neg, hnode]
          rintro ⟨hle, hne⟩
          exact (List.prefix_concat_iff.mp hle).elim (fun heq => hne heq.symm) hlm
        rw [enter, if_neg hdot, if_neg hup, find_of_length_le _ dir hlength, hkept] at hnone
        cases hnone

/-- A way that enters what is removed is lost. -/
theorem EntersBelow.walk_ne (h : d.EntersBelow p l) (dir : Location) :
    (d.eraseBelow l).walk (d.start p) p.pieces.dropLast ≠ .ok dir := by
  obtain ⟨before, part, after, m, hsplit, hm, hlm, henter⟩ := h
  rw [hsplit]
  intro hwalk
  obtain ⟨m', hm', hrest⟩ := walk_append_eq_ok hwalk
  obtain rfl : m' = m := by
    rcases (Fewer.eraseBelow d l).walk_eq hm with hsame | hnone
    · exact Except.ok.inj (hm'.symm.trans hsame)
    · rw [hnone] at hm'
      cases hm'
  obtain ⟨next, henter', -⟩ := walk_cons_eq_ok hrest
  have hgone : (d.eraseBelow l).node? (m' ++ [part]) = none := by
    rw [node?_eraseBelow, if_pos]
    refine ⟨hlm.trans (List.prefix_append ..), ?_⟩
    rintro rfl
    exact absurd hlm.length_le (by simp)
  rcases (Fewer.eraseBelow d l).enter_eq henter with hsame | hnone
  · rcases enter_cases hsame with ⟨-, heq⟩ | ⟨-, heq⟩ | ⟨-, -, hnode, -⟩
    · exact absurd (congrArg List.length heq) (by simp)
    · have := congrArg List.length heq
      rw [List.length_append, List.length_dropLast, List.length_singleton] at this
      omega
    · rw [hgone] at hnode
      cases hnode
  · rw [hnone] at henter'
    cases henter'

theorem entersBelow_of_target {t : Target} (h : d.target p = .ok t)
    (hlost : (d.eraseBelow l).target p = .error (.system .noEntry)) : d.EntersBelow p l := by
  obtain ⟨hzero, hempty, hlong, hwalk, -⟩ := target_eq_ok.mp h
  refine exists_enter_of_walk hwalk ?_
  rw [target_eq_walk _ hzero hempty hlong] at hlost
  cases hwalk' : (d.eraseBelow l).walk (d.start p) p.pieces.dropLast with
  | ok dir =>
    rw [show (d.eraseBelow l).start p = d.start p from rfl, hwalk'] at hlost
    cases hlost
  | error e =>
    rw [show (d.eraseBelow l).start p = d.start p from rfl, hwalk'] at hlost
    exact congrArg Except.error (Except.error.inj hlost)

/-! ## Paths without `..` -/

theorem find_ne_noEntry (d : Disk) (dir : Location) (n : Name) :
    d.find dir n ≠ .error (.system .noEntry) := by
  unfold find
  split_ifs <;> simp

/-- Parts without `..` fail for want of an entry only if there is none on their way. -/
theorem exists_none_of_walk {parts : List Name} (hup : Path.dotDot ∉ parts) : ∀ {dir : Location},
    d.walk dir parts = .error (.system .noEntry) →
      ∃ m, m <+: dir ++ parts.filter (· ≠ Path.dot) ∧ d.node? m = none := by
  induction parts with
  | nil => intro dir h; cases h
  | cons part parts ih =>
    intro dir h
    rw [List.mem_cons, not_or] at hup
    by_cases hdot : part = Path.dot
    · rw [walk, show d.enter dir part = .ok dir from if_pos hdot] at h
      simpa [hdot] using ih hup.2 h
    · have hsplit : dir ++ (part :: parts).filter (· ≠ Path.dot) =
          (dir ++ [part]) ++ parts.filter (· ≠ Path.dot) := by
        simp [hdot]
      rw [hsplit]
      rw [walk, enter, if_neg hdot, if_neg (Ne.symm hup.1)] at h
      cases hfind : d.find dir part with
      | error e =>
        rw [hfind] at h
        obtain rfl := Except.error.inj h
        exact absurd hfind (find_ne_noEntry d dir part)
      | ok o =>
        have hnode := (find_eq_ok hfind).1
        rw [hfind] at h
        cases o with
        | none => exact ⟨_, List.prefix_append .., hnode⟩
        | some node =>
          cases node with
          | file i => cases h
          | dir => exact ih hup.2 h

theorem exists_none_of_target (hdots : Path.dotDot ∉ p.pieces) (hempty : p.bytes ≠ [])
    (h : d.target p = .error (.system .noEntry)) : ∃ m, m <+: d.locate p ∧ d.node? m = none := by
  by_cases hzero : 0 ∈ p.bytes
  · rw [target, if_pos hzero] at h
    cases h
  by_cases hlong : maxPath < p.bytes.length
  · rw [target, if_neg hzero, if_neg hempty, if_pos hlong] at h
    cases h
  rw [target_eq_walk d hzero hempty (not_lt.mp hlong)] at h
  cases hwalk : d.walk (d.start p) p.pieces.dropLast with
  | ok dir =>
    rw [hwalk] at h
    cases h
  | error e =>
    rw [hwalk] at h
    obtain rfl := Except.error.inj h
    obtain ⟨m, hm, hnone⟩ :=
      exists_none_of_walk (fun hmem => hdots (List.mem_of_mem_dropLast hmem)) hwalk
    refine ⟨m, hm.trans ?_, hnone⟩
    rw [locate, Path.names]
    exact (List.prefix_append_right_inj _).mpr ((List.dropLast_prefix _).filter _)

/-- A path without `..` fails for want of an entry only if there is none at its location or above. -/
theorem exists_none_of_resolve (hdots : Path.dotDot ∉ p.pieces) (hempty : p.bytes ≠ [])
    (h : d.resolve p = .error (.system .noEntry)) : ∃ m, m <+: d.locate p ∧ d.node? m = none := by
  cases htarget : d.target p with
  | error e =>
    rw [resolve, htarget] at h
    obtain rfl := Except.error.inj h
    exact exists_none_of_target hdots hempty htarget
  | ok t =>
    obtain ⟨hlocation, hup⟩ := location_target_of_not_mem hdots htarget
    obtain ⟨dir, last, slash⟩ := t
    rw [resolve, htarget] at h
    cases last with
    | top => cases h
    | here => cases h
    | up => cases h
    | name n =>
      cases hfind : d.find dir n with
      | error e =>
        simp only [bind, Except.bind, hfind] at h
        obtain rfl := Except.error.inj h
        exact absurd hfind (find_ne_noEntry d dir n)
      | ok o =>
        have hnode := (find_eq_ok hfind).1
        simp only [bind, Except.bind, hfind] at h
        cases o with
        | none => exact ⟨_, hlocation ▸ List.prefix_refl _, hnode⟩
        | some node =>
          cases node with
          | dir => cases h
          | file i =>
            cases slash <;> cases h

theorem eq_locate_of_resolve (hdots : Path.dotDot ∉ p.pieces) {n : Node}
    (h : d.resolve p = .ok (l, n)) : l = d.locate p := by
  obtain ⟨t, htarget, hl, -⟩ := exists_target_of_resolve h
  obtain ⟨hlocation, hup⟩ := location_target_of_not_mem hdots htarget
  rw [hl hup, hlocation]

/-- The way to what a path without `..` names is kept when what lies below is removed. -/
theorem target_eraseBelow (hdots : Path.dotDot ∉ p.pieces) {t : Target} (h : d.target p = .ok t) :
    (d.eraseBelow (d.locate p)).target p = .ok t := by
  obtain ⟨hlocation, -⟩ := location_target_of_not_mem hdots h
  obtain ⟨hzero, hempty, hlong, hwalk, hlast⟩ := target_eq_ok.mp h
  have hle : t.dir <+: d.locate p := by
    rw [← hlocation, Target.location]
    split
    · exact List.prefix_append ..
    · exact List.prefix_refl _
  refine target_eq_ok.mpr ⟨hzero, hempty, hlong, ?_, hlast⟩
  refine walk_of_kept (fun hmem => hdots (List.mem_of_mem_dropLast hmem)) hwalk fun m hm hdir => ?_
  rw [node?_eraseBelow_of_isPrefix (hm.trans hle), hdir]

/-- A path without `..` does not enter what lies below where it leads. -/
theorem not_entersBelow (hdots : Path.dotDot ∉ p.pieces) {t : Target} (h : d.target p = .ok t) :
    ¬ d.EntersBelow p (d.locate p) := fun hway =>
  hway.walk_ne t.dir (target_eq_ok.mp (target_eraseBelow hdots h)).2.2.2.1

/-! ## Removing a tree -/

/-- All that can happen when the tree at a path is removed. -/
inductive Removal (d : Disk) (p : Path) : Except IoError Unit → Disk → Prop
  /-- the path leads nowhere -/
  | refused {e : IoError} (h : d.resolve p = .error e) : Removal d p (.error e) d
  /-- the path leads to a file -/
  | file {l : Location} {i : Nat} (h : d.resolve p = .ok (l, .file i)) :
      Removal d p (.error (.system .notDirectory)) d
  /-- the directory is gone with all that is in it -/
  | removed {dir : Location} {n : Name} {slash : Bool}
      (h : d.target p = .ok ⟨dir, .name n, slash⟩) (hn : n.length ≤ maxName)
      (hresolve : d.resolve p = .ok (dir ++ [n], .dir))
      (hway : ¬ d.EntersBelow p (dir ++ [n])) :
      Removal d p (.ok ()) ((d.eraseBelow (dir ++ [n])).erase (dir ++ [n]))
  /-- what is in the directory is gone, and the path led through it -/
  | lost {l : Location} (h : d.resolve p = .ok (l, .dir))
      (hlost : (d.eraseBelow l).target p = .error (.system .noEntry)) (hway : d.EntersBelow p l) :
      Removal d p (.error (.system .noEntry)) (d.eraseBelow l)
  /-- what is in the directory is gone, and a directory cannot be removed by such a path -/
  | emptied {l : Location} {e : Errno} (h : d.resolve p = .ok (l, .dir)) (hlast : ¬ p.EndsInName)
      (he : e ≠ .noEntry) : Removal d p (.error (.system e)) (d.eraseBelow l)

theorem removal_removeTree (d : Disk) (p : Path) :
    d.Removal p (d.removeTree p).1 (d.removeTree p).2 := by
  rw [removeTree]
  cases hresolve : d.resolve p with
  | error e => exact .refused hresolve
  | ok found =>
    obtain ⟨l, _ | i⟩ := found
    · obtain ⟨⟨dir, last, slash⟩, htarget, hl, hlength⟩ := exists_target_of_resolve hresolve
      have hlast : last = lastOf p.pieces := (target_eq_ok.mp htarget).2.2.2.2.1
      -- the path is followed a second time where there are fewer entries
      rcases (Fewer.eraseBelow d l).target_eq htarget with hsame | hnone
      · simp only [hsame]
        have hends (hlast' : ∀ n, last ≠ .name n) : ¬ p.EndsInName := by
          rintro ⟨n, hn, hdot, hup⟩
          refine hlast' n (hlast.trans ?_)
          rw [lastOf, hn]
          simp [hdot, hup]
        cases last with
        | top => exact .emptied hresolve (hends (by simp)) (by simp)
        | here => exact .emptied hresolve (hends (by simp)) (by simp)
        | up => exact .emptied hresolve (hends (by simp)) (by simp)
        | name n =>
          obtain rfl : l = dir ++ [n] := hl (by simp)
          refine .removed htarget (hlength n rfl) hresolve fun hway => ?_
          exact hway.walk_ne _ (target_eq_ok.mp hsame).2.2.2.1
      · simp only [hnone]
        exact .lost hresolve hnone (entersBelow_of_target htarget hnone)
    · exact .file hresolve

end Disk

end BlobStore
