import BlobStore.Disk.Request
import BlobStore.Proofs.Disk.View
import BlobStore.Proofs.Path.Names

/-!
# Where plain paths lead

A plain path names one location, whatever is on the disk: its names one after the other,
from the top of the disk or from its base (`Disk.locate`).  Following the path may fail,
but if it does not, it ends at that location (`location_target`).

So a request that succeeds changes the disk there and nowhere else.
-/

namespace BlobStore

/-- A sequence of steps succeeds only if each of them does. -/
theorem exists_of_bind_eq_ok {ε α β : Type} {x : Except ε α} {f : α → Except ε β} {b : β}
    (h : (x >>= f) = .ok b) : ∃ a, x = .ok a ∧ f a = .ok b := by
  cases x with
  | error e => exact absurd h (by simp [bind, Except.bind])
  | ok a => exact ⟨a, rfl, h⟩

/-- The location of which a target says where it is. -/
def Target.location (t : Target) : Location :=
  match t.last with
  | .name n => t.dir ++ [n]
  | _ => t.dir

namespace Disk

/-- The directory at which following a path begins. -/
def start (d : Disk) (p : Path) : Location := if p.isAbsolute then [] else d.base

/-- The location that a plain path names. -/
def locate (d : Disk) (p : Path) : Location := d.start p ++ p.names

theorem locate_of_base {d d' : Disk} (h : d'.base = d.base) (p : Path) :
    d'.locate p = d.locate p := by
  rw [locate, locate, start, start, h]

/-- A path with further names leads below the location of the shorter one. -/
theorem locate_append (d : Disk) {p q : Path} {names : List Name}
    (habs : q.isAbsolute = p.isAbsolute) (hnames : q.names = p.names ++ names) :
    d.locate q = d.locate p ++ names := by
  rw [locate, locate, start, start, habs, hnames, List.append_assoc]

/-! ## Following parts -/

/-- A name that a directory can hold is looked up at its location. -/
theorem find_of_length_le (d : Disk) (dir : Location) {n : Name} (h : n.length ≤ maxName) :
    d.find dir n = .ok (d.node? (dir ++ [n])) := if_neg (not_lt.mpr h)

theorem find_eq_ok {d : Disk} {dir : Location} {n : Name} {o : Option Node}
    (h : d.find dir n = .ok o) : d.node? (dir ++ [n]) = o ∧ n.length ≤ maxName := by
  unfold find at h
  split_ifs at h with hlong
  exact ⟨Except.ok.inj h, not_lt.mp hlong⟩

/-- A part other than `..` leads to the directory of its name, or nowhere else if it is a
dot. -/
theorem enter_eq_ok {d : Disk} {dir l : Location} {part : Name} (hup : part ≠ Path.dotDot)
    (h : d.enter dir part = .ok l) :
    part = Path.dot ∧ l = dir ∨
      part ≠ Path.dot ∧ l = dir ++ [part] ∧ d.node? l = some .dir ∧ part.length ≤ maxName := by
  unfold enter at h
  split_ifs at h with hdot
  · exact Or.inl ⟨hdot, (Except.ok.inj h).symm⟩
  · refine Or.inr ⟨hdot, ?_⟩
    split at h
    · exact absurd h (by simp)
    · exact absurd h (by simp)
    · exact absurd h (by simp)
    · next hfind =>
      obtain rfl : dir ++ [part] = l := Except.ok.inj h
      exact ⟨rfl, find_eq_ok hfind⟩

theorem walk_cons_eq_ok {d : Disk} {dir l : Location} {part : Name} {parts : List Name}
    (h : d.walk dir (part :: parts) = .ok l) :
    ∃ next, d.enter dir part = .ok next ∧ d.walk next parts = .ok l := by
  rw [walk] at h
  split at h
  · exact absurd h (by simp)
  · next next hnext => exact ⟨next, hnext, h⟩

/-- Parts without `..` lead to the location of their names. -/
theorem walk_eq_ok {d : Disk} {parts : List Name} (hup : Path.dotDot ∉ parts) :
    ∀ {dir l : Location}, d.walk dir parts = .ok l → l = dir ++ parts.filter (· ≠ Path.dot) := by
  induction parts with
  | nil =>
    intro dir l h
    simpa using (Except.ok.inj h).symm
  | cons part parts ih =>
    intro dir l h
    rw [List.mem_cons, not_or] at hup
    obtain ⟨next, henter, hwalk⟩ := walk_cons_eq_ok h
    rcases enter_eq_ok (Ne.symm hup.1) henter with ⟨rfl, rfl⟩ | ⟨hdot, rfl, -, -⟩
    · simpa using ih hup.2 hwalk
    · rw [ih hup.2 hwalk]
      simp [hdot]

/-- Parts without `..` lead to a directory, unless they lead nowhere else. -/
theorem walk_eq_ok_dir {d : Disk} {parts : List Name} (hup : Path.dotDot ∉ parts) :
    ∀ {dir l : Location}, d.walk dir parts = .ok l → l = dir ∨ d.node? l = some .dir := by
  induction parts with
  | nil => intro dir l h; exact Or.inl (Except.ok.inj h).symm
  | cons part parts ih =>
    intro dir l h
    rw [List.mem_cons, not_or] at hup
    obtain ⟨next, henter, hwalk⟩ := walk_cons_eq_ok h
    have hnext := enter_eq_ok (Ne.symm hup.1) henter
    rcases ih hup.2 hwalk with rfl | hdir
    · rcases hnext with ⟨-, rfl⟩ | ⟨-, -, hdir, -⟩
      · exact Or.inl rfl
      · exact Or.inr hdir
    · exact Or.inr hdir

/-- Where a directory can be followed to, it can still be followed to when there are more
directories. -/
theorem walk_mono {d d' : Disk} (hdirs : ∀ l, d.node? l = some .dir → d'.node? l = some .dir)
    {parts : List Name} : ∀ {dir l : Location}, d.walk dir parts = .ok l →
      d'.walk dir parts = .ok l := by
  induction parts with
  | nil => intro dir l h; exact h
  | cons part parts ih =>
    intro dir l h
    obtain ⟨next, henter, hwalk⟩ := walk_cons_eq_ok h
    have henter' : d'.enter dir part = .ok next := by
      unfold enter at henter ⊢
      split_ifs at henter ⊢ with hdot hup
      · exact henter
      · exact henter
      · split at henter
        · exact absurd henter (by simp)
        · exact absurd henter (by simp)
        · exact absurd henter (by simp)
        · next hfind =>
          obtain ⟨hnode, hname⟩ := find_eq_ok hfind
          rw [find, if_neg (not_lt.mpr hname), hdirs _ hnode]
          exact henter
    rw [walk, henter']
    exact ih hwalk

/-- Parts can be followed on every disk on which the directories above their end are kept. -/
theorem walk_of_kept {d d' : Disk} {parts : List Name} (hup : Path.dotDot ∉ parts) :
    ∀ {dir l : Location}, d.walk dir parts = .ok l →
      (∀ m, m <+: l → d.node? m = some .dir → d'.node? m = some .dir) →
        d'.walk dir parts = .ok l := by
  induction parts with
  | nil => intro dir l h _; exact h
  | cons part parts ih =>
    intro dir l h hkept
    rw [List.mem_cons, not_or] at hup
    obtain ⟨next, henter, hwalk⟩ := walk_cons_eq_ok h
    have hnext : next <+: l := by
      rw [walk_eq_ok hup.2 hwalk]
      exact List.prefix_append ..
    have henter' : d'.enter dir part = .ok next := by
      -- the location entered is above the end, so it is a directory on the other disk, too
      rcases enter_eq_ok (Ne.symm hup.1) henter with ⟨rfl, rfl⟩ | ⟨hdot, rfl, hdir, hname⟩
      · exact if_pos rfl
      · rw [enter, if_neg hdot, if_neg (Ne.symm hup.1), find, if_neg (not_lt.mpr hname),
          hkept _ hnext hdir]
    rw [walk, henter']
    exact ih hup.2 hwalk hkept

/-- Parts can be followed on every disk on which all that is above their end is a directory. -/
theorem walk_of_dirs {d d' : Disk} {parts : List Name} (hup : Path.dotDot ∉ parts)
    {dir l : Location} (h : d.walk dir parts = .ok l)
    (hdirs : ∀ m, m <+: l → d'.node? m = some .dir) : d'.walk dir parts = .ok l :=
  walk_of_kept hup h fun m hm _ => hdirs m hm

/-! ## Targets -/

/-- The last part of a path, as its last piece tells. -/
def lastOf (pieces : List Name) : Last :=
  match pieces.getLast? with
  | none => .top
  | some n => if n = Path.dot then .here else if n = Path.dotDot then .up else .name n

/-- The target of a path that is neither empty nor too long and holds no zero byte. -/
theorem target_eq_walk (d : Disk) {p : Path} (hzero : 0 ∉ p.bytes) (hempty : p.bytes ≠ [])
    (hlong : p.bytes.length ≤ maxPath) :
    d.target p = (d.walk (d.start p) p.pieces.dropLast).map
      fun dir => (⟨dir, lastOf p.pieces, p.endsInSlash⟩ : Target) := by
  have hparts : (Text.parts Path.slash p.bytes).filter (!·.isEmpty) = p.pieces := rfl
  have hstart : (if p.isAbsolute then [] else d.base) = d.start p := rfl
  rw [target, if_neg hzero, if_neg hempty, if_neg (not_lt.mpr hlong)]
  dsimp only
  rw [hparts, hstart]
  cases d.walk (d.start p) p.pieces.dropLast <;> rfl

/-- What a path needs to be followed at all, and where it leads then. -/
theorem target_eq_ok {d : Disk} {p : Path} {t : Target} :
    d.target p = .ok t ↔ 0 ∉ p.bytes ∧ p.bytes ≠ [] ∧ p.bytes.length ≤ maxPath ∧
      d.walk (d.start p) p.pieces.dropLast = .ok t.dir ∧
      t.last = lastOf p.pieces ∧ t.slash = p.endsInSlash := by
  by_cases hzero : 0 ∈ p.bytes
  · simp [target, hzero]
  by_cases hempty : p.bytes = []
  · simp [target, hempty]
  by_cases hlong : maxPath < p.bytes.length
  · simp [target, hzero, hempty, hlong, not_le.mpr hlong]
  rw [not_lt] at hlong
  rw [target_eq_walk d hzero hempty hlong]
  obtain ⟨dir, last, slash⟩ := t
  cases hwalk : d.walk (d.start p) p.pieces.dropLast with
  | error e => simp [Except.map]
  | ok dir' =>
    simp only [Except.map, Except.ok.injEq, Target.mk.injEq, hzero, hempty, hlong,
      not_false_eq_true, ne_eq, true_and]
    tauto

theorem target_mono {d d' : Disk} (hbase : d'.base = d.base)
    (hdirs : ∀ l, d.node? l = some .dir → d'.node? l = some .dir) {p : Path} {t : Target}
    (h : d.target p = .ok t) : d'.target p = .ok t := by
  rw [target_eq_ok] at h ⊢
  have hstart : d'.start p = d.start p := by rw [start, start, hbase]
  rw [hstart]
  exact ⟨h.1, h.2.1, h.2.2.1, walk_mono hdirs h.2.2.2.1, h.2.2.2.2⟩

/-- A path without `..` that can be followed leads to the location that it names. -/
theorem location_target_of_not_mem {d : Disk} {p : Path} (hdots : Path.dotDot ∉ p.pieces) {t : Target}
    (h : d.target p = .ok t) : t.location = d.locate p ∧ t.last ≠ .up := by
  obtain ⟨-, -, -, hwalk, hlast, -⟩ := target_eq_ok.mp h
  have hdir : t.dir = d.start p ++ p.pieces.dropLast.filter (· ≠ Path.dot) :=
    walk_eq_ok (fun hmem => hdots (List.mem_of_mem_dropLast hmem)) hwalk
  rw [Target.location, hlast, lastOf, locate, Path.names]
  by_cases hpieces : p.pieces = []
  · simp [hdir, hpieces]
  · have hsplit := List.dropLast_append_getLast hpieces
    have hup : p.pieces.getLast hpieces ≠ Path.dotDot :=
      fun heq => hdots (heq ▸ List.getLast_mem hpieces)
    rw [List.getLast?_eq_some_getLast hpieces]
    conv => enter [1, 2, 2, 2]; rw [← hsplit]
    rw [List.filter_append]
    by_cases hdot : p.pieces.getLast hpieces = Path.dot
    · simp [hdir, hdot]
    · simp [hdir, hdot, hup]

theorem location_target {d : Disk} {p : Path} (hp : p.Plain) {t : Target}
    (h : d.target p = .ok t) : t.location = d.locate p ∧ t.last ≠ .up :=
  location_target_of_not_mem hp.dotDot_not_mem_pieces h

end Disk

end BlobStore
