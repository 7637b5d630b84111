import BlobStore.Action
import BlobStore.Proofs.Disk.Locate

/-!
# What requests do to a disk

One lemma for each request says all that it can have done when it has succeeded: which
node lay at the location where its path ends, and what the disk is afterwards.  For a
plain path that location is `Disk.locate`.

`Disk.Leads` is what a success tells about the path itself, namely that following it ends
in a name; it stays true when more directories are made (`Leads.mono`), so that the same
path can be followed again later.

`Disk.Change` lists what may become of a disk in a request.  What each of these changes keeps
is kept by every action: the base, and that no file has two names (`run_base`,
`run_unshared`).
-/

namespace BlobStore

namespace Disk

variable {d d' : Disk} {p : Path} {l : Location}

/-- Following a path ends in a name, and the name stands for a location. -/
def Ends (d : Disk) (p : Path) (l : Location) : Prop :=
  ∃ dir n slash, d.target p = .ok ⟨dir, .name n, slash⟩ ∧ l = dir ++ [n]

/-- Following a path ends in a name that a directory can hold, with no slash after it. -/
def Leads (d : Disk) (p : Path) (l : Location) : Prop :=
  ∃ dir n, d.target p = .ok ⟨dir, .name n, false⟩ ∧ n.length ≤ maxName ∧ l = dir ++ [n]

theorem Ends.ne_nil (h : d.Ends p l) : l ≠ [] := by
  obtain ⟨dir, n, slash, -, rfl⟩ := h
  simp

theorem Ends.unique {m : Location} (h : d.Ends p l) (h' : d.Ends p m) : l = m := by
  obtain ⟨dir, n, slash, htarget, rfl⟩ := h
  obtain ⟨dir', n', slash', htarget', rfl⟩ := h'
  obtain ⟨rfl, hname, -⟩ := by simpa using htarget.symm.trans htarget'
  rw [hname]

theorem Ends.eq_locate (h : d.Ends p l) (hp : p.Plain) : l = d.locate p := by
  obtain ⟨dir, n, slash, htarget, rfl⟩ := h
  exact (location_target hp htarget).1

namespace Leads

theorem ends (h : d.Leads p l) : d.Ends p l := by
  obtain ⟨dir, n, htarget, -, rfl⟩ := h
  exact ⟨dir, n, false, htarget, rfl⟩

theorem ne_nil (h : d.Leads p l) : l ≠ [] := h.ends.ne_nil

theorem eq_locate (h : d.Leads p l) (hp : p.Plain) : l = d.locate p := h.ends.eq_locate hp

theorem mono (h : d.Leads p l) (hbase : d'.base = d.base)
    (hdirs : ∀ m, d.node? m = some .dir → d'.node? m = some .dir) : d'.Leads p l := by
  obtain ⟨dir, n, htarget, hname, hl⟩ := h
  exact ⟨dir, n, target_mono hbase hdirs htarget, hname, hl⟩

/-- A plain path also leads to its location on a disk on which all above that is there. -/
theorem of_dirs (h : d.Leads p l) (hp : p.Plain) (hbase : d'.base = d.base)
    (hdirs : ∀ m, m <+: l → m ≠ l → d'.node? m = some .dir) : d'.Leads p l := by
  obtain ⟨dir, n, htarget, hname, rfl⟩ := h
  obtain ⟨hzero, hempty, hlong, hwalk, hlast⟩ := target_eq_ok.mp htarget
  have hup : Path.dotDot ∉ p.pieces.dropLast := fun hmem =>
    hp.dotDot_not_mem_pieces (List.mem_of_mem_dropLast hmem)
  have hwalk' : d'.walk (d'.start p) p.pieces.dropLast = .ok dir := by
    rw [start, hbase, ← start]
    refine walk_of_dirs hup hwalk fun m hm => hdirs m (hm.trans (List.prefix_append ..)) ?_
    rintro rfl
    exact absurd hm.length_le (by simp)
  exact ⟨dir, n, target_eq_ok.mpr ⟨hzero, hempty, hlong, hwalk', hlast⟩, hname, rfl⟩

theorem resolve_eq (h : d.Leads p l) :
    d.resolve p = match d.node? l with
      | none => .error (.system .noEntry)
      | some node => .ok (l, node) := by
  obtain ⟨dir, n, htarget, hname, rfl⟩ := h
  have hfind := d.find_of_length_le dir hname
  simp only [resolve, htarget, hfind, bind, Except.bind]
  cases d.node? (dir ++ [n]) with
  | none => rfl
  | some node => cases node <;> rfl

theorem unlink_eq (h : d.Leads p l) {i : Nat} (hi : d.node? l = some (.file i)) :
    d.unlink p = .ok (d.erase l) := by
  obtain ⟨dir, n, htarget, hname, rfl⟩ := h
  have hfind := d.find_of_length_le dir hname
  simp only [unlink, htarget, hfind, hi, bind, Except.bind]
  rfl

end Leads

/-! ## Looking -/

/-- A path that leads to a file ends in its name, and no slash follows. -/
theorem resolve_eq_file {i : Nat} :
    d.resolve p = .ok (l, .file i) ↔ d.Leads p l ∧ d.node? l = some (.file i) := by
  constructor
  · intro h
    obtain ⟨⟨dir, last, slash⟩, htarget, h⟩ := exists_of_bind_eq_ok h
    cases last with
    | top => cases h
    | here => cases h
    | up => cases h
    | name n =>
      obtain ⟨o, hfind, h⟩ := exists_of_bind_eq_ok h
      obtain ⟨hnode, hname⟩ := find_eq_ok hfind
      cases o with
      | none => cases h
      | some node =>
        cases node with
        | dir => cases h
        | file j =>
          cases slash with
          | true => cases h
          | false =>
            cases h
            exact ⟨⟨dir, n, htarget, hname, rfl⟩, hnode⟩
  · rintro ⟨hleads, hnode⟩
    rw [hleads.resolve_eq, hnode]

/-- A plain path leads to the node at the location that it names. -/
theorem location_resolve (hp : p.Plain) {n : Node} (h : d.resolve p = .ok (l, n)) :
    l = d.locate p ∧ d.node? l = some n := by
  obtain ⟨⟨dir, last, slash⟩, htarget, h⟩ := exists_of_bind_eq_ok h
  obtain ⟨hlocation, hup⟩ := location_target hp htarget
  rw [← hlocation]
  -- a path that ends in no name ends in a directory: the top, or one that it has entered
  have hdir (hlast : last = .top ∨ last = .here) : d.node? dir = some .dir := by
    obtain ⟨-, -, -, hwalk, -, -⟩ := target_eq_ok.mp htarget
    have hdots : Path.dotDot ∉ p.pieces.dropLast := fun hmem =>
      hp.dotDot_not_mem_pieces (List.mem_of_mem_dropLast hmem)
    refine (walk_eq_ok_dir hdots hwalk).elim (fun hstart => ?_) id
    have hnames : d.start p = d.start p ++ p.names := by
      rw [← locate, ← hlocation, ← hstart]
      rcases hlast with rfl | rfl <;> rfl
    have habs : p.isAbsolute = true := by
      by_contra hrel
      exact hp.names_ne_nil (by simpa using hrel) (List.self_eq_append_right.mp hnames)
    rw [show dir = [] from hstart.trans (if_pos habs), node?_nil]
  cases last with
  | top => cases h; exact ⟨rfl, hdir (Or.inl rfl)⟩
  | here => cases h; exact ⟨rfl, hdir (Or.inr rfl)⟩
  | up => exact absurd rfl hup
  | name m =>
    obtain ⟨o, hfind, h⟩ := exists_of_bind_eq_ok h
    have hnode := (find_eq_ok hfind).1
    cases o with
    | none => cases h
    | some node =>
      cases node with
      | dir => cases h; exact ⟨rfl, hnode⟩
      | file j =>
        cases slash with
        | true => cases h
        | false => cases h; exact ⟨rfl, hnode⟩

theorem openRead_eq_file {h : Handle} {size : Nat} :
    d.openRead p = .ok (.file h size) ↔
      ∃ l, d.Leads p l ∧ d.node? l = some (.file h.number) ∧ size = (d.bytes h.number).size := by
  constructor
  · intro hopen
    obtain ⟨⟨l, node⟩, hresolve, hopen⟩ := exists_of_bind_eq_ok hopen
    cases node with
    | dir => cases hopen
    | file i =>
      cases hopen
      obtain ⟨hleads, hnode⟩ := resolve_eq_file.mp hresolve
      exact ⟨l, hleads, hnode, rfl⟩
  · rintro ⟨l, hleads, hnode, rfl⟩
    rw [openRead, resolve_eq_file.mpr ⟨hleads, hnode⟩]
    rfl

theorem kind_eq_file (hleads : d.Leads p l) {i : Nat} (hnode : d.node? l = some (.file i)) :
    d.kind p = .ok .file := by
  rw [kind, resolve_eq_file.mpr ⟨hleads, hnode⟩]
  rfl

/-- Whatever hinders following a path hinders both ways of looking. -/
theorem kind_of_resolve_error {e : IoError} (h : d.resolve p = .error e) : d.kind p = .error e := by
  rw [kind, h]
  rfl

theorem openRead_of_resolve_error {e : IoError} (h : d.resolve p = .error e) :
    d.openRead p = .error e := by
  rw [openRead, h]
  rfl

/-! ## Changing -/

theorem makeDir_eq_ok (h : d.makeDir p = .ok d') :
    ∃ l, d.Ends p l ∧ d.node? l = none ∧ d' = d.insert l .dir := by
  obtain ⟨⟨dir, last, slash⟩, htarget, h⟩ := exists_of_bind_eq_ok h
  cases last with
  | top => cases h
  | here => cases h
  | up => cases h
  | name n =>
    obtain ⟨o, hfind, h⟩ := exists_of_bind_eq_ok h
    cases o with
    | some node => cases h
    | none =>
      cases h
      exact ⟨_, ⟨dir, n, slash, htarget, rfl⟩, (find_eq_ok hfind).1, rfl⟩

/-- Opening for writing empties the file that is there or puts a new one there. -/
theorem create_eq_ok {h : Handle} (hcreate : d.create p = .ok (h, d')) :
    ∃ l, d.Leads p l ∧
      (d.node? l = some (.file h.number) ∧ d' = d.setBytes h.number ByteArray.empty ∨
        d.node? l = none ∧ h.number = d.contents.size ∧ d' = d.insertFile l) := by
  obtain ⟨⟨dir, last, slash⟩, htarget, hcreate⟩ := exists_of_bind_eq_ok hcreate
  cases last with
  | top => cases hcreate
  | here => cases hcreate
  | up => cases hcreate
  | name n =>
    cases slash with
    | true => cases hcreate
    | false =>
      obtain ⟨o, hfind, hcreate⟩ := exists_of_bind_eq_ok hcreate
      obtain ⟨hnode, hname⟩ := find_eq_ok hfind
      refine ⟨_, ⟨dir, n, htarget, hname, rfl⟩, ?_⟩
      cases o with
      | none => cases hcreate; exact Or.inr ⟨hnode, rfl, rfl⟩
      | some node =>
        cases node with
        | dir => cases hcreate
        | file i => cases hcreate; exact Or.inl ⟨hnode, rfl⟩

theorem perform_create_eq_ok {h : Handle} :
    d.perform (.create p) = (.ok h, d') ↔ d.create p = .ok (h, d') := by
  simp only [perform]
  cases d.create p <;> simp [Prod.ext_iff]

/-- A file can be opened for writing where its path leads, unless a directory is there. -/
theorem exists_create_eq_ok (h : d.Leads p l) (hdir : d.node? l ≠ some .dir) :
    ∃ made, d.create p = .ok made := by
  obtain ⟨dir, n, htarget, hname, rfl⟩ := h
  have hfind := d.find_of_length_le dir hname
  simp only [create, htarget, hfind, bind, Except.bind]
  cases hnode : d.node? (dir ++ [n]) with
  | none => exact ⟨_, rfl⟩
  | some node =>
    cases node with
    | dir => exact absurd hnode hdir
    | file i => exact ⟨_, rfl⟩

theorem create_of_dir (h : d.Leads p l) (hdir : d.node? l = some .dir) :
    d.create p = .error (.system .isDirectory) := by
  obtain ⟨dir, n, htarget, hname, rfl⟩ := h
  have hfind := d.find_of_length_le dir hname
  simp only [create, htarget, hfind, hdir, bind, Except.bind]
  rfl

theorem unlink_eq_ok (h : d.unlink p = .ok d') : ∃ l, d.Ends p l ∧ d' = d.erase l := by
  obtain ⟨⟨dir, last, slash⟩, htarget, h⟩ := exists_of_bind_eq_ok h
  cases last with
  | top => cases h
  | here => cases h
  | up => cases h
  | name n =>
    refine ⟨_, ⟨dir, n, slash, htarget, rfl⟩, ?_⟩
    obtain ⟨o, -, h⟩ := exists_of_bind_eq_ok h
    cases o with
    | none => cases h
    | some node =>
      cases node with
      | dir => cases h
      | file i =>
        cases slash with
        | true => cases h
        | false => cases h; rfl

/-- A file gets another path only if both paths end in names and no directory is in its
way. -/
theorem replace_eq_ok {file target : Path} (h : d.replace file target = .ok d') :
    ∃ old new i, d.Ends file old ∧ d.Leads target new ∧ d.node? new ≠ some .dir ∧
      d.node? old = some (.file i) ∧ d' = (d.erase old).insert new (.file i) := by
  obtain ⟨⟨fdir, flast, fslash⟩, hf, h⟩ := exists_of_bind_eq_ok h
  obtain ⟨⟨tdir, tlast, tslash⟩, ht, h⟩ := exists_of_bind_eq_ok h
  cases flast with
  | top => cases h
  | here => cases h
  | up => cases h
  | name old =>
    cases tlast with
    | top => cases h
    | here => cases h
    | up => cases h
    | name new =>
      obtain ⟨o, hfind, h⟩ := exists_of_bind_eq_ok h
      cases o with
      | none => cases h
      | some node =>
        cases node with
        | dir => cases h
        | file i =>
          obtain ⟨found, hfound, h⟩ := exists_of_bind_eq_ok h
          obtain ⟨hnode, hname⟩ := find_eq_ok hfound
          cases tslash with
          | true => cases fslash <;> cases h
          | false =>
            cases fslash with
            | true => cases h
            | false =>
              -- a directory at the new path is an error
              have hne : found ≠ some .dir := by
                rintro rfl
                cases h
              simp only [Bool.or_self, Bool.false_eq_true, hne, if_false] at h
              cases h
              exact ⟨_, _, i, ⟨fdir, old, false, hf, rfl⟩, ⟨tdir, new, ht, hname, rfl⟩,
                fun hdir => hne (hnode.symm.trans hdir), (find_eq_ok hfind).1, rfl⟩

/-- Where both paths lead, a file gets the other path, unless a directory is in its way. -/
theorem replace_of_leads {file target : Path} {old new : Location} {i : Nat}
    (hold : d.Leads file old) (hi : d.node? old = some (.file i)) (hnew : d.Leads target new)
    (hdir : d.node? new ≠ some .dir) :
    d.replace file target = .ok ((d.erase old).insert new (.file i)) := by
  obtain ⟨fdir, f, hf, hflong, rfl⟩ := hold
  obtain ⟨tdir, t, ht, htlong, rfl⟩ := hnew
  have hfindf : d.find fdir f = .ok (some (.file i)) := by
    rw [d.find_of_length_le fdir hflong, hi]
  have hfindt := d.find_of_length_le tdir htlong
  simp only [replace, hf, ht, hfindf, hfindt, bind, Except.bind, Bool.or_self, Bool.false_eq_true,
    hdir, if_false]
  rfl

/-- A directory does not make room for a file. -/
theorem replace_of_dir {file target : Path} {old new : Location} {i : Nat}
    (hold : d.Leads file old) (hi : d.node? old = some (.file i)) (hnew : d.Leads target new)
    (hdir : d.node? new = some .dir) :
    d.replace file target = .error (.system .isDirectory) := by
  obtain ⟨fdir, f, hf, hflong, rfl⟩ := hold
  obtain ⟨tdir, t, ht, htlong, rfl⟩ := hnew
  have hfindf := d.find_of_length_le fdir hflong
  have hfindt := d.find_of_length_le tdir htlong
  simp only [replace, hf, ht, hfindf, hfindt, hi, hdir, bind, Except.bind, Bool.or_self,
    Bool.false_eq_true, if_false, if_true]
  rfl

/-- A temporary file is new.  Its path is the directory's, followed by a name. -/
theorem createTemp_eq_ok {temp : Path} {h : Handle} (hcreate : d.createTemp p = .ok (temp, h, d')) :
    ∃ t, d.target (p.join ⟨tempName 0⟩) = .ok t ∧ temp = p.join ⟨d.freeName t.dir⟩ ∧
      temp.bytes.length ≤ maxPath ∧ (d.freeName t.dir).length ≤ maxName ∧
      d.node? (t.dir ++ [d.freeName t.dir]) = none ∧ h.number = d.contents.size ∧
      d' = d.insertFile (t.dir ++ [d.freeName t.dir]) := by
  obtain ⟨⟨dir, last, slash⟩, htarget, hcreate⟩ := exists_of_bind_eq_ok hcreate
  dsimp only at hcreate
  by_cases hlong : maxPath < (if p.isAbsolute then 0 else d.baseLength + 1) +
      (p.join ⟨d.freeName dir⟩).bytes.length
  · rw [if_pos hlong] at hcreate
    cases hcreate
  · rw [if_neg hlong] at hcreate
    obtain ⟨o, hfind, hcreate⟩ := exists_of_bind_eq_ok hcreate
    cases o with
    | some node => cases hcreate
    | none =>
      cases hcreate
      obtain ⟨hnode, hname⟩ := find_eq_ok hfind
      exact ⟨_, htarget, rfl, by omega, hname, hnode, rfl, rfl⟩

/-- Removing a tree fails with the disk unchanged, or has removed what lies below a
location; the location itself goes last. -/
theorem removeTree_cases (d : Disk) (p : Path) :
    (d.removeTree p).2 = d ∨ ∃ l, (p.Plain → l = d.locate p ∧ d.node? l = some .dir) ∧
      ((d.removeTree p).2 = d.eraseBelow l ∨
        (p.Plain → l ≠ []) ∧ (d.removeTree p).2 = (d.eraseBelow l).erase l) := by
  unfold removeTree
  split
  · exact Or.inl rfl
  · exact Or.inl rfl
  · next l hresolve =>
    refine Or.inr ⟨l, fun hp => location_resolve hp hresolve, ?_⟩
    dsimp only
    split
    · exact Or.inl rfl
    · next t htarget =>
      split
      · next n hlast =>
        refine Or.inr ⟨fun hp => ?_, rfl⟩
        -- a location that a name ends is not the top
        have hlocation := (location_target hp htarget).1
        have hsame : (d.eraseBelow l).locate p = d.locate p := rfl
        rw [(location_resolve hp hresolve).1, ← hsame, ← hlocation, Target.location, hlast]
        simp
      · exact Or.inl rfl
      · exact Or.inl rfl
      · exact Or.inl rfl

/-! ## What requests can do -/

/-- The changes that requests can make to a disk. -/
inductive Change (d : Disk) : Disk → Prop where
  | nothing : Change d d
  | makeDir {l : Location} : l ≠ [] → d.node? l = none → Change d (d.insert l .dir)
  | makeFile {l : Location} : l ≠ [] → d.node? l = none → Change d (d.insertFile l)
  | setBytes (i : Nat) (b : ByteArray) : Change d (d.setBytes i b)
  | unlink {l : Location} : l ≠ [] → Change d (d.erase l)
  | move {old new : Location} {i : Nat} : old ≠ [] → new ≠ [] → d.node? old = some (.file i) →
      d.node? new ≠ some .dir → Change d ((d.erase old).insert new (.file i))
  | emptyDir (l : Location) : Change d (d.eraseBelow l)
  | removeDir (l : Location) : Change d ((d.eraseBelow l).erase l)

theorem change_changing {answer : Except IoError Disk}
    (h : ∀ d', answer = .ok d' → d.Change d') : d.Change (d.changing answer).2 := by
  cases answer with
  | error e => exact .nothing
  | ok d' => exact h d' rfl

theorem change_perform (d : Disk) (r : Request) : d.Change (d.perform r).2 := by
  cases r with
  | kind p => exact .nothing
  | openRead p => exact .nothing
  | append h b => exact .setBytes _ _
  | sync h => exact .nothing
  | readAt h i n => exact .nothing
  | readFrom h i => exact .nothing
  | makeDir p =>
    apply change_changing
    intro d' h
    obtain ⟨l, hends, hnone, rfl⟩ := makeDir_eq_ok h
    exact .makeDir hends.ne_nil hnone
  | unlink p =>
    apply change_changing
    intro d' h
    obtain ⟨l, hends, rfl⟩ := unlink_eq_ok h
    exact .unlink hends.ne_nil
  | replace file target =>
    apply change_changing
    intro d' h
    obtain ⟨old, new, i, hold, hnew, hdir, hi, rfl⟩ := replace_eq_ok h
    exact .move hold.ne_nil hnew.ne_nil hi hdir
  | create p =>
    simp only [perform]
    cases h : d.create p with
    | error e => exact .nothing
    | ok made =>
      obtain ⟨l, hleads, ⟨-, heq⟩ | ⟨hnone, -, heq⟩⟩ := create_eq_ok h
      · exact heq ▸ .setBytes _ _
      · exact heq ▸ .makeFile hleads.ne_nil hnone
  | createTemp dir =>
    simp only [perform]
    cases h : d.createTemp dir with
    | error e => exact .nothing
    | ok made =>
      obtain ⟨t, -, -, -, -, hnone, -, heq⟩ := createTemp_eq_ok h
      exact heq ▸ .makeFile (by simp) hnone
  | removeTree p =>
    show d.Change (d.removeTree p).2
    rcases removeTree_cases d p with h | ⟨l, -, h | ⟨-, h⟩⟩ <;> rw [h]
    · exact .nothing
    · exact .emptyDir l
    · exact .removeDir l

theorem change_create {h : Handle} (hcreate : d.create p = .ok (h, d')) : d.Change d' := by
  have hchange := d.change_perform (.create p)
  rwa [perform_create_eq_ok.mpr hcreate] at hchange

theorem Change.base (h : d.Change d') : d'.base = d.base := by
  cases h <;> rfl

theorem Change.unshared (h : d.Change d') (hd : d.Unshared) : d'.Unshared := by
  cases h with
  | nothing => exact hd
  | makeDir hl hnone => exact hd.insert_dir hl
  | makeFile hl hnone => exact hd.insertFile hl
  | setBytes i b => exact hd.setBytes i b
  | unlink hl => exact hd.erase _
  | move hold hnew hi hdir => exact hd.erase_insert hold hnew hi
  | emptyDir l => exact hd.eraseBelow l
  | removeDir l => exact (hd.eraseBelow l).erase l

end Disk

namespace Action

variable {ε α : Type}

/-- What every request keeps is kept by every action. -/
theorem run_invariant {P : Disk → Prop} (hP : ∀ d d', d.Change d' → P d → P d')
    (x : Action ε α) {d : Disk} (hd : P d) : P (x.run d).2 := by
  induction x generalizing d with
  | done a => exact hd
  | fail e => exact hd
  | ask r next ih => exact ih _ (hP d _ (d.change_perform r) hd)

theorem run_base (x : Action ε α) (d : Disk) : (x.run d).2.base = d.base :=
  x.run_invariant (P := fun d' => d'.base = d.base) (fun _ _ hchange h => hchange.base.trans h) rfl

theorem run_unshared (x : Action ε α) {d : Disk} (hd : d.Unshared) : (x.run d).2.Unshared :=
  x.run_invariant (fun _ _ hchange => hchange.unshared) hd

theorem run_locate (x : Action ε α) (d : Disk) (p : Path) :
    (x.run d).2.locate p = d.locate p :=
  Disk.locate_of_base (x.run_base d) p

end Action

end BlobStore
