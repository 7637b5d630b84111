import BlobStore.Proofs.Store.Reading
import BlobStore.Proofs.Store.Runs
import BlobStore.Proofs.Store.Site

/-!
# What looking for an object answers

An object is present exactly where its path leads to a file, and opening it gives that
file's bytes (`reply_read_eq_contents`).  Where nothing is, and no file is in the way, the
answers are that there is no object (`reply_has_of_missing`, `reply_read_of_missing`).
-/

namespace BlobStore

namespace Store

variable {s : Store} {d : Disk} {key : String}

/-- What a caller learns who asks for an object. -/
theorem reply_has (s : Store) (key : String) (d : Disk) :
    s.reply (.has key) d = match s.site key with
      | .error e => .failed e
      | .ok site =>
        match d.kind site.file with
        | .ok kind => .present (kind = .file)
        | .error e => if e.isMissing then .present false else .failed (.io e) := by
  rw [reply, perform, Action.run_map, has, Action.run_bind, Action.run_ofExcept]
  cases s.site key with
  | error e => rfl
  | ok site =>
    dsimp only
    rw [Action.run_bind, Action.run_attempt]
    simp only [Disk.perform, Disk.looking]
    cases d.kind site.file with
    | ok kind => rfl
    | error e => cases hmissing : e.isMissing <;> simp [hmissing, Except.map, Answer.reply]

/-- Opening an object opens the file to which its path leads. -/
theorem run_read (s : Store) (key : String) (d : Disk) :
    (s.read key).run d = (match s.site key with
      | .error e => .error e
      | .ok site =>
        match d.openRead site.file with
        | .ok (.file h size) => .ok (Blob.start h size)
        | .ok .dir => .error (.notFound key)
        | .error e => if e.isMissing then .error (.notFound key) else .error (.io e), d) := by
  rw [read, Action.run_bind, Action.run_ofExcept]
  cases s.site key with
  | error e => rfl
  | ok site =>
    dsimp only
    rw [Action.run_bind, Action.run_attempt]
    simp only [Disk.perform, Disk.looking]
    cases d.openRead site.file with
    | ok opened => cases opened <;> rfl
    | error e => cases hmissing : e.isMissing <;> simp [hmissing]

/-- What a caller learns who opens an object and reads it. -/
theorem reply_read (s : Store) (key : String) (d : Disk) :
    s.reply (.read key) d = match s.site key with
      | .error e => .failed e
      | .ok site =>
        match d.openRead site.file with
        | .ok (.file h size) => .contents size (d.bytes h.number)
        | .ok .dir => .failed (.notFound key)
        | .error e => if e.isMissing then .failed (.notFound key) else .failed (.io e) := by
  rw [reply, perform, Action.run_map, run_read]
  cases s.site key with
  | error e => rfl
  | ok site =>
    dsimp only
    cases d.openRead site.file with
    | ok opened =>
      cases opened with
      | dir => rfl
      | file h size =>
        simp only [Except.map, Answer.reply, Blob.run_rest_start]
        rfl
    | error e => cases hmissing : e.isMissing <;> simp [hmissing, Except.map]

/-! ## Where there is a file -/

theorem reply_has_of_file {site : Site} {l : Location} {b : ByteArray}
    (hsite : s.site key = .ok site) (hleads : d.Leads site.file l)
    (hview : d.view l = some (.file b)) : s.reply (.has key) d = .present true := by
  obtain ⟨i, hnode, -⟩ := Disk.view_eq_file.mp hview
  rw [reply_has, hsite]
  simp only [Disk.kind_eq_file hleads hnode]
  rfl

/-- An object is read if and only if its path leads to a file, and then all of the file is
read. -/
theorem reply_read_eq_contents {n : Nat} {b : ByteArray} :
    s.reply (.read key) d = .contents n b ↔
      n = b.size ∧ ∃ site l, s.site key = .ok site ∧ d.Leads site.file l ∧
        d.view l = some (.file b) := by
  rw [reply_read]
  constructor
  · intro h
    cases hsite : s.site key with
    | error e => simp [hsite] at h
    | ok site =>
      simp only [hsite] at h
      cases hopen : d.openRead site.file with
      | error e =>
        simp only [hopen] at h
        split_ifs at h
      | ok opened =>
        cases opened with
        | dir => simp [hopen] at h
        | file handle size =>
          simp only [hopen, Reply.contents.injEq] at h
          obtain ⟨rfl, rfl⟩ := h
          obtain ⟨l, hleads, hnode, hsize⟩ := Disk.openRead_eq_file.mp hopen
          exact ⟨hsize, site, l, rfl, hleads, Disk.view_of_file hnode⟩
  · rintro ⟨rfl, site, l, hsite, hleads, hview⟩
    obtain ⟨i, hnode, rfl⟩ := Disk.view_eq_file.mp hview
    have hopen : d.openRead site.file = .ok (.file ⟨i⟩ (d.bytes i).size) :=
      Disk.openRead_eq_file.mpr ⟨l, hleads, hnode, rfl⟩
    simp only [hsite, hopen]

/-! ## Where there is nothing -/

theorem reply_has_of_missing {site : Site} (hsite : s.site key = .ok site)
    (hresolve : d.resolve site.file = .error (.system .noEntry)) :
    s.reply (.has key) d = .present false := by
  rw [reply_has, hsite]
  simp only [Disk.kind_of_resolve_error hresolve]
  rfl

theorem reply_read_of_missing {site : Site} (hsite : s.site key = .ok site)
    (hresolve : d.resolve site.file = .error (.system .noEntry)) :
    s.reply (.read key) d = .failed (.notFound key) := by
  rw [reply_read, hsite]
  simp only [Disk.openRead_of_resolve_error hresolve]
  rfl

end Store

end BlobStore
