import BlobStore.Proofs.Disk.Asking
import BlobStore.Proofs.Store.Runs
import BlobStore.Proofs.Store.Writing

/-!
# What the operations of a store ask

Looking for an object only looks, making directories at most makes directories, and removing
spares the bytes of every file.  An atomic write does write bytes, but only to the temporary
file that it has made itself, so it, too, keeps the bytes of all files that were there
(`keeps_write`): a file that is open stays as it is when its name is given to another one.
-/

namespace BlobStore

namespace Store

variable (s : Store) (key : String)

theorem asks_has : (s.has key).Asks Request.Looks := by
  unfold has
  refine .bind (.ofExcept _) fun site => .bind (.attempt trivial) fun answer => ?_
  split
  · trivial
  · split <;> trivial

theorem asks_read : (s.read key).Asks Request.Looks := by
  unfold read
  refine .bind (.ofExcept _) fun site => .bind (.attempt trivial) fun answer => ?_
  split
  · trivial
  · trivial
  · split <;> trivial

theorem next_has_eq (s : Store) (key : String) (d : Disk) : s.next (.has key) d = d := by
  rw [next_has, (s.asks_has key).run_looks]

theorem next_read_eq (s : Store) (key : String) (d : Disk) : s.next (.read key) d = d := by
  rw [next_read, (s.asks_read key).run_looks]

theorem asks_removing {P : Request → Prop} {r : Request} (hr : P r) : (removing r).Asks P := by
  unfold removing
  refine .bind (.attempt hr) fun answer => ?_
  split
  · trivial
  · split <;> trivial

theorem asks_delete : (s.delete key).Asks Request.Spares := by
  unfold delete
  refine .bind (.ofExcept _) fun site => ?_
  dsimp only
  split <;> exact asks_removing trivial

theorem asks_clear : s.clear.Asks Request.Spares := asks_removing trivial

/-! ## Atomic writes -/

variable {s}

/-- All that an atomic write writes goes to its temporary file, which is new. -/
theorem keeps_writeAtomic (dir file : Path) (source : Source) (d : Disk) :
    d.Keeps ((writeAtomic dir file source).run d).2 := by
  cases hcreate : d.createTemp dir with
  | error e =>
    rw [run_writeAtomic_of_error source hcreate]
    exact .refl d
  | ok made =>
    obtain ⟨temp, h, d₁⟩ := made
    obtain ⟨l, -, -, hnumber, rfl⟩ := Disk.leads_createTemp hcreate
    have happend : d.Keeps ((d.insertFile l).append h (source.delivered (d.insertFile l))) :=
      (Disk.Keeps.insertFile d l).append hnumber.ge _
    have hunlink := happend.trans (Disk.keeps_perform _ (r := .unlink temp) trivial)
    rw [run_writeAtomic_of_createTemp source hcreate]
    dsimp only
    cases source.answer (d.insertFile l) with
    | error e => exact hunlink
    | ok n =>
      have hreplace := happend.trans (Disk.keeps_perform _ (r := .replace temp file) trivial)
      simp only [Disk.perform, Disk.changing] at hreplace
      dsimp only
      split
      · exact hunlink
      · next d₃ hd₃ =>
        rw [hd₃] at hreplace
        exact hreplace

theorem keeps_write (hatomic : s.atomicWrites = true) (source : Source) (d : Disk) :
    d.Keeps ((s.write key source).run d).2 := by
  rw [run_write]
  cases s.site key with
  | error e => exact .refl d
  | ok site =>
    have hmade := Disk.Keeps.of_adds ((asks_makeDirs site.dir).run_adds d)
    dsimp only
    rcases hrun : (makeDirs site.dir).run d with ⟨e | _, d₁⟩
    · rw [hrun] at hmade
      exact hmade
    · rw [hrun] at hmade
      dsimp only
      rw [hatomic, if_pos rfl]
      exact hmade.trans (keeps_writeAtomic ..)

/-- Whatever is done to a store that writes atomically, every file that was there keeps its
bytes, if not its name. -/
theorem keeps_next (hatomic : s.atomicWrites = true) (operation : Operation) (d : Disk) :
    d.Keeps (s.next operation d) := by
  cases operation with
  | has key =>
    rw [next_has_eq]
    exact .refl d
  | read key =>
    rw [next_read_eq]
    exact .refl d
  | write key source =>
    rw [next_write]
    exact keeps_write key hatomic source d
  | delete key =>
    rw [next_delete]
    exact (s.asks_delete key).run_keeps d
  | clear =>
    rw [next_clear]
    exact s.asks_clear.run_keeps d

end Store

end BlobStore
