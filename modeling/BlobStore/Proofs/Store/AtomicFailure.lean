import BlobStore.Proofs.Store.Runs
import BlobStore.Proofs.Store.Writing

/-!
# An atomic write that fails

Whatever makes an atomic write fail, be it the key, something in the way, the name or the
source, it leaves every file as it was and none besides.  All that may be new are
directories above the object's place.

On a `Disk` the bytes of a file can always be written and kept.  Where a file system refuses
that, or whatever else it is asked, an atomic write removes its temporary file before it
fails (`failsAfter_unlink`).
-/

namespace BlobStore

/-! ## Failures on any file system -/

namespace Action

variable {ε ε' α β : Type} {last r : Request}

/-- However its requests are answered, an action fails only after a certain request, with
nothing asked in between. -/
def FailsAfter (last : Request) : Action ε α → Prop
  | done _ => True
  | fail _ => False
  | ask r next => ∀ answer, (next answer).FailsAfter last ∨ r = last ∧ ∃ e, next answer = fail e

namespace FailsAfter

theorem catching (x : Action ε α) {f : Except ε α → Action ε' β}
    (hf : ∀ a, (f a).FailsAfter last) : (x.catching f).FailsAfter last := by
  induction x with
  | done a => exact hf (.ok a)
  | fail e => exact hf (.error e)
  | ask r next ih => exact fun answer => Or.inl (ih answer)

theorem attempt_bind {f : Except IoError r.Result → Action ε α}
    (hf : ∀ answer, (f answer).FailsAfter last) : (attempt r >>= f).FailsAfter last :=
  fun answer => Or.inl (hf answer)

end FailsAfter

end Action

namespace Store

theorem failsAfter_discard {α : Type} (temp : Path) (e : IoError) :
    (discard temp e : Action IoError α).FailsAfter (.unlink temp) :=
  fun _ => Or.inr ⟨rfl, e, rfl⟩

/-- On any file system, an atomic write that has made its temporary file removes it before it
fails: if the source fails, if the bytes cannot be written or kept, or if the file cannot take
its place. -/
theorem failsAfter_unlink (dir file : Path) (source : Source) :
    ∃ next, writeAtomic dir file source = .ask (.createTemp dir) next ∧
      (∀ e, next (.error e) = .fail e) ∧
      ∀ temp h, (next (.ok (temp, h))).FailsAfter (.unlink temp) := by
  refine ⟨_, rfl, fun e => rfl, fun temp h => ?_⟩
  refine Action.FailsAfter.catching _ fun copied => ?_
  cases copied with
  | error e => exact failsAfter_discard temp e
  | ok n =>
    refine Action.FailsAfter.attempt_bind fun replaced => ?_
    cases replaced with
    | ok _ => trivial
    | error e => exact failsAfter_discard temp e

/-! ## Failures on a disk -/

variable {s : Store} {d : Disk}

/-- An atomic write that fails has at most added directories on the way to the object's. -/
theorem view_of_failed (hroot : s.root.Plain) (hatomic : s.atomicWrites = true) (hd : d.Unshared)
    {key : String} {source : Source} {e : StoreError}
    (hfailed : s.reply (.write key source) d = .failed e) (l : Location) :
    (s.next (.write key source) d).view l = d.view l ∨
      d.view l = none ∧ (s.next (.write key source) d).view l = some .dir ∧
        ∃ site, s.site key = .ok site ∧ l <+: d.locate site.dir := by
  rw [reply_write] at hfailed
  rw [next_write]
  rcases write_cases source hroot hd key with ⟨e, -, hrun⟩ | ⟨site, d₁, hsite, hgrows, hwritten⟩
  · rw [hrun]
    exact Or.inl rfl
  · rcases hwritten with ⟨e, -, hview⟩ | ⟨d₂, -, -, hok | ⟨hplain, -⟩⟩
    · rw [hview]
      rcases hgrows.view l with hsame | ⟨hnone, hdir, habove⟩
      · exact Or.inl hsame
      · exact Or.inr ⟨hnone, hdir, site, hsite, habove⟩
    · rw [hok] at hfailed
      exact absurd hfailed (by simp)
    · rw [hatomic] at hplain
      exact absurd hplain (by simp)

/-- **An atomic write that fails leaves every object intact.**  The files are the same ones
with the same bytes, every directory is still there, and whatever is new is a directory on
the way to the one in which the object would lie. -/
theorem atomic_write_failure (hroot : s.root.Plain) (hatomic : s.atomicWrites = true)
    (hd : d.Unshared) {key : String} {source : Source} {e : StoreError}
    (hfailed : s.reply (.write key source) d = .failed e) :
    (∀ l b, (s.next (.write key source) d).view l = some (.file b) ↔ d.view l = some (.file b)) ∧
      (∀ l, d.view l = some .dir → (s.next (.write key source) d).view l = some .dir) ∧
      ∀ l, d.view l = none → (s.next (.write key source) d).view l ≠ none →
        (s.next (.write key source) d).view l = some .dir ∧
          ∃ site, s.site key = .ok site ∧ l <+: d.locate site.dir := by
  have hview := view_of_failed hroot hatomic hd hfailed
  refine ⟨fun l b => ?_, fun l hdir => ?_, fun l hnone hnew => ?_⟩
  · rcases hview l with hsame | ⟨hnone, hdir, -⟩
    · rw [hsame]
    · simp [hnone, hdir]
  · rcases hview l with hsame | ⟨hnone, -, -⟩
    · rw [hsame, hdir]
    · rw [hdir] at hnone
      exact absurd hnone (by simp)
  · rcases hview l with hsame | ⟨-, hdir, hsite⟩
    · rw [hsame] at hnew
      exact absurd hnone hnew
    · exact ⟨hdir, hsite⟩

/-- An object is still there when a source has given up in the middle of another one for
its key. -/
theorem atomic_write_failure_keeps_previous :
    let s : Store := ⟨⟨[0x73]⟩, Layout.identity, true⟩
    let d := (((Disk.empty.insert [[0x73]] .dir).insert [[0x73], [0x61]] .dir).insertFile
      [[0x73], [0x61], [0x61]]).setBytes 0 ⟨#[7]⟩
    s.root.Plain ∧ d.Unshared ∧
      (s.next (.write "a" (.stream [.bytes ⟨#[1, 2]⟩] true)) d).view [[0x73], [0x61], [0x61]] =
        some (.file ⟨#[7]⟩) := by
  intro s d
  have hroot : s.root.Plain := ⟨by decide, by decide⟩
  have hd : d.Unshared :=
    (((Disk.wellFormed_empty.toUnshared.insert_dir (by decide)).insert_dir
      (by decide)).insertFile (by decide)).setBytes 0 _
  have hfailed : s.reply (.write "a" (.stream [.bytes ⟨#[1, 2]⟩] true)) d =
      .failed (.io (.custom "source failed")) := by unfold s d; rfl
  have hkept := atomic_write_failure hroot rfl hd hfailed
  exact ⟨hroot, hd, (hkept.1 _ _).mpr (by rfl)⟩

end Store

end BlobStore
