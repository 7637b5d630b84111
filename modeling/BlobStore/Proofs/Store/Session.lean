import BlobStore.Proofs.Store.Contents
import BlobStore.Proofs.Store.Reading

/-!
# Reading while others write

In a `Session` stores are used in any order, and objects that have been opened stay open and
are read piece by piece in between.  If all stores write atomically, nobody who reads notices
the others: what is read of an object is what it held when it was opened, although it may have
been replaced or deleted since (`snapshot_reads`).

Two facts carry this.  An operation on a store that writes atomically keeps the bytes of every
file that was there (`keeps_next`), and as long as a file has its bytes, what has been taken of
it followed by what is left is always the same (`OpenObject.Intact`).
-/

namespace BlobStore

/-- What is done in a session. -/
inductive Session.Step where
  /-- an operation of a store, after which nothing stays open -/
  | call (c : Call)
  /-- open the object of a key and keep it open -/
  | opens (s : Store) (key : String)
  /-- take up to some bytes of one of the open objects -/
  | takes (index count : Nat)

/-- Whether a step writes atomically, if it writes. -/
def Session.Step.WritesAtomically : Session.Step → Prop
  | call c => c.store.atomicWrites = true
  | _ => True

/-- An object that is open, and what has been read of it. -/
structure OpenObject where
  store : Store
  key : String
  /-- the disk on which it was opened -/
  origin : Disk
  blob : Blob
  /-- how many bytes were asked for, and the answers, the first one in front -/
  takes : List (Nat × ByteArray)

/-- A disk, and the objects that are open on it. -/
structure Session where
  disk : Disk
  objects : List OpenObject

namespace Session

/-- The beginning of a session, in which nothing is open. -/
def start (d : Disk) : Session := ⟨d, []⟩

/-- The session after a step. -/
def next (x : Session) : Step → Session
  | .call c => { x with disk := c.store.next c.operation x.disk }
  | .opens s key =>
    match (s.read key).run x.disk with
    | (.ok blob, d) => ⟨d, x.objects ++ [⟨s, key, x.disk, blob, []⟩]⟩
    | (.error _, d) => { x with disk := d }
  | .takes index n =>
    match x.objects[index]? with
    | none => x
    | some o =>
      match (o.blob.take n).run x.disk with
      | (.ok (piece, blob), d) =>
        ⟨d, x.objects.set index { o with blob, takes := o.takes ++ [(n, piece)] }⟩
      | (.error _, d) => { x with disk := d }

/-- The session after some steps. -/
def after (x : Session) (steps : List Step) : Session := steps.foldl next x

end Session

/-! ## What has been taken -/

/-- The bytes of some answers, one after the other. -/
def joined : List (Nat × ByteArray) → ByteArray
  | [] => ByteArray.empty
  | (_, piece) :: rest => piece ++ joined rest

/-- Of a number of bytes, every answer has as many as were asked for, or as were left. -/
def Fits : List (Nat × ByteArray) → Nat → Prop
  | [], _ => True
  | (n, piece) :: rest, left => piece.size = min n left ∧ Fits rest (left - piece.size)

theorem joined_concat (takes : List (Nat × ByteArray)) (n : Nat) (piece : ByteArray) :
    joined (takes ++ [(n, piece)]) = joined takes ++ piece := by
  induction takes with
  | nil => simp [joined]
  | cons t takes ih => simp only [List.cons_append, joined, ih, ByteArray.append_assoc]

theorem fits_concat {takes : List (Nat × ByteArray)} {n : Nat} {piece : ByteArray} :
    ∀ {left : Nat}, Fits takes left → piece.size = min n (left - (joined takes).size) →
      Fits (takes ++ [(n, piece)]) left := by
  induction takes with
  | nil =>
    intro left _ hpiece
    exact ⟨by simpa [joined] using hpiece, trivial⟩
  | cons t takes ih =>
    intro left hfits hpiece
    refine ⟨hfits.1, ih hfits.2 ?_⟩
    rw [joined, ByteArray.size_append] at hpiece
    rw [Nat.sub_sub, hpiece]

namespace OpenObject

/-- What has been read of an object. -/
def taken (o : OpenObject) : ByteArray := joined o.takes

/-- An object of which nothing has been lost: what has been taken and what is left are together
what the object held when it was opened. -/
structure Intact (o : OpenObject) (d : Disk) : Prop where
  here : o.blob.handle.number < d.contents.size
  object : o.store.object? o.origin o.key = some (o.taken ++ o.blob.remaining d)
  size : o.blob.size = (o.taken ++ o.blob.remaining d).size
  fits : Fits o.takes (o.taken ++ o.blob.remaining d).size

namespace Intact

variable {o : OpenObject} {d d' : Disk}

/-- As long as files keep their bytes, nothing is lost. -/
theorem keeps (h : o.Intact d) (hkeeps : d.Keeps d') : o.Intact d' := by
  have hremaining : o.blob.remaining d' = o.blob.remaining d := by
    rw [Blob.remaining, Blob.remaining, Disk.readFrom, Disk.readFrom, hkeeps.bytes _ h.here]
  refine ⟨h.here.trans_le hkeeps.size_le, ?_, ?_, ?_⟩ <;> rw [hremaining]
  · exact h.object
  · exact h.size
  · exact h.fits

/-- What is taken goes from what is left to what has been taken. -/
theorem take (h : o.Intact d) (n : Nat) :
    ∃ blob, (o.blob.take n).run d = (.ok ((o.blob.remaining d).extract 0 n, blob), d) ∧
      Intact { o with blob, takes := o.takes ++ [(n, (o.blob.remaining d).extract 0 n)] } d := by
  obtain ⟨blob, hrun, hfollows⟩ := o.blob.run_take d n
  have hwhole : joined (o.takes ++ [(n, (o.blob.remaining d).extract 0 n)]) ++ blob.remaining d =
      o.taken ++ o.blob.remaining d := by
    rw [joined_concat, hfollows.remaining, ByteArray.append_assoc, extract_append_extract]
    rfl
  have hpiece : ((o.blob.remaining d).extract 0 n).size =
      min n ((o.taken ++ o.blob.remaining d).size - (joined o.takes).size) := by
    rw [ByteArray.size_extract, ByteArray.size_append, taken, Nat.add_sub_cancel_left, Nat.sub_zero]
  refine ⟨blob, hrun, ?_, ?_, ?_, ?_⟩
  · rw [hfollows.handle]
    exact h.here
  · rw [taken, hwhole]
    exact h.object
  · rw [taken, hwhole, hfollows.size]
    exact h.size
  · rw [taken, hwhole]
    exact fits_concat h.fits hpiece

end Intact

/-- Nothing has been taken of an object that has just been opened. -/
theorem intact_of_read {s : Store} {key : String} {d d' : Disk} {blob : Blob} (hd : d.Stored)
    (hread : (s.read key).run d = (.ok blob, d')) : Intact ⟨s, key, d, blob, []⟩ d' := by
  obtain ⟨file, h, hlocation, hnumber, rfl, rfl⟩ := Store.read_eq_ok.mp hread
  have hwhole : joined [] ++ (Blob.start h (d'.bytes h.number).size).remaining d' =
      d'.bytes h.number := by
    rw [Blob.remaining_start, joined, ByteArray.empty_append]
  refine ⟨hd.number?_lt hnumber, ?_, ?_, trivial⟩ <;> rw [taken, hwhole]
  · exact Store.object?_eq_some.mpr ⟨file, h.number, hlocation, hnumber, rfl⟩
  · rfl

end OpenObject

/-! ## Sessions -/

namespace Session

/-- A session in which nothing has been lost of any open object. -/
structure Sound (x : Session) : Prop where
  stored : x.disk.Stored
  intact : ∀ o ∈ x.objects, o.Intact x.disk

variable {x : Session}

theorem sound_start {d : Disk} (hd : d.Stored) : (start d).Sound :=
  ⟨hd, fun _ ho => absurd ho List.not_mem_nil⟩

theorem Sound.next (hx : x.Sound) {step : Step} (hstep : step.WritesAtomically) :
    (x.next step).Sound := by
  cases step with
  | call c =>
    exact ⟨Action.run_stored _ hx.stored, fun o ho =>
      (hx.intact o ho).keeps (Store.keeps_next hstep c.operation x.disk)⟩
  | opens s key =>
    have hlooks := (s.asks_read key).run_looks x.disk
    simp only [Session.next]
    rcases hread : (s.read key).run x.disk with ⟨e | blob, d⟩
    · rw [hread] at hlooks
      obtain rfl : d = x.disk := hlooks
      exact hx
    · have hopened := OpenObject.intact_of_read hx.stored hread
      rw [hread] at hlooks
      obtain rfl : d = x.disk := hlooks
      refine ⟨hx.stored, fun o ho => ?_⟩
      rcases List.mem_append.mp ho with ho | ho
      · exact hx.intact o ho
      · rw [List.mem_singleton.mp ho]
        exact hopened
  | takes index n =>
    simp only [Session.next]
    cases hindex : x.objects[index]? with
    | none => exact hx
    | some o =>
      obtain ⟨blob, hrun, hintact⟩ := (hx.intact o (List.mem_of_getElem? hindex)).take n
      simp only [hrun]
      refine ⟨hx.stored, fun o' ho' => ?_⟩
      rcases List.mem_or_eq_of_mem_set ho' with ho' | rfl
      · exact hx.intact o' ho'
      · exact hintact

theorem Sound.after {steps : List Step} : ∀ {x : Session}, x.Sound →
    (∀ step ∈ steps, step.WritesAtomically) → (x.after steps).Sound := by
  induction steps with
  | nil => intro x hx _; exact hx
  | cons step steps ih =>
    intro x hx hatomic
    exact ih (hx.next (hatomic step List.mem_cons_self)) fun step' h =>
      hatomic step' (List.mem_cons_of_mem _ h)

/-- An object that is open after a step is where it has been before, or the step has opened it and
put it after all others. -/
theorem getElem?_next {step : Step} {i : Nat} {o : OpenObject}
    (ho : (x.next step).objects[i]? = some o) :
    (∃ o', x.objects[i]? = some o' ∧ o'.store = o.store ∧ o'.key = o.key ∧ o'.origin = o.origin) ∨
      step = .opens o.store o.key ∧ o.origin = x.disk ∧ i = x.objects.length := by
  have hbefore (h : x.objects[i]? = some o) :
      ∃ o', x.objects[i]? = some o' ∧ o'.store = o.store ∧ o'.key = o.key ∧ o'.origin = o.origin :=
    ⟨o, h, rfl, rfl, rfl⟩
  cases step with
  | call c => exact Or.inl (hbefore ho)
  | opens s key =>
    simp only [Session.next] at ho
    split at ho
    · rcases Nat.lt_or_ge i x.objects.length with hlt | hge
      · exact Or.inl (hbefore (List.getElem?_append_left hlt ▸ ho))
      · rw [List.getElem?_append_right hge, List.getElem?_singleton] at ho
        split_ifs at ho with hi
        obtain rfl := Option.some.inj ho
        exact Or.inr ⟨rfl, rfl, by omega⟩
    · exact Or.inl (hbefore ho)
  | takes index n =>
    simp only [Session.next] at ho
    split at ho
    · exact Or.inl (hbefore ho)
    · next o' hindex =>
      split at ho
      · rw [List.getElem?_set] at ho
        split_ifs at ho with hi
        · obtain rfl := Option.some.inj ho
          exact Or.inl ⟨o', hi ▸ hindex, rfl, rfl, rfl⟩
        · exact Or.inl (hbefore ho)
      · exact Or.inl (hbefore ho)

/-- Every open object has been opened by a step, on the disk as it was then and as the next in the
row of open objects. -/
theorem exists_opens {d : Disk} {steps : List Step} {i : Nat} : ∀ {o : OpenObject},
    ((start d).after steps).objects[i]? = some o → ∃ before later,
      steps = before ++ .opens o.store o.key :: later ∧
        o.origin = ((start d).after before).disk ∧
        i = ((start d).after before).objects.length := by
  induction steps using List.reverseRecOn with
  | nil =>
    intro o ho
    rw [show ((start d).after []).objects = [] from rfl, List.getElem?_nil] at ho
    cases ho
  | append_singleton steps step ih =>
    intro o ho
    rw [Session.after, List.foldl_concat] at ho
    rcases getElem?_next ho with ⟨o', ho', hstore, hkey, horigin⟩ | ⟨rfl, horigin, hi⟩
    · obtain ⟨before, later, rfl, heq, hi⟩ := ih ho'
      rw [hstore, hkey, horigin] at *
      exact ⟨before, later ++ [step], by simp, heq, hi⟩
    · exact ⟨steps, [], rfl, horigin, hi⟩

/-- **Whoever reads an object reads what it held when it was opened.**  Let operations of stores
that write atomically, of any roots and layouts and with any sources, come in any order, and let
objects be opened and read piece by piece between them.  Then at every time, for every object
that is open: one of the steps has opened it, on the disk as it was then and as the next in the row
of open objects; its size is that of the bytes `b` which it held when it was opened; every take has
been answered with as many bytes as were asked for or were left; reading to the end now gives
the bytes of `b` that have not been taken; and so does a take, up to the bytes asked for. -/
theorem snapshot_reads {d : Disk} (hd : d.Stored) {steps : List Step}
    (hatomic : ∀ step ∈ steps, step.WritesAtomically) {o : OpenObject}
    (ho : o ∈ ((start d).after steps).objects) :
    ∃ before later b rest, steps = before ++ .opens o.store o.key :: later ∧
      ((start d).after steps).objects[((start d).after before).objects.length]? = some o ∧
      o.origin = ((start d).after before).disk ∧
      o.store.object? ((start d).after before).disk o.key = some b ∧ o.blob.size = b.size ∧
      Fits o.takes b.size ∧ o.taken ++ rest = b ∧
      o.blob.rest.run ((start d).after steps).disk = (.ok rest, ((start d).after steps).disk) ∧
      ∀ n, ∃ piece blob, (o.blob.take n).run ((start d).after steps).disk =
          (.ok (piece, blob), ((start d).after steps).disk) ∧
        piece = rest.extract 0 n ∧ piece.size = min n rest.size := by
  have hintact := ((sound_start hd).after hatomic).intact o ho
  obtain ⟨i, hi⟩ := List.mem_iff_getElem?.mp ho
  obtain ⟨before, later, hsteps, horigin, rfl⟩ := exists_opens hi
  refine ⟨before, later, _, o.blob.remaining _, hsteps, hi, horigin, horigin ▸ hintact.object,
    hintact.size, hintact.fits, rfl, o.blob.run_rest _, fun n => ?_⟩
  obtain ⟨blob, hrun, -⟩ := hintact.take n
  refine ⟨_, blob, hrun, rfl, ?_⟩
  rw [ByteArray.size_extract, Nat.sub_zero]

/-- An object of which two bytes have been taken is overwritten, and then the store is cleared:
its third byte is still there. -/
theorem snapshot_reads_cleared :
    let s : Store := ⟨⟨[0x73]⟩, Layout.identity, true⟩
    let steps : List Step := [.call ⟨s, .write "a" (.ofBytes ⟨#[1, 2, 3]⟩)⟩, .opens s "a",
      .takes 0 2, .call ⟨s, .write "a" (.ofBytes ⟨#[4]⟩)⟩, .call ⟨s, .clear⟩]
    let x := (start Disk.empty).after steps
    Disk.empty.Stored ∧ (∀ step ∈ steps, step.WritesAtomically) ∧
      ∃ o ∈ x.objects, o.taken = ⟨#[1, 2]⟩ ∧ o.blob.size = (o.taken ++ ⟨#[3]⟩).size ∧
        o.blob.rest.run x.disk = (.ok ⟨#[3]⟩, x.disk) := by
  intro s steps x
  have hd : Disk.empty.Stored := Disk.wellFormed_empty.isStored
  have hatomic : ∀ step ∈ steps, step.WritesAtomically := by
    simp [steps, Step.WritesAtomically, s]
  obtain ⟨o, hobjects, htaken, hleft⟩ : ∃ o, x.objects = [o] ∧ o.taken = ⟨#[1, 2]⟩ ∧
      (o.blob.rest.run x.disk).1 = .ok ⟨#[3]⟩ := by
    unfold x steps s
    exact ⟨_, rfl, rfl, rfl⟩
  have ho : o ∈ x.objects := hobjects ▸ List.mem_singleton_self o
  obtain ⟨-, -, b, rest, -, -, -, -, hsize, -, hwhole, hrun, -⟩ := snapshot_reads hd hatomic ho
  obtain rfl : rest = ⟨#[3]⟩ := by simpa [x, hrun] using hleft
  exact ⟨hd, hatomic, o, ho, htaken, hwhole ▸ hsize, hrun⟩

end Session

end BlobStore
