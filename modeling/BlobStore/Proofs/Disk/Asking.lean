import BlobStore.Proofs.Disk.Effects

/-!
# What an action may ask

Which requests an action may make can be read off the action without running it:
`Action.Asks P` says that all of them satisfy `P`, whatever the answers are.  What every such
request keeps is then kept by the whole action (`Asks.run_invariant`), however it ends.

Three kinds of requests matter.  Some only look at the disk (`Request.Looks`), some at most
make a directory (`Request.Builds`), and some spare the bytes of every file that is there
(`Request.Spares`), though names may change.
-/

namespace BlobStore

namespace Action

variable {ε ε' α β : Type} {P : Request → Prop}

/-- Every request that an action may make satisfies a condition. -/
def Asks (P : Request → Prop) : Action ε α → Prop
  | done _ => True
  | fail _ => True
  | ask r next => P r ∧ ∀ answer, (next answer).Asks P

namespace Asks

theorem bind {x : Action ε α} {f : α → Action ε β} (hx : x.Asks P) (hf : ∀ a, (f a).Asks P) :
    (x >>= f).Asks P := by
  induction x with
  | done a => exact hf a
  | fail e => trivial
  | ask r next ih => exact ⟨hx.1, fun answer => ih answer (hx.2 answer)⟩

theorem catching {x : Action ε α} {f : Except ε α → Action ε' β} (hx : x.Asks P)
    (hf : ∀ a, (f a).Asks P) : (x.catching f).Asks P := by
  induction x with
  | done a => exact hf (.ok a)
  | fail e => exact hf (.error e)
  | ask r next ih => exact ⟨hx.1, fun answer => ih answer (hx.2 answer)⟩

theorem mapError (g : ε → ε') {x : Action ε α} (hx : x.Asks P) : (x.mapError g).Asks P :=
  hx.catching fun a => by cases a <;> trivial

theorem ofExcept (a : Except ε α) : (Action.ofExcept a).Asks P := by
  cases a <;> trivial

theorem request {r : Request} (hr : P r) : (Action.request r).Asks P := ⟨hr, ofExcept⟩

theorem attempt {r : Request} (hr : P r) : (Action.attempt r : Action ε _).Asks P :=
  ⟨hr, fun _ => trivial⟩

/-- What the requests of an action keep is kept by the action. -/
theorem run_invariant {I : Disk → Prop} (hI : ∀ d r, P r → I d → I (d.perform r).2)
    {x : Action ε α} (hx : x.Asks P) {d : Disk} (hd : I d) : I (x.run d).2 := by
  induction x generalizing d with
  | done a => exact hd
  | fail e => exact hd
  | ask r next ih => exact ih _ (hx.2 _) (hI d r hx.1 hd)

end Asks

end Action

/-! ## Looking -/

/-- A request that changes nothing. -/
def Request.Looks : Request → Prop
  | kind _ | openRead _ | sync _ | readAt _ _ _ | readFrom _ _ => True
  | _ => False

/-- An action that only looks leaves the disk as it is. -/
theorem Action.Asks.run_looks {ε α : Type} {x : Action ε α} (hx : x.Asks Request.Looks)
    (d : Disk) : (x.run d).2 = d := by
  refine hx.run_invariant (I := fun d' => d' = d) (fun d' r hr hd => ?_) rfl
  cases r with
  | kind p => exact hd
  | openRead p => exact hd
  | sync h => exact hd
  | readAt h position count => exact hd
  | readFrom h position => exact hd
  | _ => exact hr.elim

/-! ## Making directories -/

/-- A request that at most makes a directory. -/
def Request.Builds : Request → Prop
  | kind _ | makeDir _ => True
  | _ => False

/-- A disk with all that is on another one and no further bytes. -/
structure Disk.Adds (d d' : Disk) : Prop where
  base : d'.base = d.base
  contents : d'.contents = d.contents
  node : ∀ l n, d.node? l = some n → d'.node? l = some n

theorem Action.Asks.run_adds {ε α : Type} {x : Action ε α} (hx : x.Asks Request.Builds)
    (d : Disk) : d.Adds (x.run d).2 := by
  refine hx.run_invariant (I := d.Adds) (fun d' r hr hd => ?_) ⟨rfl, rfl, fun _ _ h => h⟩
  cases r with
  | kind p => exact hd
  | makeDir p =>
    simp only [Disk.perform]
    cases h : d'.makeDir p with
    | error e => exact hd
    | ok d'' =>
      obtain ⟨l, hends, hnone, rfl⟩ := Disk.makeDir_eq_ok h
      exact ⟨hd.base, hd.contents, fun m n hm =>
        Disk.node?_insert_of_some hends.ne_nil hnone (hd.node m n hm)⟩
  | _ => exact hr.elim

/-! ## Sparing the bytes of files -/

/-- A request that neither empties a file nor writes to one. -/
def Request.Spares : Request → Prop
  | create _ | append _ _ => False
  | _ => True

namespace Disk

/-- A disk that still has all bytes of the files of another one. -/
structure Keeps (d d' : Disk) : Prop where
  size_le : d.contents.size ≤ d'.contents.size
  bytes : ∀ i, i < d.contents.size → d'.bytes i = d.bytes i

variable {d d' d'' : Disk}

namespace Keeps

theorem of_contents_eq (h : d'.contents = d.contents) : d.Keeps d' where
  size_le := by rw [h]
  bytes i _ := by rw [Disk.bytes, Disk.bytes, h]

theorem refl (d : Disk) : d.Keeps d := of_contents_eq rfl

theorem of_adds (h : d.Adds d') : d.Keeps d' := of_contents_eq h.contents

theorem trans (h : d.Keeps d') (h' : d'.Keeps d'') : d.Keeps d'' where
  size_le := h.size_le.trans h'.size_le
  bytes i hi := (h'.bytes i (hi.trans_le h.size_le)).trans (h.bytes i hi)

theorem insertFile (d : Disk) (l : Location) : d.Keeps (d.insertFile l) where
  size_le := by simp [Disk.insertFile]
  bytes i hi := by rw [bytes_insertFile, if_neg hi.ne]

/-- Writing to a file that is new keeps all that were there before. -/
theorem append (h : d.Keeps d') {file : Handle} (hnew : d.contents.size ≤ file.number)
    (b : ByteArray) : d.Keeps (d'.append file b) where
  size_le := by simpa [Disk.append, setBytes] using h.size_le
  bytes i hi := by
    rw [Disk.append, bytes_setBytes, if_neg (by omega)]
    exact h.bytes i hi

end Keeps

theorem keeps_changing {answer : Except IoError Disk}
    (h : ∀ d', answer = .ok d' → d'.contents = d.contents) : d.Keeps (d.changing answer).2 := by
  cases answer with
  | error e => exact .refl d
  | ok d' => exact .of_contents_eq (h d' rfl)

theorem keeps_perform (d : Disk) {r : Request} (hr : r.Spares) : d.Keeps (d.perform r).2 := by
  cases r with
  | create p => exact hr.elim
  | append h b => exact hr.elim
  | makeDir p =>
    apply keeps_changing
    intro d' h
    obtain ⟨l, -, -, rfl⟩ := makeDir_eq_ok h
    rfl
  | replace file target =>
    apply keeps_changing
    intro d' h
    obtain ⟨old, new, i, -, -, -, -, rfl⟩ := replace_eq_ok h
    rfl
  | unlink p =>
    apply keeps_changing
    intro d' h
    obtain ⟨l, -, rfl⟩ := unlink_eq_ok h
    rfl
  | createTemp dir =>
    simp only [perform]
    cases h : d.createTemp dir with
    | error e => exact .refl d
    | ok made =>
      obtain ⟨t, -, -, -, -, -, -, heq⟩ := createTemp_eq_ok h
      exact heq ▸ .insertFile d _
  | removeTree p =>
    show d.Keeps (d.removeTree p).2
    rcases removeTree_cases d p with h | ⟨l, -, h | ⟨-, h⟩⟩ <;> rw [h] <;>
      exact .of_contents_eq rfl
  | _ => exact .refl d

end Disk

theorem Action.Asks.run_keeps {ε α : Type} {x : Action ε α} (hx : x.Asks Request.Spares)
    (d : Disk) : d.Keeps (x.run d).2 :=
  hx.run_invariant (I := d.Keeps) (fun d' _ hr hd => hd.trans (d'.keeps_perform hr)) (.refl d)

end BlobStore
