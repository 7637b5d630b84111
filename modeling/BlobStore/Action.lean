import BlobStore.Disk.Request

/-!
# Actions

An `Action` is what the store does, as a value: it ends with a result or a failure,
or makes a request to the file system and goes on with the answer.  The same action
can be run on a `Disk`, about which statements can be proved, and on the file system
of a computer.

`run_pure`, `run_fail`, `run_bind`, `run_ask` and `run_catching` say what running does
to a disk.
-/

namespace BlobStore

section

variable {ε ε' α : Type}

@[simp]
theorem Except.mapError_ok (g : ε → ε') (a : α) : (Except.ok a).mapError g = .ok a := rfl

@[simp]
theorem Except.mapError_error (g : ε → ε') (e : ε) :
    (Except.error e : Except ε α).mapError g = .error (g e) := rfl

end

/-- A computation that may make requests to the file system and may fail. -/
inductive Action (ε α : Type) : Type where
  | done (a : α)
  | fail (e : ε)
  | ask (r : Request) (next : Except IoError r.Result → Action ε α)

namespace Action

variable {ε ε' α β : Type}

/-- Goes on with the result of an action. -/
def bind (x : Action ε α) (f : α → Action ε β) : Action ε β :=
  match x with
  | done a => f a
  | fail e => fail e
  | ask r next => ask r fun answer => (next answer).bind f

instance : Monad (Action ε) where
  pure := done
  bind := bind

/-- Goes on with the result of an action, be it a failure or not. -/
def catching (x : Action ε α) (f : Except ε α → Action ε' β) : Action ε' β :=
  match x with
  | done a => f (.ok a)
  | fail e => f (.error e)
  | ask r next => ask r fun answer => (next answer).catching f

/-- Names the failures of an action differently. -/
def mapError (g : ε → ε') (x : Action ε α) : Action ε' α :=
  x.catching fun
    | .ok a => done a
    | .error e => fail (g e)

/-- The action that only ends as given. -/
def ofExcept : Except ε α → Action ε α
  | .ok a => done a
  | .error e => fail e

/-- Makes a request; its failure is the failure of the action. -/
def request (r : Request) : Action IoError r.Result := ask r ofExcept

/-- Makes a request and answers how it ended. -/
def attempt (r : Request) : Action ε (Except IoError r.Result) := ask r done

/-- Runs an action on a disk.  What it did to the disk before it failed stays. -/
def run : Action ε α → Disk → Except ε α × Disk
  | done a, d => (.ok a, d)
  | fail e, d => (.error e, d)
  | ask r next, d => run (next (d.perform r).1) (d.perform r).2

@[simp] theorem run_done (a : α) (d : Disk) : (done a : Action ε α).run d = (.ok a, d) := rfl

@[simp] theorem run_pure (a : α) (d : Disk) : (pure a : Action ε α).run d = (.ok a, d) := rfl

@[simp] theorem run_fail (e : ε) (d : Disk) : (fail e : Action ε α).run d = (.error e, d) := rfl

@[simp] theorem run_ask (r : Request) (next : Except IoError r.Result → Action ε α) (d : Disk) :
    (ask r next).run d = (next (d.perform r).1).run (d.perform r).2 := rfl

/-- A failure ends the action, and the disk stays as it is then. -/
theorem run_bind (x : Action ε α) (f : α → Action ε β) (d : Disk) :
    (x >>= f).run d =
      match x.run d with
      | (.ok a, d') => (f a).run d'
      | (.error e, d') => (.error e, d') := by
  induction x generalizing d with
  | done a => rfl
  | fail e => rfl
  | ask r next ih => exact ih _ _

theorem run_catching (x : Action ε α) (f : Except ε α → Action ε' β) (d : Disk) :
    (x.catching f).run d = (f (x.run d).1).run (x.run d).2 := by
  induction x generalizing d with
  | done a => rfl
  | fail e => rfl
  | ask r next ih => exact ih _ _

@[simp] theorem run_ofExcept (r : Except ε α) (d : Disk) : (ofExcept r).run d = (r, d) := by
  cases r <;> rfl

@[simp] theorem run_request (r : Request) (d : Disk) : (request r).run d = d.perform r := by
  simp [request]

@[simp] theorem run_attempt (r : Request) (d : Disk) :
    (attempt r : Action ε _).run d = (.ok (d.perform r).1, (d.perform r).2) := rfl

/-- Going on with the result itself changes nothing. -/
theorem bind_done (x : Action ε α) : x.bind done = x := by
  induction x with
  | done a => rfl
  | fail e => rfl
  | ask r next ih => exact congrArg (ask r) (funext ih)

theorem bind_assoc {γ : Type} (x : Action ε α) (f : α → Action ε β) (g : β → Action ε γ) :
    (x.bind f).bind g = x.bind fun a => (f a).bind g := by
  induction x with
  | done a => rfl
  | fail e => rfl
  | ask r next ih => exact congrArg (ask r) (funext ih)

instance : LawfulMonad (Action ε) :=
  LawfulMonad.mk' (Action ε) bind_done (fun _ _ => rfl) bind_assoc

/-- A renamed result comes with the same disk. -/
theorem run_map (f : α → β) (x : Action ε α) (d : Disk) :
    (f <$> x).run d = ((x.run d).1.map f, (x.run d).2) := by
  rw [← bind_pure_comp, run_bind]
  rcases x.run d with ⟨_ | _, d'⟩ <;> rfl

/-- So does a failure that is named differently. -/
theorem run_mapError (g : ε → ε') (x : Action ε α) (d : Disk) :
    (mapError g x).run d = ((x.run d).1.mapError g, (x.run d).2) := by
  rw [mapError, run_catching]
  rcases x.run d with ⟨_ | _, d'⟩ <;> rfl

/-! ## What a success tells about its parts -/

variable {x : Action ε α} {d d' : Disk} {a : α} {b : β}

theorem run_bind_eq_ok {f : α → Action ε β} :
    (x >>= f).run d = (.ok b, d') ↔
      ∃ a d₁, x.run d = (.ok a, d₁) ∧ (f a).run d₁ = (.ok b, d') := by
  rw [run_bind]
  constructor
  · intro h
    rcases hx : x.run d with ⟨e | a, d₁⟩
    · simp [hx] at h
    · rw [hx] at h
      exact ⟨a, d₁, rfl, h⟩
  · rintro ⟨a, d₁, hx, h⟩
    rw [hx]
    exact h

theorem run_map_eq_ok {f : α → β} :
    (f <$> x).run d = (.ok b, d') ↔ ∃ a, x.run d = (.ok a, d') ∧ f a = b := by
  rw [← bind_pure_comp, run_bind_eq_ok]
  simp

theorem run_mapError_eq_ok {g : ε → ε'} :
    (mapError g x).run d = (.ok a, d') ↔ x.run d = (.ok a, d') := by
  rw [run_mapError]
  rcases x.run d with ⟨e | b, d₁⟩ <;> simp

end Action

end BlobStore
