import BlobStore.Proofs.Config.Format
import BlobStore.Proofs.Json.Filling
import BlobStore.Proofs.Json.Unambiguous

/-!
# The fields that a configuration file leaves out

Every text from which a configuration is read stands for one value, an object or a list, and the
configuration has its standard values in the fields that the value does not give
(`exists_denotes_of_ofJson`).  This is known of all texts that are read, also of those that spell a
choice as an object or give the fields by their places in a list.
-/

namespace BlobStore.Config

/-- A value gives a field: it is an object with a member of its name, or a list that is long
enough. -/
def Gives (v : Json.Datum) (name : String) : Prop := Json.units name ∈ v.given fieldNames

instance (v : Json.Datum) (name : String) : Decidable (Gives v name) :=
  inferInstanceAs (Decidable (_ ∈ _))

/-- Where a field is not mentioned, a configuration has the standard value. -/
structure StandardBut (mentioned : String → Prop) (c : Config) : Prop where
  root : ¬ mentioned "root" → c.root = standard.root
  scheme : ¬ mentioned "transform" → c.scheme = standard.scheme
  algorithm : ¬ mentioned "hash" → c.algorithm = standard.algorithm
  blockSize : ¬ mentioned "block_size" → c.blockSize = standard.blockSize
  atomicWrites : ¬ mentioned "atomic_writes" → c.atomicWrites = standard.atomicWrites

/-- Drafts that differ at most in the field of a name. -/
structure Draft.SameBut (name : String) (d d' : Draft) : Prop where
  root : name ≠ "root" → d'.root = d.root
  scheme : name ≠ "transform" → d'.scheme = d.scheme
  algorithm : name ≠ "hash" → d'.algorithm = d.algorithm
  blockSize : name ≠ "block_size" → d'.blockSize = d.blockSize
  atomicWrites : name ≠ "atomic_writes" → d'.atomicWrites = d.atomicWrites

section reading

variable {f : Json.Field Draft}

theorem ensures_sameBut (hf : f ∈ schema.fields) (d : Draft) :
    (f.read d).Ensures (Draft.SameBut f.name d) := by
  simp only [schema, List.mem_cons, List.not_mem_nil, or_false] at hf
  rcases hf with rfl | rfl | rfl | rfl | rfl
  · exact .after fun _ => .pure ⟨absurd rfl, fun _ => rfl, fun _ => rfl, fun _ => rfl, fun _ => rfl⟩
  · exact .after fun _ => .pure ⟨fun _ => rfl, absurd rfl, fun _ => rfl, fun _ => rfl, fun _ => rfl⟩
  · exact .after fun _ => .pure ⟨fun _ => rfl, fun _ => rfl, absurd rfl, fun _ => rfl, fun _ => rfl⟩
  · exact .after fun _ => .pure ⟨fun _ => rfl, fun _ => rfl, fun _ => rfl, absurd rfl, fun _ => rfl⟩
  · exact .after fun _ => .pure ⟨fun _ => rfl, fun _ => rfl, fun _ => rfl, fun _ => rfl, absurd rfl⟩

theorem takesValues_schema : schema.TakesValues := by
  intro f hf d
  simp only [schema, List.mem_cons, List.not_mem_nil, or_false] at hf
  rcases hf with rfl | rfl | rfl | rfl | rfl
  · exact (Json.takesValue_readString _).map _
  · exact (Json.takesValue_readVariant _).map _
  · exact (Json.takesValue_readVariant _).map _
  · exact (Json.takesValue_readNatural _).map _
  · exact (Json.takesValue_readBoolean _).map _

/-- A field that is not given is not set. -/
theorem eq_of_fills {α : Type} (get : Draft → α) {names : List (List Nat)} {d d' : Draft}
    (h : schema.Fills names d d') {name : String}
    (hget : ∀ {name' d d'}, Draft.SameBut name' d d' → name' ≠ name → get d' = get d)
    (hname : Json.units name ∉ names) : get d' = get d := by
  refine h (fun d' => get d' = get d) (fun f hf hgiven d₁ hd₁ => ?_) rfl
  intro cs d₂ rest hread
  have hne : f.name ≠ name := fun heq => hname (heq ▸ hgiven)
  exact (hget (ensures_sameBut hf d₁ _ _ _ hread) hne).trans hd₁

end reading

/-- A text that is read stands for one value, and the fields that the value does not give are
standard. -/
theorem exists_denotes_of_ofJson {text : String} {c : Config} (h : ofJson text = .ok c) :
    ∃ v, (∀ v', Json.Denotes text v' ↔ v' = v) ∧ c.StandardBut (Gives v) := by
  obtain ⟨v, d, hdenotes, hfills, hfinish⟩ :=
    Json.Schema.exists_denotes_of_readAll takesValues_schema h
  obtain rfl := Except.ok.inj hfinish
  refine ⟨v, fun v' => ⟨fun hv' => hv'.unique hdenotes, fun hv' => hv' ▸ hdenotes⟩, ?_⟩
  constructor
  · intro hname
    rw [eq_of_fills Draft.root hfills Draft.SameBut.root hname]
    rfl
  · intro hname
    rw [eq_of_fills Draft.scheme hfills Draft.SameBut.scheme hname]
    rfl
  · intro hname
    rw [eq_of_fills Draft.algorithm hfills Draft.SameBut.algorithm hname]
    rfl
  · intro hname
    rw [eq_of_fills Draft.blockSize hfills Draft.SameBut.blockSize hname]
    rfl
  · intro hname
    rw [eq_of_fills Draft.atomicWrites hfills Draft.SameBut.atomicWrites hname]
    rfl

end BlobStore.Config
