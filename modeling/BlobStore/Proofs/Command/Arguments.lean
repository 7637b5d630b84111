import BlobStore.Command.Invocation
import BlobStore.Json.Number
import BlobStore.Proofs.Disk.Locate

/-!
# What the words of a call can set

A property of values that every slot of a grammar keeps holds of all that is read by the grammar,
whatever the words (`Grammar.Keeps.readWords`).  So it is enough to look at the slots to know what
settings a call can have: a block size, for one, always fits into 64 bits
(`Invocation.fits_ofWords`).

An operand takes a whole word, while the value of a switch may be a part of one.  So what is read
from an operand is known to be one of the words: the key of a command is (`Invocation.key_mem_words`).
-/

namespace BlobStore

variable {σ : Type} {W : Word → Prop} {P : σ → Prop}

/-- Whichever of some words is entered in a slot, a property of the values is kept. -/
def Slot.KeepsOn (W : Word → Prop) (slot : Slot σ) (P : σ → Prop) : Prop :=
  ∀ w put, W w → slot.enter w = .ok put → ∀ v, P v → P (put v)

/-- Whatever word is entered in a slot, a property of the values is kept. -/
def Slot.Keeps (slot : Slot σ) (P : σ → Prop) : Prop :=
  ∀ w put, slot.enter w = .ok put → ∀ v, P v → P (put v)

theorem Slot.Keeps.on {slot : Slot σ} (h : slot.Keeps P) (W : Word → Prop) : slot.KeepsOn W P :=
  fun w put _ => h w put

/-- The slot that a switch fills, if there is one, keeps a property. -/
def Meaning.Keeps (P : σ → Prop) : Meaning σ → Prop
  | .ends _ _ => True
  | .flag slot => slot.Keeps P
  | .value slot => slot.Keeps P

/-- All slots of a grammar keep a property: those of the switches for any word, since they may
take a part of one, and those of the operands for the words that are given. -/
structure Grammar.Keeps (g : Grammar σ) (W : Word → Prop) (P : σ → Prop) : Prop where
  switches : ∀ s ∈ g.switches, s.meaning.Keeps P
  operands : ∀ slot ∈ g.operands, slot.KeepsOn W P

/-- What has been read has a property, and will keep it. -/
structure Reading.Sound (W : Word → Prop) (P : σ → Prop) (r : Reading σ) : Prop where
  values : P r.values
  pending : ∀ p, r.pending = some p → p.slot.KeepsOn W P ∧ ∀ w, p.word = some w → W w
  operands : ∀ slot ∈ r.operands, slot.KeepsOn W P

namespace Reading.Sound

variable {r r' : Reading σ}

theorem enter (h : r.Sound W P) {slot : Slot σ} {w : Word}
    (hslot : ∀ put, slot.enter w = .ok put → ∀ v, P v → P (put v))
    (hr' : r.enter slot w = .ok r') : r'.Sound W P := by
  unfold Reading.enter at hr'
  split_ifs at hr'
  split at hr'
  · cases hr'
  · next put hput =>
    obtain rfl := Except.ok.inj hr'
    exact ⟨hslot put hput _ h.values, h.pending, h.operands⟩

theorem settle (h : r.Sound W P) (hr' : r.settle = .ok r') : r'.Sound W P := by
  unfold Reading.settle at hr'
  split at hr'
  · exact Except.ok.inj hr' ▸ h
  · cases hr'
  · next slot w hpending =>
    obtain ⟨hslot, hword⟩ := h.pending _ hpending
    refine enter (r := { r with pending := none }) ⟨h.values, fun p hp => ?_, h.operands⟩
      (fun put => hslot w put (hword w rfl)) hr'
    cases hp

/-- Another slot may be awaited. -/
theorem await (h : r.Sound W P) {slot : Slot σ} (hslot : slot.KeepsOn W P) {w : Option Word}
    (hw : ∀ w', w = some w' → W w') : Sound W P { r with pending := some ⟨slot, w⟩ } where
  values := h.values
  pending p hp := by
    cases hp
    exact ⟨hslot, hw⟩
  operands := h.operands

/-- The slot that is awaited keeps the property. -/
theorem awaiting (h : r.Sound W P) {slot : Slot σ} (hslot : r.awaiting = some slot) :
    slot.KeepsOn W P := by
  unfold Reading.awaiting at hslot
  split at hslot
  · next slot' hpending =>
    obtain rfl := Option.some.inj hslot
    exact (h.pending _ hpending).1
  · cases hslot

theorem switch (h : r.Sound W P) {s : Switch σ} (hs : s.meaning.Keeps P) {attached : Option Word}
    (hr' : r.switch s attached = .ok r') : r'.Sound W P := by
  unfold Reading.switch at hr'
  split at hr'
  · next slot hmeaning =>
    rw [hmeaning] at hs
    obtain ⟨r₁, hr₁, heq⟩ := exists_of_bind_eq_ok hr'
    exact Except.ok.inj heq ▸ (h.settle hr₁).await (hs.on W) (fun _ hw' => by cases hw')
  · next slot w hmeaning =>
    rw [hmeaning] at hs
    obtain ⟨r₁, hr₁, henter⟩ := exists_of_bind_eq_ok hr'
    exact (h.settle hr₁).enter (hs _) henter
  · next slot hmeaning =>
    rw [hmeaning] at hs
    obtain ⟨r₁, hr₁, henter⟩ := exists_of_bind_eq_ok hr'
    exact (h.settle hr₁).enter (hs _) henter
  · cases hr'
  · obtain ⟨r₁, -, hend⟩ := exists_of_bind_eq_ok hr'
    cases hend
  · cases hr'

variable {switches : List (Switch σ)} (hswitches : ∀ s ∈ switches, s.meaning.Keeps P)

include hswitches in
theorem letters {w : Word} : ∀ {r : Reading σ}, r.Sound W P →
    r.letters switches w = .ok r' → r'.Sound W P := by
  induction w with
  | nil =>
    intro r h hr'
    exact Except.ok.inj hr' ▸ h
  | cons b bs ih =>
    intro r h hr'
    unfold Reading.letters at hr'
    dsimp only at hr'
    split at hr'
    · cases hr'
    · next s hfind =>
      have hs := hswitches s (List.mem_of_find?_eq_some hfind)
      split at hr'
      · exact h.switch hs hr'
      · obtain ⟨r₁, hr₁, hrest⟩ := exists_of_bind_eq_ok hr'
        exact ih (h.switch hs hr₁) hrest

include hswitches in
theorem longName (h : r.Sound W P) {w : Word} (hr' : r.longName switches w = .ok r') :
    r'.Sound W P := by
  unfold Reading.longName at hr'
  dsimp only at hr'
  split at hr'
  · cases hr'
  · next s hfind => exact h.switch (hswitches s (List.mem_of_find?_eq_some hfind)) hr'

theorem operand (h : r.Sound W P) {w : Word} (hw : W w) {otherwise : UsageError}
    (hr' : r.operand w otherwise = .ok r') : r'.Sound W P := by
  unfold Reading.operand at hr'
  split at hr'
  · cases hr'
  · next slot more hoperands =>
    obtain ⟨r₁, hr₁, heq⟩ := exists_of_bind_eq_ok hr'
    have hslot : slot.KeepsOn W P := h.operands slot (hoperands ▸ List.mem_cons_self)
    have hword : ∀ w', some w = some w' → W w' := fun w' hw' => Option.some.inj hw' ▸ hw
    obtain rfl := Except.ok.inj heq
    have hsettled := (h.settle hr₁).await hslot hword
    exact ⟨hsettled.values, hsettled.pending, fun slot' hslot' =>
      h.operands slot' (hoperands ▸ List.mem_cons_of_mem _ hslot')⟩

end Reading.Sound

namespace Grammar.Keeps

variable {g : Grammar σ} (hg : g.Keeps W P)

include hg

/-- However the words go, what is read has the property that all slots keep. -/
theorem readWords {words : List Word} (hwords : ∀ w ∈ words, W w) :
    ∀ ⦃afterHyphens : Bool⦄ ⦃r : Reading σ⦄ ⦃e : Ending σ⦄, r.Sound W P →
      g.readWords afterHyphens r words = .ok e → e.reading.Sound W P := by
  induction words with
  | nil =>
    intro afterHyphens r e h he
    rw [Grammar.readWords] at he
    exact Except.ok.inj he ▸ h
  | cons w words ih =>
    intro afterHyphens r e h he
    have hw : W w := hwords w List.mem_cons_self
    have hrest := ih fun w' hw' => hwords w' (List.mem_cons_of_mem _ hw')
    unfold Grammar.readWords at he
    split_ifs at he
    · obtain ⟨r₁, hr₁, he⟩ := exists_of_bind_eq_ok he
      exact hrest (h.operand hw hr₁) he
    · split at he
      · exact Except.ok.inj he ▸ h
      · exact hrest h he
      · obtain ⟨r₁, hr₁, he⟩ := exists_of_bind_eq_ok he
        exact hrest (h.longName hg.switches hr₁) he
      · obtain ⟨r₁, hr₁, he⟩ := exists_of_bind_eq_ok he
        exact hrest (h.letters hg.switches hr₁) he
      · next slot hawaiting _ _ _ =>
        exact hrest (h.await (h.awaiting hawaiting) fun w' hw' => Option.some.inj hw' ▸ hw) he
      · obtain ⟨r₁, hr₁, he⟩ := exists_of_bind_eq_ok he
        exact hrest (h.operand hw hr₁) he

theorem read {values : σ} (hvalues : P values) {words : List Word} (hwords : ∀ w ∈ words, W w)
    {e : Ending σ} (he : g.read values words = .ok e) : e.reading.Sound W P :=
  hg.readWords hwords ⟨hvalues, fun _ h => (by cases h), hg.operands⟩ he

end Grammar.Keeps

/-! ## Where the command stands -/

theorem Grammar.eq_of_command? {g : Grammar σ} {w : Word} {name : String}
    (h : g.command? w = some name) : name.toUTF8.data.toList = w := by
  unfold command? at h
  have hword := List.find?_some h
  exact eq_of_beq hword

/-- The reading ends at the name of the command, with the words after it. -/
theorem Grammar.exists_append_of_readWords {g : Grammar σ} {words rest : List Word} {name : String} :
    ∀ {afterHyphens : Bool} {r : Reading σ} {e : Ending σ},
      g.readWords afterHyphens r words = .ok e → e.command = some (name, rest) →
      g.command? name.toUTF8.data.toList = some name ∧
        ∃ before, words = before ++ name.toUTF8.data.toList :: rest := by
  induction words with
  | nil =>
    intro afterHyphens r e he hcommand
    rw [readWords] at he
    rw [← Except.ok.inj he] at hcommand
    cases hcommand
  | cons w words ih =>
    intro afterHyphens r e he hcommand
    have hlater {afterHyphens : Bool} {r : Reading σ}
        (he : g.readWords afterHyphens r words = .ok e) :
        g.command? name.toUTF8.data.toList = some name ∧
          ∃ before, w :: words = before ++ name.toUTF8.data.toList :: rest := by
      obtain ⟨hname, before, rfl⟩ := ih he hcommand
      exact ⟨hname, w :: before, rfl⟩
    unfold readWords at he
    split_ifs at he
    · obtain ⟨r₁, -, he⟩ := exists_of_bind_eq_ok he
      exact hlater he
    · split at he
      · next hname =>
        rw [← Except.ok.inj he] at hcommand
        obtain ⟨rfl, rfl⟩ := Prod.mk.inj (Option.some.inj hcommand)
        have hword := eq_of_command? hname
        exact ⟨by rw [hword, hname], [], by rw [hword]; rfl⟩
      · exact hlater he
      · obtain ⟨r₁, -, he⟩ := exists_of_bind_eq_ok he
        exact hlater he
      · obtain ⟨r₁, -, he⟩ := exists_of_bind_eq_ok he
        exact hlater he
      · exact hlater he
      · obtain ⟨r₁, -, he⟩ := exists_of_bind_eq_ok he
        exact hlater he

/-- A call is read up to its command, and the command from the words after its name. -/
theorem Invocation.exists_of_ofWords {words : List Word} {i : Invocation}
    (h : Invocation.ofWords words = .ok i) : ∃ before name rest,
      words = before ++ name.toUTF8.data.toList :: rest ∧
      Settings.grammar.command? name.toUTF8.data.toList = some name ∧
      readCommand name rest = .ok i.command := by
  obtain ⟨e, he, h⟩ := exists_of_bind_eq_ok h
  split at h
  · obtain ⟨r, -, h⟩ := exists_of_bind_eq_ok h
    split_ifs at h
  · next name rest hcommand =>
    obtain ⟨hname, before, hbefore⟩ := Grammar.exists_append_of_readWords he hcommand
    obtain ⟨command, hread, h⟩ := exists_of_bind_eq_ok h
    obtain ⟨r, -, h⟩ := exists_of_bind_eq_ok h
    split at h
    · cases h
    · obtain rfl := Except.ok.inj h
      exact ⟨before, name, rest, hbefore, hname, hread⟩

/-! ## Settings -/

theorem Slot.keeps_ofReader {α : Type} {name about : String} {isSet : σ → Bool}
    {read : Word → Except ValueFault α} {put : α → σ → σ}
    (h : ∀ w a, read w = .ok a → ∀ v, P v → P (put a v)) :
    (Slot.ofReader name about isSet read put).Keeps P := by
  intro w put' hput v hv
  cases hread : read w with
  | error e => simp [Slot.ofReader, hread, Except.map] at hput
  | ok a =>
    obtain rfl : put a = put' := by simpa [Slot.ofReader, hread, Except.map] using hput
    exact h w a hread v hv

theorem Slot.keeps_flag {name about : String} {isSet : σ → Bool} {put : σ → σ}
    (h : ∀ v, P v → P (put v)) : (Slot.flag name about isSet put).Keeps P := by
  intro w put' hput v hv
  cases hput
  exact h v hv

namespace Text

theorem countDigits_lt {cs : List Char} : ∀ {before n : Nat}, before < countBound →
    countDigits before cs = .ok n → n < countBound := by
  induction cs with
  | nil =>
    intro before n hbefore h
    exact Except.ok.inj h ▸ hbefore
  | cons c cs ih =>
    intro before n hbefore h
    rw [countDigits] at h
    dsimp only at h
    split_ifs at h with hdigit hlarge
    exact ih (Nat.lt_of_not_le hlarge) h

theorem count_lt {cs : List Char} {n : Nat} (h : count cs = .ok n) : n < countBound := by
  have hzero : 0 < countBound := by decide
  unfold count at h
  split at h
  · cases h
  · cases h
  · exact countDigits_lt hzero h
  · exact countDigits_lt hzero h

end Text

theorem Slot.count_le {w : Word} {n : Nat} (h : Slot.count w = .ok n) : n ≤ Json.maxNatural := by
  unfold Slot.count Slot.choice at h
  split at h
  · cases h
  · next s _ =>
    split at h
    · next m hcount =>
      obtain rfl := Except.ok.inj h
      exact Nat.le_sub_one_of_lt (Text.count_lt hcount)
    · cases h

/-- The slots of settings, all of them behind switches, keep a property together. -/
theorem Settings.keeps_grammar {P : Settings → Prop} (h : ∀ s ∈ switches, s.meaning.Keeps P) :
    grammar.Keeps (fun _ => True) P where
  switches s hs := by
    rcases List.mem_append.mp hs with hs | hs
    · exact h s hs
    · rcases List.mem_pair.mp hs with rfl | rfl <;> trivial
  operands _ hslot := absurd hslot List.not_mem_nil

/-- The settings of a call have the properties that their slots keep. -/
theorem Invocation.settings_of_ofWords {P : Settings → Prop} (hnone : P Settings.none)
    (h : ∀ s ∈ Settings.switches, s.meaning.Keeps P) {words : List Word} {i : Invocation}
    (hwords : Invocation.ofWords words = .ok i) : P i.settings := by
  obtain ⟨e, he, hwords⟩ := exists_of_bind_eq_ok hwords
  have hsound := (Settings.keeps_grammar h).read hnone (fun _ _ => trivial) he
  split at hwords
  · obtain ⟨r, -, hwords⟩ := exists_of_bind_eq_ok hwords
    split_ifs at hwords
  · obtain ⟨command, -, hwords⟩ := exists_of_bind_eq_ok hwords
    obtain ⟨r, hr, hwords⟩ := exists_of_bind_eq_ok hwords
    split at hwords
    · cases hwords
    · exact Except.ok.inj hwords ▸ (hsound.settle hr).values

/-- A block size that is set fits into 64 bits. -/
def Settings.Fits (s : Settings) : Prop := ∀ n, s.blockSize = some n → n ≤ Json.maxNatural

theorem Slot.path_ne_nil {w : Word} {p : Path} (h : Slot.path w = .ok p) : p.bytes ≠ [] := by
  unfold Slot.path at h
  split_ifs at h with hw
  obtain rfl := Except.ok.inj h
  exact hw

/-- What a call sets has been read from words: its block size fits into 64 bits, and its root is
no empty path. -/
theorem Invocation.values_of_ofWords {words : List Word} {i : Invocation}
    (h : Invocation.ofWords words = .ok i) :
    i.settings.Fits ∧ ∀ p, i.settings.root = some p → p.bytes ≠ [] := by
  refine settings_of_ofWords
    (P := fun s => s.Fits ∧ ∀ p, s.root = some p → p.bytes ≠ [])
    ⟨fun _ h => (by cases h), fun _ h => (by cases h)⟩ (fun s hs => ?_) h
  have hother {α : Type} {name about : String} {isSet : Settings → Bool}
      {read : Word → Except ValueFault α} {put : α → Settings → Settings}
      (h : ∀ a v, (put a v).blockSize = v.blockSize ∧ (put a v).root = v.root) :
      (Slot.ofReader name about isSet read put).Keeps
        fun s => s.Fits ∧ ∀ p, s.root = some p → p.bytes ≠ [] :=
    Slot.keeps_ofReader fun w a _ v hv =>
      ⟨fun n hn => hv.1 n ((h a v).1 ▸ hn), fun p hp => hv.2 p ((h a v).2 ▸ hp)⟩
  simp only [Settings.switches, List.mem_cons, List.not_mem_nil, or_false] at hs
  rcases hs with rfl | rfl | rfl | rfl | rfl | rfl | rfl | rfl
  · exact hother fun _ _ => ⟨rfl, rfl⟩
  · exact Slot.keeps_flag fun _ hv => hv
  · refine Slot.keeps_ofReader fun w p hp v hv => ⟨hv.1, fun p' hp' => ?_⟩
    obtain rfl := Option.some.inj hp'
    exact Slot.path_ne_nil hp
  · exact hother fun _ _ => ⟨rfl, rfl⟩
  · exact hother fun _ _ => ⟨rfl, rfl⟩
  · refine Slot.keeps_ofReader fun w m hm v hv => ⟨fun n hn => ?_, hv.2⟩
    obtain rfl := Option.some.inj hn
    exact Slot.count_le hm
  · exact Slot.keeps_flag fun _ hv => hv
  · exact hother fun _ _ => ⟨rfl, rfl⟩

theorem Invocation.fits_ofWords {words : List Word} {i : Invocation}
    (h : Invocation.ofWords words = .ok i) : i.settings.Fits := (values_of_ofWords h).1

/-! ## Keys -/

/-- The key of a command. -/
def Command.key? : Command → Option String
  | put key _ => some key
  | get key _ => some key
  | has key => some key
  | delete key => some key
  | path key => some key
  | clear => none
  | config _ => none

namespace Command

/-- The key that has been read is one of some words. -/
def Draft.KeyIn (words : List Word) (d : Draft) : Prop :=
  ∀ key, d.key = some key → key.toUTF8.data.toList ∈ words

/-- The text of a word has the bytes of the word. -/
theorem Slot.toUTF8_of_text {w : Word} {s : String} (h : Slot.text w = .ok s) :
    s.toUTF8.data.toList = w := by
  unfold Slot.text at h
  split at h
  · next s' hs =>
    obtain rfl := Except.ok.inj h
    rw [Text.toUTF8_of_fromUTF8? hs]
  · cases h

theorem keepsOn_keySlot (words : List Word) :
    keySlot.KeepsOn (· ∈ words) (Draft.KeyIn words) := by
  intro w put hw hput d _ key hd
  cases htext : Slot.text w with
  | error e => simp [keySlot, Slot.ofReader, htext, Except.map] at hput
  | ok s =>
    obtain rfl : (fun d : Draft => { d with key := some s }) = put := by
      simpa [keySlot, Slot.ofReader, htext, Except.map] using hput
    obtain rfl := Option.some.inj hd
    rw [Slot.toUTF8_of_text htext]
    exact hw

/-- No other slot sets a key. -/
theorem Form.keeps_grammar {f : Form} (hf : f ∈ forms) (words : List Word) :
    f.grammar.Keeps (· ∈ words) (Draft.KeyIn words) := by
  have hkey := keepsOn_keySlot words
  have hfile : fileSlot.Keeps (Draft.KeyIn words) := Slot.keeps_ofReader fun _ _ _ _ hd => hd
  have houtput : outputSlot.Keeps (Draft.KeyIn words) := Slot.keeps_ofReader fun _ _ _ _ hd => hd
  have hsave : saveSlot.Keeps (Draft.KeyIn words) := Slot.keeps_flag fun _ hd => hd
  simp only [forms, List.mem_cons, List.not_mem_nil, or_false] at hf
  constructor
  · intro s hs
    rcases List.mem_append.mp hs with hs | hs
    · rcases hf with rfl | rfl | rfl | rfl | rfl | rfl | rfl
      · cases hs
      · rw [List.mem_singleton.mp hs]
        exact houtput
      · cases hs
      · cases hs
      · cases hs
      · cases hs
      · rw [List.mem_singleton.mp hs]
        exact hsave
    · rw [List.mem_singleton.mp hs]
      trivial
  · intro slot hslot
    rcases hf with rfl | rfl | rfl | rfl | rfl | rfl | rfl
    · rcases List.mem_pair.mp hslot with rfl | rfl
      · exact hkey
      · exact hfile.on _
    · exact List.mem_singleton.mp hslot ▸ hkey
    · exact List.mem_singleton.mp hslot ▸ hkey
    · exact List.mem_singleton.mp hslot ▸ hkey
    · cases hslot
    · exact List.mem_singleton.mp hslot ▸ hkey
    · cases hslot

/-- A command that has a key has read it. -/
theorem Form.key_of_finish {f : Form} (hf : f ∈ forms) {d : Draft} {command : Command}
    (h : f.finish d = some command) {key : String} (hkey : command.key? = some key) :
    d.key = some key := by
  simp only [forms, List.mem_cons, List.not_mem_nil, or_false] at hf
  have hmap {make : String → Command} (hmake : ∀ k, (make k).key? = some k)
      (h : d.key.map make = some command) : d.key = some key := by
    obtain ⟨k, hk, rfl⟩ := Option.map_eq_some_iff.mp h
    rw [hk, ← hmake k, hkey]
  rcases hf with rfl | rfl | rfl | rfl | rfl | rfl | rfl
  · exact hmap (fun _ => rfl) h
  · exact hmap (fun _ => rfl) h
  · exact hmap (fun _ => rfl) h
  · exact hmap (fun _ => rfl) h
  · cases h
    cases hkey
  · exact hmap (fun _ => rfl) h
  · cases h
    cases hkey

theorem Form.key_mem_of_read {f : Form} (hf : f ∈ forms) {words : List Word} {command : Command}
    (h : f.read words = .ok command) {key : String} (hkey : command.key? = some key) :
    key.toUTF8.data.toList ∈ words := by
  obtain ⟨e, he, h⟩ := exists_of_bind_eq_ok h
  obtain ⟨r, hr, h⟩ := exists_of_bind_eq_ok h
  have hnone : Draft.KeyIn words ⟨none, none, none, false⟩ := fun key hkey => by cases hkey
  have hsound := (Form.keeps_grammar hf words).read hnone (fun w hw => hw) he
  split at h
  · next command' hfinish =>
    obtain rfl := Except.ok.inj h
    exact (hsound.settle hr).values key (Form.key_of_finish hf hfinish hkey)
  · cases h

end Command

/-- The key of a call is one of its words, byte for byte. -/
theorem Invocation.key_mem_words {words : List Word} {i : Invocation}
    (h : Invocation.ofWords words = .ok i) {key : String} (hkey : i.command.key? = some key) :
    key.toUTF8.data.toList ∈ words := by
  obtain ⟨before, name, rest, rfl, -, hread⟩ := exists_of_ofWords h
  unfold readCommand at hread
  split at hread
  · next f hf =>
    have hmem := Command.Form.key_mem_of_read (List.mem_of_find?_eq_some hf) hread hkey
    exact List.mem_append_right _ (List.mem_cons_of_mem _ hmem)
  · cases hread

end BlobStore
