import BlobStore.Proofs.Command.Arguments
import BlobStore.Proofs.Json.Numerals

/-!
# Settings written as words

Settings can be written as words, one word for each switch, with its value behind an equals sign
(`Settings.words`).  In front of a command they are read as the same settings
(`Invocation.ofWords_words`).  A value that is attached to its switch is entered at once, so nothing
is pending between two words, and each word is passed by itself (`Grammar.Passes`).
-/

namespace BlobStore

/-! ## Values -/

namespace Text

/-- Digits are counted if their value is below the bound. -/
theorem countDigits_of_isDigit {cs : List Char} (hcs : ∀ c ∈ cs, c.isDigit = true) :
    ∀ {before : Nat}, Nat.ofDigitChars 10 cs before < countBound →
      countDigits before cs = .ok (Nat.ofDigitChars 10 cs before) := by
  induction cs with
  | nil => exact fun _ => rfl
  | cons c cs ih =>
    intro before hbound
    rw [Nat.ofDigitChars_cons] at hbound
    have hhead : ¬ countBound ≤ 10 * before + (c.toNat - '0'.toNat) :=
      Nat.not_le_of_lt (Nat.lt_of_le_of_lt (Json.le_ofDigitChars cs _) hbound)
    rw [countDigits, hcs c List.mem_cons_self, Nat.ofDigitChars_cons]
    show (if countBound ≤ 10 * before + (c.toNat - '0'.toNat) then _ else _) = _
    rw [if_neg hhead]
    exact ih (fun c' hc' => hcs c' (List.mem_cons_of_mem _ hc')) hbound

theorem count_toDigits {n : Nat} (hn : n < countBound) : count (Nat.toDigits 10 n) = .ok n := by
  have hdigit := (Json.numeral_toDigits n).isDigit
  have hvalue := (Json.numeral_toDigits n).value
  have hcount := countDigits_of_isDigit hdigit (hvalue.trans_lt hn)
  rw [hvalue] at hcount
  unfold count
  split
  · next hnil => exact absurd hnil (List.ne_nil_of_length_pos Nat.length_toDigits_pos)
  · next hplus => exact absurd (hdigit '+' (hplus ▸ List.mem_cons_self)) (by decide)
  · next hplus => exact absurd (hdigit '+' (hplus ▸ List.mem_cons_self)) (by decide)
  · exact hcount

end Text

namespace Slot

theorem text_toUTF8 (s : String) : text s.toUTF8.data.toList = .ok s := by
  have hbytes : String.fromUTF8? ⟨s.toUTF8.data⟩ = some s := Text.fromUTF8?_toUTF8 s
  rw [text, Array.toArray_toList, hbytes]

theorem choice_toUTF8 {α ε : Type} {read : String → Except ε α} {reason : ε → String} {s : String}
    {a : α} (h : read s = .ok a) : choice read reason s.toUTF8.data.toList = .ok a := by
  rw [choice, text_toUTF8]
  dsimp only
  rw [h]

theorem count_toDigits {n : Nat} (hn : n ≤ Json.maxNatural) :
    count (String.ofList (Nat.toDigits 10 n)).toUTF8.data.toList = .ok n := by
  refine choice_toUTF8 ?_
  rw [String.toList_ofList]
  exact Text.count_toDigits (Nat.lt_of_le_of_lt hn (by decide))

end Slot

/-! ## Words that are passed -/

/-- The word that gives a switch of some name without a value. -/
def flagWord (name : String) : Word := 0x2D :: 0x2D :: name.toUTF8.data.toList

/-- The word that gives a switch of some name with a value. -/
def valueWord (name : String) (value : Word) : Word :=
  0x2D :: 0x2D :: (name.toUTF8.data.toList ++ Reading.equals :: value)

section passing

variable {σ : Type} {g : Grammar σ} {v v' v'' : σ}

/-- The reading of words changes the values from `v` to `v'`, if nothing is pending before, and
leaves nothing pending. -/
def Grammar.Passes (g : Grammar σ) (words : List Word) (v v' : σ) : Prop :=
  ∀ given operands rest, ∃ given',
    g.readWords false ⟨v, given, none, operands⟩ (words ++ rest) =
      g.readWords false ⟨v', given', none, operands⟩ rest

namespace Grammar.Passes

theorem nil : g.Passes [] v v := fun given _ _ => ⟨given, rfl⟩

theorem append {words words' : List Word} (h : g.Passes words v v')
    (h' : g.Passes words' v' v'') : g.Passes (words ++ words') v v'' := by
  intro given operands rest
  obtain ⟨given₁, h₁⟩ := h given operands (words' ++ rest)
  obtain ⟨given₂, h₂⟩ := h' given₁ operands rest
  exact ⟨given₂, by rw [List.append_assoc, h₁, h₂]⟩

variable {name : String} {short : Option Char} {slot : Slot σ} {put : σ → σ}

/-- A word that names a switch is passed if the slot of the switch takes what it gives. -/
theorem enter {w value : Word} (hcommand : g.command? (0x2D :: 0x2D :: w) = none) (hw : w ≠ [])
    (hswitch : ∀ r : Reading σ, r.pending = none →
      r.longName g.switches w = r.enter slot value)
    (hset : slot.isSet v = false) (henter : slot.enter value = .ok put) :
    g.Passes [0x2D :: 0x2D :: w] v (put v) := by
  intro given operands rest
  refine ⟨slot.name :: given, ?_⟩
  obtain ⟨b, bs, rfl⟩ := List.exists_cons_of_ne_nil hw
  have hread : (⟨v, given, none, operands⟩ : Reading σ).longName g.switches (b :: bs) =
      .ok ⟨put v, slot.name :: given, none, operands⟩ := by
    rw [hswitch _ rfl, Reading.enter, hset, if_neg Bool.false_ne_true, henter]
  rw [List.singleton_append]
  conv_lhs => unfold readWords
  rw [if_neg Bool.false_ne_true, hcommand]
  show ((⟨v, given, none, operands⟩ : Reading σ).longName g.switches (b :: bs) >>=
    fun r => g.readWords false r rest) = _
  rw [hread]
  rfl

variable (hcommand : ∀ w, g.command? (0x2D :: w) = none)
  (hequals : Reading.equals ∉ name.toUTF8.data.toList)

theorem ne_equals {w : Word} (hequals : Reading.equals ∉ w) :
    ∀ b ∈ w, (b != Reading.equals) = true := by
  intro b hb
  rw [bne_iff_ne]
  rintro rfl
  exact hequals hb

include hcommand hequals

theorem value {value : Word}
    (hfind : g.switches.find? (fun s => s.long.toUTF8.data.toList == name.toUTF8.data.toList) =
      some ⟨name, short, .value slot⟩)
    (hset : slot.isSet v = false) (henter : slot.enter value = .ok put) :
    g.Passes [valueWord name value] v (put v) := by
  refine enter (hcommand _) (by simp) (fun r hr => ?_) hset henter
  have htake : (name.toUTF8.data.toList ++ Reading.equals :: value).takeWhile
      (· != Reading.equals) = name.toUTF8.data.toList := by
    rw [List.takeWhile_append_of_pos (ne_equals hequals)]
    simp
  have hdrop : (name.toUTF8.data.toList ++ Reading.equals :: value).dropWhile
      (· != Reading.equals) = Reading.equals :: value := by
    rw [List.dropWhile_append_of_pos (ne_equals hequals)]
    simp
  rw [Reading.longName, htake, hdrop, hfind]
  show (r.settle >>= fun r => r.enter slot value) = _
  rw [Reading.settle, hr]
  rfl

theorem flag (hne : name.toUTF8.data.toList ≠ [])
    (hfind : g.switches.find? (fun s => s.long.toUTF8.data.toList == name.toUTF8.data.toList) =
      some ⟨name, short, .flag slot⟩)
    (hset : slot.isSet v = false) (henter : slot.enter [] = .ok put) :
    g.Passes [flagWord name] v (put v) := by
  refine enter (hcommand _) hne (fun r hr => ?_) hset henter
  rw [Reading.longName, List.takeWhile_eq_self_iff.mpr (ne_equals hequals),
    List.dropWhile_eq_nil_iff.mpr (ne_equals hequals), hfind]
  show (r.settle >>= fun r => r.enter slot []) = _
  rw [Reading.settle, hr]
  rfl

end Grammar.Passes

end passing

/-! ## Settings -/

theorem Scheme.named_name (k : Scheme) : named k.name = .ok k := by
  have hname : ofName? k.name = some k := by cases k <;> decide +kernel
  rw [named, hname]

theorem Digest.Algorithm.named_name (a : Algorithm) : Algorithm.named a.name = .ok a := by
  have hname : Algorithm.ofName? a.name = some a := by cases a <;> decide +kernel
  rw [Algorithm.named, hname]

/-- The name of a format. -/
def Format.name : Format → String
  | json => "json"
  | text => "text"

theorem Format.oneOf_name (f : Format) :
    Slot.oneOf [("json", json), ("text", text)] f.name.toUTF8.data.toList = .ok f := by
  cases f <;> rfl

namespace Settings

/-- Settings that words can give: no path is empty, the block size fits into 64 bits, and a
configuration file is not named and ignored at once. -/
structure Sayable (s : Settings) : Prop where
  configFile : ∀ p, s.configFile = some p → p.bytes ≠ []
  root : ∀ p, s.root = some p → p.bytes ≠ []
  fits : s.Fits
  consistent : s.noConfigFile = true → s.configFile = .none

/-- The words that give settings. -/
def words (s : Settings) : List Word :=
  s.configFile.toList.map (fun p => valueWord "config" p.bytes) ++
  (if s.noConfigFile then [flagWord "no-config"] else []) ++
  s.root.toList.map (fun p => valueWord "root" p.bytes) ++
  s.scheme.toList.map (fun k => valueWord "transform" k.name.toUTF8.data.toList) ++
  s.algorithm.toList.map (fun a => valueWord "hash" a.name.toUTF8.data.toList) ++
  s.blockSize.toList.map (fun n =>
    valueWord "block-size" (String.ofList (Nat.toDigits 10 n)).toUTF8.data.toList) ++
  (if s.atomicWrites then [flagWord "atomic"] else []) ++
  s.format.toList.map (fun f => valueWord "format" f.name.toUTF8.data.toList)

/-- No command begins with a hyphen. -/
theorem command?_hyphen (w : Word) : grammar.command? (0x2D :: w) = Option.none := by
  have hheads : ∀ c ∈ grammar.commands, c.toUTF8.data.toList.head? ≠ some 0x2D := by
    decide +kernel
  refine List.find?_eq_none.mpr fun c hc => ?_
  rw [beq_iff_eq]
  intro h
  exact hheads c hc (by rw [h]; rfl)

section passing

variable (name : String)

theorem passes_value {α : Type} {short : Option Char} {slotName about : String}
    {isSet : Settings → Bool} {read : Word → Except ValueFault α}
    {put : α → Settings → Settings} {word : α → Word} (o : Option α) (v v' : Settings)
    (hfind : grammar.switches.find?
        (fun s => s.long.toUTF8.data.toList == name.toUTF8.data.toList) =
      some ⟨name, short, .value (.ofReader slotName about isSet read put)⟩)
    (hequals : Reading.equals ∉ name.toUTF8.data.toList) (hset : isSet v = false)
    (hread : ∀ a, o = some a → read (word a) = .ok a) (hv : o.elim v (put · v) = v') :
    grammar.Passes (o.toList.map fun a => valueWord name (word a)) v v' := by
  subst hv
  cases o with
  | none => exact .nil
  | some a =>
    refine .value command?_hyphen hequals hfind hset ?_
    show (read (word a)).map put = _
    rw [hread a rfl]
    rfl

theorem passes_flag {short : Option Char} {slotName about : String} {isSet : Settings → Bool}
    {put : Settings → Settings} (b : Bool) (v v' : Settings)
    (hfind : grammar.switches.find?
        (fun s => s.long.toUTF8.data.toList == name.toUTF8.data.toList) =
      some ⟨name, short, .flag (.flag slotName about isSet put)⟩)
    (hequals : Reading.equals ∉ name.toUTF8.data.toList) (hne : name.toUTF8.data.toList ≠ [])
    (hset : isSet v = false) (hv : (bif b then put v else v) = v') :
    grammar.Passes (if b then [flagWord name] else []) v v' := by
  subst hv
  cases b with
  | false => exact .nil
  | true =>
    show grammar.Passes [flagWord name] v (put v)
    exact .flag command?_hyphen hequals hne hfind hset rfl

end passing

theorem path_of_ne_nil {p : Path} (h : p.bytes ≠ []) : Slot.path p.bytes = .ok p := if_neg h

/-- In the order of their words the settings are entered one after the other. -/
theorem passes_words {s : Settings} (hs : s.Sayable) : grammar.Passes s.words none s := by
  -- the words up to each setting lead from no settings to those up to it
  obtain ⟨p, n, root, k, a, size, b, f⟩ := s
  have hconfigFile := passes_value "config" p none
    ⟨p, false, .none, .none, .none, .none, false, .none⟩ rfl (by decide +kernel) rfl
    (fun p hp => path_of_ne_nil (hs.configFile p hp)) (by cases p <;> rfl)
  have hnoConfigFile := hconfigFile.append <| passes_flag "no-config" n _
    ⟨p, n, .none, .none, .none, .none, false, .none⟩ rfl (by decide +kernel) (by decide +kernel) rfl
    (by cases n <;> rfl)
  have hroot := hnoConfigFile.append <| passes_value "root" root _
    ⟨p, n, root, .none, .none, .none, false, .none⟩ rfl (by decide +kernel) rfl
    (fun p hp => path_of_ne_nil (hs.root p hp)) (by cases root <;> rfl)
  have hscheme := hroot.append <| passes_value "transform" k _
    ⟨p, n, root, k, .none, .none, false, .none⟩ rfl (by decide +kernel) rfl
    (fun k _ => Slot.choice_toUTF8 k.named_name) (by cases k <;> rfl)
  have halgorithm := hscheme.append <| passes_value "hash" a _
    ⟨p, n, root, k, a, .none, false, .none⟩ rfl (by decide +kernel) rfl
    (fun a _ => Slot.choice_toUTF8 a.named_name) (by cases a <;> rfl)
  have hblockSize := halgorithm.append <| passes_value "block-size" size _
    ⟨p, n, root, k, a, size, false, .none⟩ rfl (by decide +kernel) rfl
    (fun m hm => Slot.count_toDigits (hs.fits m hm)) (by cases size <;> rfl)
  have hatomic := hblockSize.append <| passes_flag "atomic" b _
    ⟨p, n, root, k, a, size, b, .none⟩ rfl (by decide +kernel) (by decide +kernel) rfl
    (by cases b <;> rfl)
  exact hatomic.append <| passes_value "format" f _
    ⟨p, n, root, k, a, size, b, f⟩ rfl (by decide +kernel) rfl
    (fun f _ => f.oneOf_name) (by cases f <;> rfl)

end Settings

/-! ## Calls -/

/-- What words give does not depend on how they give it: settings are written in front of the
command in one way for all. -/
theorem Invocation.ofWords_words {s : Settings} (hs : s.Sayable) {name : String}
    {rest : List Word} {command : Command}
    (hname : Settings.grammar.command? name.toUTF8.data.toList = some name)
    (hread : readCommand name rest = .ok command) :
    ofWords (s.words ++ name.toUTF8.data.toList :: rest) = .ok ⟨s, command⟩ := by
  obtain ⟨given, hpasses⟩ := Settings.passes_words hs [] []
    (name.toUTF8.data.toList :: rest)
  have hending : Settings.grammar.read Settings.none (s.words ++ name.toUTF8.data.toList :: rest) =
      .ok ⟨⟨s, given, none, []⟩, some (name, rest)⟩ := by
    refine hpasses.trans ?_
    unfold Grammar.readWords
    rw [if_neg Bool.false_ne_true, hname]
    rfl
  have hexclusion : s.exclusion? given = none := by
    rw [Settings.exclusion?, if_neg]
    rw [Bool.and_eq_true, Option.isSome_iff_exists]
    rintro ⟨huse, p, hp⟩
    cases (hs.consistent huse).symm.trans hp
  rw [ofWords, hending]
  dsimp only [bind, Except.bind]
  rw [hread]
  dsimp only [Reading.settle]
  rw [hexclusion]
  rfl

end BlobStore
