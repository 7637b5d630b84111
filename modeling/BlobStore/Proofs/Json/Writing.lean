import BlobStore.Json.Record
import BlobStore.Proofs.Json.Grammar
import BlobStore.Proofs.Text.Pieces

/-!
# What is written

Both ways to write a record write the same object (`spelled_compact`, `spelled_indented`), in
which every text stands for itself, whatever characters it holds.  Control characters are escaped,
so that a record that is written on one line stays on it (`printable_compact`).
-/

namespace BlobStore.Json

variable {gap : List Char}

/-- What the value of a field stands for. -/
def Scalar.datum : Scalar → Datum
  | text s => .text (units s)
  | natural n => .number (Nat.toDigits 10 n)
  | boolean b => .boolean b

/-- What a record stands for. -/
def Record.datum (r : Record) : Datum :=
  .object (r.map fun (name, value) => (units name, value.datum))

/-! ## Values -/

theorem quoted_escaped (s : String) : Quoted (s.toList.flatMap escapedChar) (units s) :=
  quoted_of_spells (spells_flatMap_escapedChar _)

theorem literal_toDigits (n : Nat) : Literal (Nat.toDigits 10 n) := by
  have h := Literal.mk (Or.inl rfl) (numeral_toDigits n) .none .none
  rwa [List.nil_append, List.append_nil, List.append_nil] at h

theorem spelled_write (v : Scalar) : Spelled (.value v.datum) v.write := by
  cases v with
  | text s => exact .text (quoted_escaped s)
  | natural n => exact .number (literal_toDigits n)
  | boolean b =>
    cases b with
    | true => exact .isTrue
    | false => exact .isFalse

/-! ## Records -/

/-- Fields that are written with commas between them are the members of an object. -/
theorem spelled_intercalate {indent gap sep close : List Char} (hindent : Gap indent)
    (hgap : Gap gap) (hsep : Lead false sep) (hclose : Gap close) {r : Record} (hr : r ≠ []) :
    ∀ {isFirst : Bool} {lead : List Char}, Lead isFirst lead →
      Spelled (.members isFirst (r.map fun (name, value) => (units name, value.datum)))
        (lead ++ sep.intercalate (r.map fun (name, value) =>
          indent ++ escaped name.toList ++ ':' :: gap ++ value.write) ++ close) := by
  induction r with
  | nil => exact absurd rfl hr
  | cons f r ih =>
    obtain ⟨name, value⟩ := f
    intro isFirst lead hlead
    have hmember {more : List Char} {ms : List (List Nat × Datum)}
        (hmore : Spelled (.members false ms) more) :=
      Spelled.member (hlead.append hindent) (quoted_escaped name) gap_nil hgap (spelled_write value) hmore
    cases r with
    | nil =>
      show Spelled (.members isFirst [(units name, value.datum)]) _
      convert hmember (.noMember hclose) using 1
      simp [escaped]
    | cons f r =>
      rw [List.map_cons]
      convert hmember (ih (by simp) hsep) using 1
      simp [escaped, List.intercalate_cons_cons]

theorem spelled_compact (r : Record) : Spelled (.value r.datum) r.compact.toList := by
  rw [Record.compact, String.toList_ofList, Record.datum]
  refine .object ?_
  by_cases hr : r = []
  · subst hr
    exact .noMember gap_nil
  · have hsep : Lead false [','] := ⟨[], [], rfl, gap_nil, gap_nil⟩
    have hlead : Lead true [] := gap_nil
    simpa using spelled_intercalate gap_nil gap_nil hsep gap_nil hr hlead

theorem spelled_indented (r : Record) : Spelled (.value r.datum) r.indented.toList := by
  have hindent : Gap [' ', ' '] := by simp [Gap, isBlank]
  have hgap : Gap [' '] := by simp [Gap, isBlank]
  have hline : Gap ['\n'] := by simp [Gap, isBlank]
  have hsep : Lead false [',', '\n'] := ⟨[], ['\n'], rfl, gap_nil, hline⟩
  have hlead : Lead true ['\n'] := hline
  cases r with
  | nil => exact .object (.noMember gap_nil)
  | cons f r =>
    have hobject := Spelled.object
      (spelled_intercalate hindent hgap hsep hline (List.cons_ne_nil f r) hlead)
    rw [Record.indented, String.toList_ofList, Record.datum]
    · convert hobject using 1
      simp
    · exact List.cons_ne_nil f r

theorem denotes_of_spelled {text : String} {v : Datum} (h : Spelled (.value v) text.toList) :
    Denotes text v :=
  ⟨[], text.toList, [], by simp, gap_nil, gap_nil, h⟩

/-- A line break may follow. -/
theorem denotes_line {line : String} {v : Datum} (h : Spelled (.value v) line.toList) :
    Denotes (line ++ "\n") v :=
  ⟨[], line.toList, ['\n'], by rw [String.toList_append]; rfl, gap_nil,
    by simp [Gap, isBlank], h⟩

/-! ## Lines -/

/-- The characters from the blank on are those that are no control characters of a text. -/
def Printable (cs : List Char) : Prop := ∀ c ∈ cs, 0x20 ≤ c.toNat

instance (cs : List Char) : Decidable (Printable cs) :=
  decidable_of_iff (cs.all fun c => 0x20 ≤ c.toNat) (by simp [Printable])

theorem Printable.append {cs cs' : List Char} (h : Printable cs) (h' : Printable cs') :
    Printable (cs ++ cs') := by
  intro c hc
  rcases List.mem_append.mp hc with hc | hc
  · exact h c hc
  · exact h' c hc

theorem printable_escapedChar (c : Char) : Printable (escapedChar c) := by
  have hshort {e : Char} (he : 0x20 ≤ e.toNat) : Printable ['\\', e] := by
    intro d hd
    rcases List.mem_pair.mp hd with rfl | rfl
    · decide
    · exact he
  have hpair : ∀ n : Fin 0x20,
      Printable (['\\', 'u', '0', '0'] ++ Text.Hex.pair (UInt8.ofNat n)) := by decide
  unfold escapedChar
  split_ifs with h₁ h₂ h₃ h₄ h₅ h₆ h₇ hcode
  · exact hshort (by decide)
  · exact hshort (by decide)
  · exact hshort (by decide)
  · exact hshort (by decide)
  · exact hshort (by decide)
  · exact hshort (by decide)
  · exact hshort (by decide)
  · exact hpair ⟨c.toNat, hcode⟩
  · intro d hd
    rw [List.mem_singleton.mp hd]
    exact Nat.le_of_not_lt hcode

theorem printable_escaped (s : List Char) : Printable (escaped s) := by
  intro c hc
  rw [escaped, List.cons_append, List.mem_cons, List.mem_append, List.mem_singleton] at hc
  rcases hc with rfl | hc | rfl
  · decide
  · obtain ⟨d, -, hd⟩ := List.mem_flatMap.mp hc
    exact printable_escapedChar d c hd
  · decide

theorem printable_write (v : Scalar) : Printable v.write := by
  cases v with
  | text s => exact printable_escaped s.toList
  | natural n =>
    intro c hc
    have hdigit : c.isDigit = true := Nat.isDigit_of_mem_toDigits (by decide) (by decide) hc
    rw [Char.isDigit, Bool.and_eq_true, decide_eq_true_eq] at hdigit
    have hle : '0'.toNat ≤ c.toNat := hdigit.1
    exact Nat.le_trans (by decide) hle
  | boolean b => cases b <;> decide

/-- A record that is written on one line holds no control character, and so no line break. -/
theorem printable_compact (r : Record) : Printable r.compact.toList := by
  rw [Record.compact, String.toList_ofList]
  intro c hc
  rw [List.cons_append, List.mem_cons, List.mem_append, List.mem_singleton] at hc
  rcases hc with rfl | hc | rfl
  · decide
  · rcases Text.mem_intercalate hc with rfl | ⟨field, hfield, hc⟩
    · decide
    · obtain ⟨⟨name, value⟩, -, rfl⟩ := List.mem_map.mp hfield
      have hcolon : Printable [':'] := by decide
      have hprintable := (printable_escaped name.toList).append
        (hcolon.append (printable_write value))
      exact hprintable c hc
  · decide

end BlobStore.Json
