import BlobStore.Command.Grammar

/-!
# Help

The help on a program or a command is a table of what its grammar holds.
-/

namespace BlobStore

/-- A name and what is said about it. -/
structure HelpRow where
  name : String
  about : String

namespace HelpRow

/-- Some rows under a heading, with what is said about each in one column. -/
def table (heading : String) (rows : List HelpRow) : String :=
  let width := rows.foldl (fun n r => max n r.name.length) 0
  let line (r : HelpRow) : String :=
    "  " ++ r.name ++ String.ofList (List.replicate (width - r.name.length) ' ') ++ "  " ++ r.about ++ "\n"
  if rows.isEmpty then "" else "\n" ++ heading ++ ":\n" ++ String.join (rows.map line)

end HelpRow

/-- The row of a switch. -/
def Switch.helpRow {σ : Type} (s : Switch σ) : HelpRow :=
  let short := match s.short with
    | some c => String.ofList ['-', c, ',', ' ']
    | none => "    "
  match s.meaning with
  | .ends about _ => ⟨short ++ "--" ++ s.long, about⟩
  | .flag slot => ⟨short ++ slot.name, slot.about⟩
  | .value slot => ⟨short ++ slot.name, slot.about⟩

/-- Whether a switch has a say in what is done. -/
def Switch.isOption {σ : Type} (s : Switch σ) : Bool :=
  match s.meaning with
  | .ends _ _ => false
  | _ => true

/-- The help on a program or a command of some name. -/
def Grammar.help {σ : Type} (g : Grammar σ) (name about : String) (commands : List HelpRow) : String :=
  let usage := [name] ++ (if g.switches.any Switch.isOption then ["[OPTIONS]"] else []) ++
    g.operands.map Slot.name ++ (if commands.isEmpty then [] else ["<COMMAND>"])
  about ++ "\n\nUsage: " ++ String.intercalate " " usage ++ "\n" ++
    HelpRow.table "Commands" commands ++
    HelpRow.table "Arguments" (g.operands.map fun slot => ⟨slot.name, slot.about⟩) ++
    HelpRow.table "Options" (g.switches.map Switch.helpRow)

end BlobStore
