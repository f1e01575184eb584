import GrammarForge.Grammar
import GrammarForge.Text.Column
import GrammarForge.Vocabulary

/-!
A grammar with its start symbols and token names: what a parser generator needs to know.
-/

namespace GrammarForge

structure Description where
  grammar : Grammar
  starts : List String
  starts_defined : ∀ s ∈ starts, grammar.rules.contains s

namespace Description

/-- Every start symbol has to be a rule. The first one that is not is reported. -/
def of (g : Grammar) (starts : List String) : Except Problem Description :=
  match h : starts.find? (! g.rules.contains ·) with
  | some name => .error (.unknownStartSymbol name)
  | none => .ok ⟨g, starts, by simpa using h⟩

/-- The terminals with their token names, in the order of first occurrence. -/
def names (d : Description) : List (String × String) := nameTerminals 0 d.grammar.terminals

def vocabulary (d : Description) : Vocabulary := .ofTerminals d.grammar.terminals

def reportLine (v : Vocabulary) (terminal name : String) : String :=
  let tag := ((v.tag? name).map toString).getD "-"
  let row := Text.padRight 12 terminal ++ " " ++ Text.padRight 16 name ++ " " ++ Text.padLeft 4 tag
  match v.type? name with
  | some type => row ++ " " ++ type
  | none => row

def report (d : Description) : List String :=
  let v := d.vocabulary
  d.names.map fun (terminal, name) => reportLine v terminal name

end Description
end GrammarForge
