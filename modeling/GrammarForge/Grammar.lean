import GrammarForge.Rule.Alias
import GrammarForge.Rule.Normal
import GrammarForge.Rule.Printer
import GrammarForge.Token.Stream

/-!
Grammars: rules in which every reference is defined.
-/

namespace GrammarForge

namespace Dictionary

/-- The values of the terminals and literals, in the order of their first occurrence. -/
def terminals (d : Dictionary) : List String := (d.symbols.filterMap Symbol.token?).eraseDups

def references (d : Dictionary) : List String :=
  (d.symbols.filterMap Symbol.reference?).eraseDups

def missing (d : Dictionary) : List String := d.references.filter (! d.contains ·)

def display (d : Dictionary) : String :=
  String.join (d.rules.map fun r => r.display ++ "\n")

/-- The rules that a text declares. Faults in the text are passed over. -/
def ofText (text : String) : Except Problem Dictionary := do
  ofTokens (← tokens .lenient text)

end Dictionary

structure Grammar where
  rules : Dictionary
  closed : rules.missing = []

namespace Grammar

def ofRules (d : Dictionary) : Except Problem Grammar :=
  if h : d.missing = [] then .ok ⟨d, h⟩ else .error (.missingDefinitions d.missing)

/-- Flatten the rules, then remove the aliases. -/
def transform (d : Dictionary) : Except Problem Dictionary := do
  let flat ← (d.normalize Origin.firstCounter).1
  match flat.reduce with
  | (_, some problem) => .error problem
  | (reduced, none) => .ok reduced

def ofTextAsWritten (text : String) : Except Problem Grammar := do
  ofRules (← Dictionary.ofText text)

/-- The grammar in a text in flat form and without aliases. -/
def ofText (text : String) : Except Problem Grammar := do
  ofRules (← transform (← Dictionary.ofText text))

def terminals (g : Grammar) : List String := g.rules.terminals

def references (g : Grammar) : List String := g.rules.references

def display (g : Grammar) : String := g.rules.display

/-- The rules as text, one alternative a line. -/
def displayLines (g : Grammar) : String :=
  String.join ((g.rules.rules.flatMap Rule.displayLines).map (· ++ "\n"))

/-- Equality without regard to the order of the rules. -/
def equiv (g h : Grammar) : Bool := g.rules.equiv h.rules

end Grammar
end GrammarForge
