import GrammarForge.Rule.Basic

/-!
The written form of rules.
-/

namespace GrammarForge

namespace Repeat

def display : Repeat → String
  | .once => ""
  | .star => "*"
  | .plus => "+"

end Repeat

/-- A quoted text. Double quotes are used only around a text that holds a single quote. -/
def displayLiteral (value : String) : String :=
  if value.toList.contains '\x27' then "\"" ++ value ++ "\"" else "'" ++ value ++ "'"

def displayGroup (optional implicit : Bool) (alternatives : List String) : String :=
  let body := " | ".intercalate alternatives
  if implicit then body
  else if optional then "[" ++ body ++ "]"
  else "(" ++ body ++ ")"

mutual

def Symbol.display : Symbol → String
  | .terminal v => v
  | .literal v => displayLiteral v
  | .nonTerminal n => n
  | .group ⟨o, i, ps⟩ => displayGroup o i (Production.displayList ps)
termination_by structural s => s

def Production.displayList : List Production → List String
  | [] => []
  | p :: ps => " ".intercalate (Production.displayParts p) :: Production.displayList ps
termination_by structural ps => ps

def Production.displayParts : Production → List String
  | [] => []
  | ⟨s, m⟩ :: p => (s.display ++ m.display) :: Production.displayParts p
termination_by structural p => p

end

def Component.display (c : Component) : String := c.symbol.display ++ c.mark.display

def Production.display (p : Production) : String := " ".intercalate (p.map Component.display)

def Group.display (g : Group) : String :=
  displayGroup g.optional g.implicit (g.productions.map Production.display)

theorem Production.displayParts_eq_map (p : Production) :
    Production.displayParts p = p.map Component.display := by
  induction p with
  | nil => rfl
  | cons c p ih =>
    obtain ⟨s, m⟩ := c
    simp [Production.displayParts, Component.display, ih]

theorem Production.displayList_eq_map (ps : List Production) :
    Production.displayList ps = ps.map Production.display := by
  induction ps with
  | nil => rfl
  | cons p ps ih =>
    simp [Production.displayList, Production.display, Production.displayParts_eq_map, ih]

namespace Rule

/-- The body of a rule with the blank that sets it off. A body that starts with a blank, as one
with an empty first alternative does, gets no second one. -/
def displayBody (g : Group) : String :=
  let body := g.display
  match body.toList with
  | [] => body
  | c :: _ => if c = ' ' then body else " " ++ body

def display (r : Rule) : String :=
  r.name ++ ":" ++ String.join (r.groups.map displayBody)

def displayLines (r : Rule) : List String :=
  (r.name ++ ":") :: r.groups.flatMap fun g => g.productions.map fun p =>
    if p.isEmpty then "  |" else "  | " ++ Production.display p

end Rule

end GrammarForge
