import GrammarForge.Target.Resolved
import GrammarForge.Target.Style
import GrammarForge.Text.Lines

/-!
The parser as one group of mutually recursive bindings: one for each token, then one for each
rule.
-/

namespace GrammarForge
namespace Library

/-- The expression of a production over the names bound for its parts. -/
def production (l : Library) (a : Alternative) : Expression :=
  l.arrangement.production a.label (a.parts.map fun part => .name (l.bound part))

def ruleExpression (l : Library) (r : ResolvedRule) : Expression :=
  l.arrangement.choice (r.alternatives.map l.production)

def binding (l : Library) (name : String) (x : Expression) : String :=
  l.bound name ++ " = " ++ x.render l.style

def bindings (l : Library) (tokens : List (String × Nat)) (rules : List ResolvedRule) :
    List String :=
  tokens.map (fun (name, tag) => l.binding name (.token tag name)) ++
    rules.map fun r => l.binding r.name (l.ruleExpression r)

def file (l : Library) (bindings : List String) : String :=
  "open Pytokens\nopen " ++ l.module ++ "\n\nlet rec " ++ "\n    and ".intercalate bindings ++ "\n"

def generate (l : Library) (d : Description) : Except TargetProblem (List String) := do
  let tokens ← d.vocabulary.tagged
  let rules ← d.resolve none
  .ok (Text.lines (l.file (l.bindings tokens rules)))

end Library
end GrammarForge
