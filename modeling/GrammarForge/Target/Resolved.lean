import GrammarForge.Description
import GrammarForge.Target.Basic

/-!
Rules ready for output: every production labelled, every component a name.
-/

namespace GrammarForge

structure Alternative where
  label : String
  parts : List String
deriving DecidableEq, Repr

structure ResolvedRule where
  name : String
  alternatives : List Alternative
deriving DecidableEq, Repr

/-- The label of a production. Only the productions of a rule with several of them are
numbered. -/
def productionLabel (rule : String) (count i : Nat) : String :=
  if count = 1 then rule else rule ++ "-" ++ toString (i + 1)

structure Limit where
  target : String
  components : Nat

namespace ResolvedRule

def componentName (names : List (String × String)) (rule : String) (c : Component) :
    Except TargetProblem String :=
  match c.symbol with
  | .terminal v | .literal v =>
    match names.lookup v with
    | some name => .ok name
    | none => .error (.unnamedTerminal rule v)
  | .nonTerminal n => .ok n
  | .group g => .error (.invalidComponent rule (Symbol.group g).sort)

def withinLimit (limit? : Option Limit) (rule : String) (parts : List String) :
    Except TargetProblem Unit :=
  match limit? with
  | none => .ok ()
  | some limit =>
    if limit.components < parts.length then
      .error (.tooManyComponents limit.target rule parts.length limit.components)
    else .ok ()

/-- Resolve the productions of a rule; `count` of them make up the rule, and `i` come before. -/
def alternativesFrom (names : List (String × String)) (limit? : Option Limit) (rule : String)
    (count i : Nat) : List Production → Except TargetProblem (List Alternative)
  | [] => .ok []
  | p :: ps => do
    let parts ← p.mapM (componentName names rule)
    withinLimit limit? rule parts
    let rest ← alternativesFrom names limit? rule count (i + 1) ps
    .ok (⟨productionLabel rule count i, parts⟩ :: rest)

def ofRule (names : List (String × String)) (limit? : Option Limit) (r : Rule) :
    Except TargetProblem ResolvedRule :=
  match r.group? with
  | none => .error (.groupCount r.name r.groups.length)
  | some g =>
    if g.productions.isEmpty then .error (.emptyGroup r.name)
    else do
      let alternatives ← alternativesFrom names limit? r.name g.productions.length 0 g.productions
      .ok ⟨r.name, alternatives⟩

end ResolvedRule

namespace Description

/-- The rules for output. The first violation in reading order is reported. -/
def resolve (d : Description) (limit? : Option Limit) :
    Except TargetProblem (List ResolvedRule) :=
  let names := d.names
  d.grammar.rules.rules.mapM (ResolvedRule.ofRule names limit?)

end Description

namespace Vocabulary

def tag (v : Vocabulary) (name : String) : Except TargetProblem Nat :=
  match v.tag? name with
  | some tag => .ok tag
  | none => .error (.untaggedToken name)

def tagged (v : Vocabulary) : Except TargetProblem (List (String × Nat)) :=
  v.all.mapM fun name => (v.tag name).map fun tag => (name, tag)

end Vocabulary
end GrammarForge
