import GrammarForge.Problem
import GrammarForge.Rule.Dictionary

/-!
Alias rules, which only give another name to one symbol, and their removal.
-/

namespace GrammarForge

namespace Rule

def aliasTarget? (r : Rule) : Option Symbol :=
  match r.groups with
  | [⟨false, true, [[⟨s, .once⟩]]⟩] => if s.isGroup then none else some s
  | _ => none

def isAlias (r : Rule) : Bool := r.aliasTarget?.isSome

end Rule

mutual

/-- Replace every reference by the symbol that `f` gives for it. -/
def Symbol.mapReferences (f : String → Symbol) : Symbol → Symbol
  | .nonTerminal n => f n
  | .group ⟨o, i, ps⟩ => .group ⟨o, i, Production.mapReferencesList f ps⟩
  | s => s
termination_by structural s => s

def Production.mapReferencesList (f : String → Symbol) : List Production → List Production
  | [] => []
  | p :: ps => Production.mapReferences f p :: Production.mapReferencesList f ps
termination_by structural ps => ps

def Production.mapReferences (f : String → Symbol) : Production → Production
  | [] => []
  | ⟨s, m⟩ :: p => ⟨s.mapReferences f, m⟩ :: Production.mapReferences f p
termination_by structural p => p

end

def Group.mapReferences (f : String → Symbol) (g : Group) : Group :=
  ⟨g.optional, g.implicit, Production.mapReferencesList f g.productions⟩

def Rule.mapReferences (f : String → Symbol) (r : Rule) : Rule :=
  ⟨r.name, r.groups.map (Group.mapReferences f)⟩

def substitution (name : String) (target : Symbol) (n : String) : Symbol :=
  if n = name then target else .nonTerminal n

namespace Dictionary

def aliasTarget? (d : Dictionary) (key : String) : Option Symbol :=
  (d.get? key).bind Rule.aliasTarget?

def aliases (d : Dictionary) : List String :=
  ((d.rules.filter Rule.isAlias).map Rule.name)

/-- Follow aliases that still wait to be removed, a limited number of steps: do they lead back to
`name`? -/
def leadsBack (d : Dictionary) (pending : List String) (name : String) : Nat → String → Bool
  | 0, _ => false
  | steps + 1, current =>
    if pending.contains current then
      match d.aliasTarget? current with
      | some (.nonTerminal next) => next == name || d.leadsBack pending name steps next
      | _ => false
    else false

def aliasProblem? (d : Dictionary) (pending : List String) (name : String) :
    Symbol → Option Problem
  | .nonTerminal via =>
    if via = name then some (.selfAlias name)
    else if d.leadsBack pending name (pending.length + 1) via then some (.cyclicAlias name via)
    else none
  | _ => none

/-- Remove one alias and let its target stand wherever it was referenced. -/
def inlineAlias (d : Dictionary) (name : String) (target : Symbol) : Dictionary :=
  (d.mapRules fun r =>
    if r.name = name then r else r.mapReferences (substitution name target)).erase name

/-- Remove the given aliases in order. The dictionary is left as far as the removal got. -/
def reduceAll (d : Dictionary) : List String → Dictionary × Option Problem
  | [] => (d, none)
  | name :: pending =>
    match d.aliasTarget? name with
    | none => d.reduceAll pending
    | some target =>
      match d.aliasProblem? pending name target with
      | some problem => (d, some problem)
      | none => (d.inlineAlias name target).reduceAll pending

def reduce (d : Dictionary) : Dictionary × Option Problem := d.reduceAll d.aliases.eraseDups

end Dictionary
end GrammarForge
