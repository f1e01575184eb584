import GrammarForge.Problem
import GrammarForge.Rule.Reader
import GrammarForge.Rule.Synthesis

/-!
Flat rules. Every repetition and every group gives way to a reference to a rule of its own, until
each rule is an alternation of plain sequences.
-/

namespace GrammarForge

/-- A flat form, the rules synthesized on the way, and the next running number. -/
structure Flat (α : Type) where
  value : α
  rules : List Rule
  counter : Nat

/-- `x*` is nothing or an `x` and more; `x+` is an `x` alone or with more. -/
def listRule (name : String) (m : Repeat) (element : Symbol) : Rule :=
  .ofBody name
    [if m = .plus then [.once element] else [],
      [.once element, .once (.nonTerminal name)]]

/-- A group is a rule with its alternatives; an optional one may also be empty. -/
def groupRule (name : String) (optional : Bool) (ps : List Production) : Rule :=
  .ofBody name (if optional then [] :: ps else ps)

mutual

def Symbol.flatten (owner : String) (position counter : Nat) : Symbol → Flat Symbol
  | .group ⟨optional, _, ps⟩ =>
    let name := (if optional then Origin.optionalGroup else .group).name owner position counter
    let inner := Production.flattenList name 0 1 (counter + 1) ps
    ⟨.nonTerminal name, groupRule name optional inner.value :: inner.rules, inner.counter⟩
  | s => ⟨s, [], counter⟩
termination_by structural s => s

/-- Flatten alternatives. The first position of an alternative is `stride` behind that of the
alternative before it. -/
def Production.flattenList (owner : String) (stride position counter : Nat) :
    List Production → Flat (List Production)
  | [] => ⟨[], [], counter⟩
  | p :: ps =>
    let first := Production.flatten owner position counter p
    let rest := Production.flattenList owner stride (position + stride) first.counter ps
    ⟨first.value :: rest.value, first.rules ++ rest.rules, rest.counter⟩
termination_by structural ps => ps

/-- Flatten a sequence. The element of a repetition is made for the rule of the list, which is
named first. -/
def Production.flatten (owner : String) (position counter : Nat) : Production → Flat Production
  | [] => ⟨[], [], counter⟩
  | ⟨s, m⟩ :: p =>
    if m = .once then
      let first := s.flatten owner position counter
      let rest := Production.flatten owner (if s.isGroup then position + 1 else position)
        first.counter p
      ⟨.once first.value :: rest.value, first.rules ++ rest.rules, rest.counter⟩
    else
      let name := Origin.list.name owner position counter
      let element := s.flatten name 1 (counter + 1)
      let rest := Production.flatten owner (position + 1) element.counter p
      ⟨.once (.nonTerminal name) :: rest.value,
        listRule name m element.value :: (element.rules ++ rest.rules), rest.counter⟩
termination_by structural p => p

end

def Rule.normalize (counter : Nat) (r : Rule) : Except Problem (List Rule × Nat) :=
  match r.group? with
  | none => .error (.groupCount r.name r.groups.length)
  | some g =>
    let body := Production.flattenList r.name 1 1 counter g.productions
    .ok (⟨r.name, [⟨g.optional, g.implicit, body.value⟩]⟩ :: body.rules, body.counter)

namespace Dictionary

/-- Flatten rules one after the other into `out`. The running number counts on even where a rule
is refused. -/
def normalizeInto (out : Dictionary) (counter : Nat) :
    List Rule → Except Problem Dictionary × Nat
  | [] => (.ok out, counter)
  | r :: rs =>
    match r.normalize counter with
    | .error e => (.error e, counter)
    | .ok (rules, counter) =>
      match out.declareAll rules with
      | .error e => (.error e, counter)
      | .ok out => normalizeInto out counter rs

def normalize (counter : Nat) (d : Dictionary) : Except Problem Dictionary × Nat :=
  empty.normalizeInto counter d.rules

end Dictionary
end GrammarForge
