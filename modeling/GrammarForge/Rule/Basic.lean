/-!
Rules of an extended grammar: alternatives of sequences, with groups, optional groups and
repetition at any depth.
-/

namespace GrammarForge

inductive Repeat where
  | once
  | star
  | plus
deriving DecidableEq, Repr

mutual

/-- A terminal is an upper-case word, a literal a quoted text. Both stand for a token, and they
differ even where their values agree. -/
inductive Symbol where
  | terminal (value : String)
  | literal (value : String)
  | nonTerminal (name : String)
  | group (body : Group)

structure Component where
  symbol : Symbol
  mark : Repeat

/-- An alternation of sequences. An implicit group is written without brackets. -/
structure Group where
  optional : Bool
  implicit : Bool
  productions : List (List Component)

end

/-- One alternative. The empty sequence derives the empty text. -/
abbrev Production := List Component

structure Rule where
  name : String
  groups : List Group

mutual

def Symbol.decEq (a b : Symbol) : Decidable (a = b) :=
  match a, b with
  | .terminal x, .terminal y => decidable_of_iff (x = y) (by simp)
  | .literal x, .literal y => decidable_of_iff (x = y) (by simp)
  | .nonTerminal x, .nonTerminal y => decidable_of_iff (x = y) (by simp)
  | .group ⟨o, i, ps⟩, .group ⟨o', i', ps'⟩ =>
    haveI := Production.decEqList ps ps'
    decidable_of_iff (o = o' ∧ i = i' ∧ ps = ps') (by simp)
  | .terminal _, .literal _ | .terminal _, .nonTerminal _ | .terminal _, .group _
  | .literal _, .terminal _ | .literal _, .nonTerminal _ | .literal _, .group _
  | .nonTerminal _, .terminal _ | .nonTerminal _, .literal _ | .nonTerminal _, .group _
  | .group _, .terminal _ | .group _, .literal _ | .group _, .nonTerminal _ =>
    isFalse (by simp)
termination_by structural a

def Production.decEqList (ps qs : List Production) : Decidable (ps = qs) :=
  match ps, qs with
  | [], [] => isTrue rfl
  | p :: ps, q :: qs =>
    haveI := Production.decEq p q
    haveI := Production.decEqList ps qs
    decidable_of_iff (p = q ∧ ps = qs) (by simp)
  | [], _ :: _ | _ :: _, [] => isFalse (by simp)
termination_by structural ps

def Production.decEq (p q : Production) : Decidable (p = q) :=
  match p, q with
  | [], [] => isTrue rfl
  | ⟨s, m⟩ :: p, ⟨t, n⟩ :: q =>
    haveI := Symbol.decEq s t
    haveI := Production.decEq p q
    decidable_of_iff (s = t ∧ m = n ∧ p = q) (by simp [and_assoc])
  | [], _ :: _ | _ :: _, [] => isFalse (by simp)
termination_by structural p

end

instance : DecidableEq Symbol := Symbol.decEq

instance : DecidableEq Component
  | ⟨s, m⟩, ⟨t, n⟩ => decidable_of_iff (s = t ∧ m = n) (by simp)

instance : DecidableEq Group
  | ⟨o, i, ps⟩, ⟨o', i', ps'⟩ => decidable_of_iff (o = o' ∧ i = i' ∧ ps = ps') (by simp)

instance : DecidableEq Rule
  | ⟨n, gs⟩, ⟨n', gs'⟩ => decidable_of_iff (n = n' ∧ gs = gs') (by simp)

namespace Symbol

def sort : Symbol → String
  | .terminal _ => "Terminal"
  | .literal _ => "Literal"
  | .nonTerminal _ => "NonTerminal"
  | .group _ => "ProductionGroup"

def token? : Symbol → Option String
  | .terminal v | .literal v => some v
  | _ => none

def reference? : Symbol → Option String
  | .nonTerminal n => some n
  | _ => none

def isGroup : Symbol → Bool
  | .group _ => true
  | _ => false

end Symbol

namespace Component

def once (s : Symbol) : Component := ⟨s, .once⟩

@[simp] theorem symbol_once (s : Symbol) : (once s).symbol = s := rfl

end Component

namespace Group

def body (ps : List Production) : Group := ⟨false, true, ps⟩

/-- A plain group in brackets of its own stands for the body around it when nothing else does. -/
def unwrap (g : Group) : Group :=
  match g.productions with
  | [[⟨.group inner, .once⟩]] =>
    if inner.optional then g else ⟨inner.optional, true, inner.productions⟩
  | _ => g

end Group

namespace Rule

def ofBody (name : String) (ps : List Production) : Rule := ⟨name, [Group.body ps]⟩

def group? (r : Rule) : Option Group :=
  match r.groups with
  | [g] => some g
  | _ => none

end Rule

mutual

def Symbol.withInner : Symbol → List Symbol
  | .group ⟨o, i, ps⟩ => .group ⟨o, i, ps⟩ :: Production.symbolsList ps
  | s => [s]
termination_by structural s => s

def Production.symbolsList : List Production → List Symbol
  | [] => []
  | p :: ps => Production.symbols p ++ Production.symbolsList ps
termination_by structural ps => ps

/-- The symbols of a sequence at every depth, in reading order. -/
def Production.symbols : Production → List Symbol
  | [] => []
  | ⟨s, _⟩ :: p => s.withInner ++ Production.symbols p
termination_by structural p => p

end

def Rule.symbols (r : Rule) : List Symbol :=
  r.groups.flatMap fun g => Production.symbolsList g.productions

end GrammarForge
