import GrammarForge.Problem
import GrammarForge.Rule.Dictionary
import GrammarForge.Text.Word

/-!
Rules read from tokens. A rule starts at the name in front of a colon and runs up to the name in
front of the next one.

The body of a rule is read token by token. What has been read is kept as the innermost unfinished
group together with the groups around it, so every step looks at one token only.
-/

namespace GrammarForge

inductive Bracket where
  | round
  | square
deriving DecidableEq, Repr

/-- An unfinished group: its complete productions and the running one, each last first. -/
structure Draft where
  finished : List Production
  current : Production

namespace Draft

def empty : Draft := ⟨[], []⟩

def productions (d : Draft) : List Production := (d.current.reverse :: d.finished).reverse

def push (d : Draft) (c : Component) : Draft := ⟨d.finished, c :: d.current⟩

def next (d : Draft) : Draft := ⟨d.current.reverse :: d.finished, []⟩

/-- Set the repetition of the last component. A later mark replaces an earlier one. -/
def mark? (d : Draft) (m : Repeat) : Option Draft :=
  match d.current with
  | [] => none
  | c :: cs => some ⟨d.finished, ⟨c.symbol, m⟩ :: cs⟩

end Draft

/-- A partly read body: the innermost group, and around it, innermost first, every bracket still
open with the group it stands in. -/
structure Progress where
  draft : Draft
  enclosing : List (Bracket × Draft)

namespace Progress

def start : Progress := ⟨.empty, []⟩

def push (s : Progress) (sym : Symbol) : Progress := ⟨s.draft.push (.once sym), s.enclosing⟩

def openGroup (s : Progress) (b : Bracket) : Progress := ⟨.empty, (b, s.draft) :: s.enclosing⟩

def closeGroup? (s : Progress) (b : Bracket) : Option Progress :=
  match s.enclosing with
  | [] => none
  | (opened, outer) :: rest =>
    if opened = b then
      some ⟨outer.push (.once (.group ⟨b == .square, false, s.draft.productions⟩)), rest⟩
    else none

end Progress

def wordSymbol? (word : String) : Option Symbol :=
  if Text.isUpperWord word then some (.terminal word)
  else if Text.isLowerWord word then some (.nonTerminal word)
  else none

def Progress.mark (s : Progress) (rule : String) (m : Repeat) (t : Token) :
    Except Problem Progress :=
  (s.draft.mark? m).elim (.error (.danglingRepetition rule t.position.line)) fun d =>
    .ok ⟨d, s.enclosing⟩

def Progress.step (rule : String) (s : Progress) (t : Token) : Except Problem Progress :=
  match t.kind with
  | .op .pipe => .ok ⟨s.draft.next, s.enclosing⟩
  | .op .lPar => .ok (s.openGroup .round)
  | .op .lSqr => .ok (s.openGroup .square)
  | .op .rPar => (s.closeGroup? .round).elim (.error (.unexpectedToken rule t)) .ok
  | .op .rSqr => (s.closeGroup? .square).elim (.error (.unexpectedToken rule t)) .ok
  | .op .star => s.mark rule .star t
  | .op .plus => s.mark rule .plus t
  | .name =>
    (wordSymbol? t.text).elim (.error (.mixedCaseName rule t.text)) fun sym => .ok (s.push sym)
  | .string => .ok (s.push (.literal t.text))
  | _ => .error (.unexpectedToken rule t)

def readBody (rule : String) (ts : List Token) : Except Problem (List Production) := do
  let s ← ts.foldlM (Progress.step rule) .start
  if s.enclosing.isEmpty then .ok s.draft.productions else .error (.unclosedGroup rule)

namespace Rule

/-- Read the tokens from the name of a rule up to the name of the next one. -/
def ofTokens (segment : List Token) : Except Problem Rule :=
  let line := (segment.head?.map (·.position.line)).getD 0
  match segment.filter (·.kind != .newline) with
  | name :: colon :: rest =>
    if name.kind = .name ∧ colon.kind = .op .colon then
      let body := rest.filter (! ·.kind.isLayout)
      if body.isEmpty then .error (.malformedRule line (.emptyBody name.text))
      else do
        let ps ← readBody name.text body
        .ok ⟨name.text, [(Group.body ps).unwrap]⟩
    else .error (.malformedRule line .noHeader)
  | _ => .error (.malformedRule line .noHeader)

end Rule

/-- The tokens in front of the first rule, and the tokens of each rule. -/
def segments : List Token → List Token × List (List Token)
  | [] => ([], [])
  | t :: rest =>
    let (before, rules) := segments rest
    if rest.head?.any (·.kind == .op .colon) then ([], (t :: before) :: rules)
    else (t :: before, rules)

namespace Dictionary

def declare (d : Dictionary) (r : Rule) : Except Problem Dictionary :=
  if d.contains r.name then .error (.duplicateRule r.name) else .ok (d.insert r.name r)

def declareAll (d : Dictionary) (rs : List Rule) : Except Problem Dictionary :=
  rs.foldlM declare d

/-- Read rule after rule. Each one is declared before the next one is read. -/
def readRules (d : Dictionary) (rules : List (List Token)) : Except Problem Dictionary :=
  rules.foldlM (fun d segment => do d.declare (← Rule.ofTokens segment)) d

def ofTokens (ts : List Token) : Except Problem Dictionary :=
  match ts.head?.filter (·.kind == .op .colon) with
  | some t => .error (.malformedRule t.position.line .noName)
  | none =>
    let (before, rules) := segments ts
    match before.find? (! ·.kind.isLayout) with
    | some t => .error (.malformedRule t.position.line (.stray t))
    | none => empty.readRules rules

end Dictionary
end GrammarForge
