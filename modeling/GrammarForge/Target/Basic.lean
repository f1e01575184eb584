/-!
What parsers can be generated for: two parser generators, and libraries of parser combinators.
-/

namespace GrammarForge

/-- Libraries of parser combinators, by zippers or by derivatives. -/
inductive Library where
  | pwzNary
  | pwzNaryList
  | pwzNaryLook
  | pwzBinary
  | pwdBinary
  | pwdBinaryOpt
  | pwdNary
  | pwdNaryOpt
deriving DecidableEq, Repr

namespace Library

def name : Library → String
  | .pwzNary => "pwz_nary"
  | .pwzNaryList => "pwz_nary_list"
  | .pwzNaryLook => "pwz_nary_look"
  | .pwzBinary => "pwz_binary"
  | .pwdBinary => "pwd_binary"
  | .pwdBinaryOpt => "pwd_binary_opt"
  | .pwdNary => "pwd_nary"
  | .pwdNaryOpt => "pwd_nary_opt"

def module : Library → String
  | .pwzNary => "Pwz_nary"
  | .pwzNaryList => "Pwz_nary_list"
  | .pwzNaryLook => "Pwz_nary_look"
  | .pwzBinary => "Pwz_binary"
  | .pwdBinary => "Pwd_binary"
  | .pwdBinaryOpt => "Pwd_binary_opt"
  | .pwdNary => "Pwd_nary"
  | .pwdNaryOpt => "Pwd_nary_opt"

def bound (l : Library) (name : String) : String := l.name ++ "_rule_" ++ name

end Library

inductive Target where
  | menhir
  | dypgen
  | library (l : Library)
deriving DecidableEq, Repr

namespace Target

def all : List Target :=
  [.menhir, .dypgen, .library .pwzNary, .library .pwzNaryList, .library .pwzNaryLook,
    .library .pwzBinary, .library .pwdBinary, .library .pwdBinaryOpt, .library .pwdNary,
    .library .pwdNaryOpt]

def name : Target → String
  | .menhir => "menhir"
  | .dypgen => "dypgen"
  | .library l => l.name

def fileName : Target → String
  | .menhir => "pymen.mly"
  | .dypgen => "pydyp.dyp"
  | .library l => l.name ++ "_pygram.ml"

def tokensFile : String := "pytokens.ml"

theorem mem_all (t : Target) : t ∈ all := by
  cases t with
  | library l => cases l <;> decide
  | _ => decide

end Target

inductive TargetProblem where
  | groupCount (rule : String) (groups : Nat)
  | emptyGroup (rule : String)
  | invalidComponent (rule sort : String)
  | unnamedTerminal (rule terminal : String)
  | untaggedToken (name : String)
  | tooManyComponents (target rule : String) (count limit : Nat)
  | unknownTarget (name : String)
deriving DecidableEq, Repr

namespace TargetProblem

/-- The rules were not flat, as opposed to flat rules that a target cannot express. -/
def isContractViolation : TargetProblem → Bool
  | .tooManyComponents .. | .unknownTarget _ => false
  | _ => true

def message : TargetProblem → String
  | .groupCount rule groups => s!"rule {rule} has {groups} top-level groups; expected 1"
  | .emptyGroup rule => s!"rule {rule} has no productions"
  | .invalidComponent rule sort =>
    s!"invalid component instance in production of rule {rule} of class {sort}"
  | .unnamedTerminal rule terminal => s!"terminal {terminal} in rule {rule} has no token name"
  | .untaggedToken name => s!"token {name} has no tag"
  | .tooManyComponents target rule count limit =>
    s!"cannot create production of rule {rule} with {count} parts; {target} allows at most {limit}"
  | .unknownTarget name => s!"unknown backend {name}"

end TargetProblem

namespace Target

def ofName (name : String) : Except TargetProblem Target :=
  match all.find? fun t => t.name == name with
  | some t => .ok t
  | none => .error (.unknownTarget name)

end Target
end GrammarForge
