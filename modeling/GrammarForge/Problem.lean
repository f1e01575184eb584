import GrammarForge.Files.Fault
import GrammarForge.Lexeme.Fault
import GrammarForge.Token.Basic

/-!
Why a grammar is refused.
-/

namespace GrammarForge

inductive RuleDefect where
  | noName
  | stray (token : Token)
  | noHeader
  | emptyBody (rule : String)
deriving DecidableEq, Repr

namespace RuleDefect

def message : RuleDefect → String
  | .noName => "rule has no name"
  | .stray token => "unexpected " ++ token.display ++ " before the first rule"
  | .noHeader => "expected a rule name followed by ':'"
  | .emptyBody rule => s!"rule {rule} has an empty body"

end RuleDefect

inductive Problem where
  | unreadable (path : String) (cause : FileFault)
  | lexical (position : Position) (fault : Fault)
  | malformedRule (line : Nat) (defect : RuleDefect)
  | unexpectedToken (rule : String) (token : Token)
  | mixedCaseName (rule name : String)
  | danglingRepetition (rule : String) (line : Nat)
  | unclosedGroup (rule : String)
  | duplicateRule (rule : String)
  | groupCount (rule : String) (count : Nat)
  | missingDefinitions (names : List String)
  | selfAlias (rule : String)
  | cyclicAlias (rule via : String)
  | unknownStartSymbol (name : String)
deriving DecidableEq, Repr

inductive Stage where
  | file
  | lexical
  | syntactic
  | semantic
deriving DecidableEq, Repr

namespace Problem

def stage : Problem → Stage
  | .unreadable .. => .file
  | .lexical .. => .lexical
  | .malformedRule .. | .unexpectedToken .. | .mixedCaseName .. | .danglingRepetition ..
  | .unclosedGroup _ => .syntactic
  | .duplicateRule _ | .groupCount .. | .missingDefinitions _ | .selfAlias _ | .cyclicAlias ..
  | .unknownStartSymbol _ => .semantic

def message : Problem → String
  | .unreadable path cause => "failed to read " ++ path ++ ": " ++ cause.message
  | .lexical ⟨line, column⟩ fault => s!"lex error at {line}:{column}: " ++ fault.message
  | .malformedRule line defect => s!"malformed rule at line {line}: " ++ defect.message
  | .unexpectedToken rule token =>
    "unexpected token " ++ token.display ++ s!" in rule {rule} at " ++
      s!"{token.position.line}:{token.position.column}"
  | .mixedCaseName rule name => s!"unexpected mixed-case NAME token {name} in rule {rule}"
  | .danglingRepetition rule line =>
    s!"repetition marker without a preceding component in rule {rule} at line {line}"
  | .unclosedGroup rule => s!"unclosed group in rule {rule}"
  | .duplicateRule rule => s!"rule {rule} is defined more than once"
  | .groupCount rule count =>
    s!"rule {rule} has {count} top-level groups instead of exactly 1"
  | .missingDefinitions names =>
    "invalid grammar: missing definitions for the following non-terminals: " ++
      ", ".intercalate names
  | .selfAlias rule => s!"cannot have self-reference in rule {rule}"
  | .cyclicAlias rule via => s!"cannot have circular references in rules {rule} and {via}"
  | .unknownStartSymbol name => s!"start symbol {name} is not a rule of the grammar"

end Problem
end GrammarForge
