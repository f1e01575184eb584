import GrammarForge.Token.Keyword
import GrammarForge.Token.Operator

/-!
The fixed token table: operators, keywords, layout, and the kinds that carry a text. Generated
parsers compare tags, so the order of the table is part of every output.
-/

namespace GrammarForge
namespace Token

inductive Kind where
  | op (o : Operator)
  | keyword (k : Keyword)
  | newline
  | indent
  | dedent
  | endMarker
  | name
  | number
  | string
deriving DecidableEq, Repr

namespace Kind

def all : List Kind :=
  Operator.all.map .op ++ Keyword.all.map .keyword ++
    [.newline, .indent, .dedent, .endMarker, .name, .number, .string]

def label : Kind → String
  | .op o => o.name
  | .keyword k => k.name
  | .newline => "NEWLINE"
  | .indent => "INDENT"
  | .dedent => "DEDENT"
  | .endMarker => "ENDMARKER"
  | .name => "NAME"
  | .number => "NUMBER"
  | .string => "STRING"

/-- The spelling in source text, empty where a kind has no spelling of its own. -/
def spelling : Kind → String
  | .op o => o.spelling
  | .keyword k => k.spelling
  | _ => ""

def isLayout : Kind → Bool
  | .newline | .indent | .dedent | .endMarker => true
  | _ => false

def carriesText : Kind → Bool
  | .name | .number | .string => true
  | _ => false

def payloadType? (k : Kind) : Option String := if k.carriesText then some "string" else none

/-- The position in the table. -/
def tag (k : Kind) : Nat := all.idxOf k

def ofLabel? (s : String) : Option Kind := all.find? fun k => k.label == s

def opens : Kind → Bool
  | .op .lPar | .op .lSqr | .op .lBrc => true
  | _ => false

def closes : Kind → Bool
  | .op .rPar | .op .rSqr | .op .rBrc => true
  | _ => false

theorem mem_all (k : Kind) : k ∈ all := by
  cases k with
  | op o => simp [all, Operator.mem_all]
  | keyword k => simp [all, Keyword.mem_all]
  | _ => simp [all]

theorem length_all : all.length = 86 := by decide

theorem label_of_ofLabel? {s : String} {k : Kind} (h : ofLabel? s = some k) : k.label = s := by
  simpa using List.find?_some h

end Kind

def freeTag : Nat := Kind.all.length

end Token
end GrammarForge
