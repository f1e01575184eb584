import GrammarForge.Token.Kind

/-!
Tokens and their places in a text.
-/

namespace GrammarForge

/-- Lines and columns start at one; a column counts characters. -/
structure Position where
  line : Nat
  column : Nat
deriving DecidableEq, Repr

namespace Position

def start : Position := ⟨1, 1⟩

/-- The place behind a character. Only a line feed opens a new line. -/
def next (p : Position) (c : Char) : Position :=
  if c = '\n' then ⟨p.line + 1, 1⟩ else ⟨p.line, p.column + 1⟩

def behind (p : Position) (text : List Char) : Position := text.foldl next p

@[simp] theorem behind_nil (p : Position) : p.behind [] = p := rfl

@[simp] theorem behind_cons (p : Position) (c : Char) (text : List Char) :
    p.behind (c :: text) = (p.next c).behind text := rfl

@[simp] theorem behind_append (p : Position) (a b : List Char) :
    p.behind (a ++ b) = (p.behind a).behind b := List.foldl_append

end Position

/-- A classified piece of a text. Names, numbers and strings carry theirs along. -/
structure Token where
  kind : Token.Kind
  text? : Option String
  position : Position
deriving DecidableEq, Repr

namespace Token

def text (t : Token) : String := t.text?.getD ""

def display (t : Token) : String :=
  match t.text? with
  | some s => t.kind.label ++ " \"" ++ s ++ "\""
  | none => t.kind.label

end Token
end GrammarForge
