import GrammarForge.Text.Word

/-!
Keywords. The name of a keyword in generated code is its spelling in capitals.
-/

namespace GrammarForge
namespace Token

/-- In the order of the token table. -/
inductive Keyword where
  | andWord | asWord | assertWord | breakWord | classWord | continueWord | defWord | delWord
  | elifWord | elseWord | exceptWord | falseWord | finallyWord | forWord | fromWord
  | globalWord | ifWord | importWord | inWord | isWord | lambdaWord | noneWord | nonlocalWord
  | notWord | orWord | passWord | raiseWord | returnWord | trueWord | tryWord | whileWord
  | withWord | yieldWord
deriving DecidableEq, Repr

namespace Keyword

def all : List Keyword :=
  [.andWord, .asWord, .assertWord, .breakWord, .classWord, .continueWord, .defWord, .delWord,
  .elifWord, .elseWord, .exceptWord, .falseWord, .finallyWord, .forWord, .fromWord,
  .globalWord, .ifWord, .importWord, .inWord, .isWord, .lambdaWord, .noneWord, .nonlocalWord,
  .notWord, .orWord, .passWord, .raiseWord, .returnWord, .trueWord, .tryWord, .whileWord,
  .withWord, .yieldWord]

def spelling : Keyword → String
  | .andWord => "and"
  | .asWord => "as"
  | .assertWord => "assert"
  | .breakWord => "break"
  | .classWord => "class"
  | .continueWord => "continue"
  | .defWord => "def"
  | .delWord => "del"
  | .elifWord => "elif"
  | .elseWord => "else"
  | .exceptWord => "except"
  | .falseWord => "False"
  | .finallyWord => "finally"
  | .forWord => "for"
  | .fromWord => "from"
  | .globalWord => "global"
  | .ifWord => "if"
  | .importWord => "import"
  | .inWord => "in"
  | .isWord => "is"
  | .lambdaWord => "lambda"
  | .noneWord => "None"
  | .nonlocalWord => "nonlocal"
  | .notWord => "not"
  | .orWord => "or"
  | .passWord => "pass"
  | .raiseWord => "raise"
  | .returnWord => "return"
  | .trueWord => "True"
  | .tryWord => "try"
  | .whileWord => "while"
  | .withWord => "with"
  | .yieldWord => "yield"

def name (k : Keyword) : String := Text.upper k.spelling

def ofSpelling? (s : String) : Option Keyword := all.find? fun k => k.spelling == s

theorem mem_all (k : Keyword) : k ∈ all := by cases k <;> decide

theorem spelling_of_ofSpelling? {s : String} {k : Keyword} (h : ofSpelling? s = some k) :
    k.spelling = s := by
  simpa using List.find?_some h

end Keyword
end Token
end GrammarForge
