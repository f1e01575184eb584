/-!
Operators and punctuation: their names in generated code and their spellings in source text.
-/

namespace GrammarForge
namespace Token

/-- In the order of the token table. -/
inductive Operator where
  | arrow | atSign | semicolon | colon | comma | dot | ellipsis | tilde | lPar | rPar | lSqr
  | rSqr | lBrc | rBrc | eq | eqEq | bangEq | lt | le | ltLt | ltLtEq | gt | ge | gtGt | gtGtEq
  | ne | plus | plusEq | dash | dashEq | star | starEq | starStar | starStarEq | slash
  | slashEq | slashSlash | slashSlashEq | per | perEq | ampersand | ampersandEq | pipe | pipeEq
  | caret | caretEq
deriving DecidableEq, Repr

namespace Operator

def all : List Operator :=
  [.arrow, .atSign, .semicolon, .colon, .comma, .dot, .ellipsis, .tilde, .lPar, .rPar, .lSqr,
  .rSqr, .lBrc, .rBrc, .eq, .eqEq, .bangEq, .lt, .le, .ltLt, .ltLtEq, .gt, .ge, .gtGt, .gtGtEq,
  .ne, .plus, .plusEq, .dash, .dashEq, .star, .starEq, .starStar, .starStarEq, .slash,
  .slashEq, .slashSlash, .slashSlashEq, .per, .perEq, .ampersand, .ampersandEq, .pipe, .pipeEq,
  .caret, .caretEq]

def entry : Operator → String × String
  | .arrow => ("ARROW", "->")
  | .atSign => ("AT", "@")
  | .semicolon => ("SEMICOLON", ";")
  | .colon => ("COLON", ":")
  | .comma => ("COMMA", ",")
  | .dot => ("DOT", ".")
  | .ellipsis => ("ELLIPSIS", "...")
  | .tilde => ("TILDE", "~")
  | .lPar => ("L_PAR", "(")
  | .rPar => ("R_PAR", ")")
  | .lSqr => ("L_SQR", "[")
  | .rSqr => ("R_SQR", "]")
  | .lBrc => ("L_BRC", "\x7b")
  | .rBrc => ("R_BRC", "\x7d")
  | .eq => ("EQ", "=")
  | .eqEq => ("EQ_EQ", "==")
  | .bangEq => ("BANG_EQ", "!=")
  | .lt => ("LT", "<")
  | .le => ("LE", "<=")
  | .ltLt => ("LT_LT", "<<")
  | .ltLtEq => ("LT_LT_EQ", "<<=")
  | .gt => ("GT", ">")
  | .ge => ("GE", ">=")
  | .gtGt => ("GT_GT", ">>")
  | .gtGtEq => ("GT_GT_EQ", ">>=")
  | .ne => ("NE", "<>")
  | .plus => ("PLUS", "+")
  | .plusEq => ("PLUS_EQ", "+=")
  | .dash => ("DASH", "-")
  | .dashEq => ("DASH_EQ", "-=")
  | .star => ("STAR", "*")
  | .starEq => ("STAR_EQ", "*=")
  | .starStar => ("STAR_STAR", "**")
  | .starStarEq => ("STAR_STAR_EQ", "**=")
  | .slash => ("SLASH", "/")
  | .slashEq => ("SLASH_EQ", "/=")
  | .slashSlash => ("SLASH_SLASH", "//")
  | .slashSlashEq => ("SLASH_SLASH_EQ", "//=")
  | .per => ("PER", "%")
  | .perEq => ("PER_EQ", "%=")
  | .ampersand => ("AMPERSAND", "&")
  | .ampersandEq => ("AMPERSAND_EQ", "&=")
  | .pipe => ("PIPE", "|")
  | .pipeEq => ("PIPE_EQ", "|=")
  | .caret => ("CARET", "^")
  | .caretEq => ("CARET_EQ", "^=")

def name (o : Operator) : String := o.entry.1

def spelling (o : Operator) : String := o.entry.2

def ofSpelling? (s : String) : Option Operator := all.find? fun o => o.spelling == s

theorem mem_all (o : Operator) : o ∈ all := by cases o <;> decide

theorem ofSpelling?_spelling (o : Operator) : ofSpelling? o.spelling = some o := by
  cases o <;> decide

theorem spelling_of_ofSpelling? {s : String} {o : Operator} (h : ofSpelling? s = some o) :
    o.spelling = s := by
  simpa using List.find?_some h

theorem length_spelling_pos (o : Operator) : 0 < o.spelling.length := by
  cases o <;> decide

end Operator
end Token
end GrammarForge
