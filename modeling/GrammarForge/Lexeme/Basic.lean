import GrammarForge.Lexeme.Fault
import GrammarForge.Lexeme.Literal
import GrammarForge.Text.Alphabetic
import GrammarForge.Text.Numeric
import GrammarForge.Text.Word
import GrammarForge.Token.Kind

/-!
A text as a list of lexemes. Every character belongs to exactly one of them, blanks, comments
and line ends included.
-/

namespace GrammarForge

inductive Lexeme.Form where
  | blank
  | comment
  | lineEnd
  | continuation
  | token (kind : Token.Kind) (text? : Option String)
  | fault (fault : Fault)
deriving DecidableEq, Repr

structure Lexeme where
  form : Lexeme.Form
  source : List Char
deriving DecidableEq, Repr

namespace Lexeme

def isBlank (c : Char) : Bool := c == ' ' || c == '\t' || c == '\x0c'

def isLineEnd (c : Char) : Bool := c == '\n' || c == '\r'

def lineEnd : List Char → List Char
  | '\r' :: '\n' :: _ => ['\r', '\n']
  | c :: _ => if isLineEnd c then [c] else []
  | [] => []

/-- Numbers go on over letters, digits, underscores and points of any script. -/
def isNumberChar (c : Char) : Bool :=
  Text.isAlphabetic c || Text.isNumeric c || c == '_' || c == '.'

def startsNumber (c : Char) (cs : List Char) : Bool :=
  c.isDigit || (c == '.' && cs.head?.any Char.isDigit)

/-- The rest of a number. The sign of an exponent belongs to it. -/
def numberTail : List Char → List Char
  | [] => []
  | [c] => if isNumberChar c then [c] else []
  | c :: d :: cs =>
    if (c == 'e' || c == 'E') && (d == '+' || d == '-') then c :: d :: numberTail cs
    else if isNumberChar c then c :: numberTail (d :: cs)
    else []

/-- The longest operator that a text starts with. No spelling has more than three characters. -/
def operator? (cs : List Char) : Option Token.Operator :=
  [3, 2, 1].findSome? fun n => Token.Operator.ofSpelling? (String.ofList (cs.take n))

def wordForm (word : List Char) : Form :=
  match Token.Keyword.ofSpelling? (String.ofList word) with
  | some k => .token (.keyword k) none
  | none => .token .name (some (String.ofList word))

/-- The lexeme at the start of a text that is neither blank nor comment nor line end. -/
def solid (c : Char) (cs : List Char) : Lexeme :=
  match Literal.read (c :: cs) with
  | .closed l => ⟨.token .string (some (String.ofList l.body)), l.source⟩
  | .unclosed lead q => ⟨.fault .unterminatedString, lead ++ q.text⟩
  | .absent =>
    if startsNumber c cs then
      ⟨.token .number (some (String.ofList (c :: numberTail cs))), c :: numberTail cs⟩
    else if Text.isWordStart c then
      let word := c :: cs.takeWhile Text.isWordChar
      ⟨wordForm word, word⟩
    else match operator? (c :: cs) with
      | some o => ⟨.token (.op o) none, o.spelling.toList⟩
      | none => ⟨.fault (.unrecognized c), [c]⟩

def first (c : Char) (cs : List Char) : Lexeme :=
  if isBlank c then ⟨.blank, c :: cs.takeWhile isBlank⟩
  else if c = '#' then ⟨.comment, c :: cs.takeWhile (! isLineEnd ·)⟩
  else if isLineEnd c then ⟨.lineEnd, lineEnd (c :: cs)⟩
  else if c = '\\' && lineEnd cs != [] then ⟨.continuation, c :: lineEnd cs⟩
  else solid c cs

theorem lineEnd_ne_nil {c : Char} {cs : List Char} (h : isLineEnd c = true) :
    lineEnd (c :: cs) ≠ [] := by
  unfold lineEnd
  split <;> simp_all

theorem source_solid_ne_nil (c : Char) (cs : List Char) : (solid c cs).source ≠ [] := by
  unfold solid
  split
  · simp [Literal.source, Quote.text_ne_nil]
  · simp [Quote.text_ne_nil]
  · split
    · simp
    · split
      · simp
      · split
        · next o _ =>
          exact List.length_pos_iff.mp (String.length_toList ▸ o.length_spelling_pos)
        · simp

theorem source_first_ne_nil (c : Char) (cs : List Char) : (first c cs).source ≠ [] := by
  unfold first
  split
  · simp
  · split
    · simp
    · split
      · next h => exact lineEnd_ne_nil h
      · split
        · simp
        · exact source_solid_ne_nil c cs

end Lexeme

/-- The lexemes behind `passed` characters that belong to a lexeme already read. -/
def lexemesBehind (passed : Nat) : List Char → List Lexeme
  | [] => []
  | c :: cs =>
    match passed with
    | 0 => Lexeme.first c cs :: lexemesBehind ((Lexeme.first c cs).source.length - 1) cs
    | n + 1 => lexemesBehind n cs

def lexemes (text : List Char) : List Lexeme := lexemesBehind 0 text

@[simp] theorem lexemes_nil : lexemes [] = [] := rfl

theorem lexemesBehind_eq_drop (n : Nat) (text : List Char) :
    lexemesBehind n text = lexemes (text.drop n) := by
  induction text generalizing n with
  | nil => simp [lexemesBehind]
  | cons c cs ih =>
    cases n with
    | zero => rfl
    | succ n => simpa [lexemesBehind] using ih n

theorem lexemes_cons (c : Char) (cs : List Char) :
    lexemes (c :: cs) =
      Lexeme.first c cs :: lexemes ((c :: cs).drop (Lexeme.first c cs).source.length) := by
  have h := List.length_pos_iff.mpr (Lexeme.source_first_ne_nil c cs)
  rw [lexemes, lexemesBehind, lexemesBehind_eq_drop]
  cases hn : (Lexeme.first c cs).source.length with
  | zero => omega
  | succ n => simp

end GrammarForge
