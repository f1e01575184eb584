import GrammarForge.Text.Lines
import GrammarForge.Text.Quoted

/-!
What can be wrong with a piece of text.
-/

namespace GrammarForge

inductive Wanted where
  | tag
  | character
  | digit
  | letter
deriving DecidableEq, Repr

inductive Fault where
  | unrecognized (c : Char)
  | unterminatedString
  | unmatchedDedent
  | incomplete
  | mismatch (wanted : Wanted) (rest : String)
deriving DecidableEq, Repr

namespace Wanted

def describe : Wanted → String
  | .tag => "Tag"
  | .character => "Char"
  | .digit => "Digit"
  | .letter => "Alphabetic"

end Wanted

namespace Fault

def message : Fault → String
  | .unrecognized c => "unrecognized character " ++ Text.quotedChar c
  | .unterminatedString => "unterminated string literal"
  | .unmatchedDedent => "unindent does not match any outer indentation level"
  | .incomplete => "incomplete input"
  | .mismatch wanted rest =>
    wanted.describe ++ " near " ++
      Text.quotedString (String.ofList (Text.firstLine rest.toList))

end Fault
end GrammarForge
