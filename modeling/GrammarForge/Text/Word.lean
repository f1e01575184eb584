import GrammarForge.Text.Alphabetic
import GrammarForge.Text.Lowercase
import GrammarForge.Text.Uppercase

/-!
Words: identifiers, their capital form, and the case of a name.
-/

namespace GrammarForge
namespace Text

def isWordStart (c : Char) : Bool := c.isAlpha || c == '_'

def isWordChar (c : Char) : Bool := c.isAlphanum || c == '_'

/-- ASCII letters in capitals, everything else as it is. -/
def upper (s : String) : String := String.ofList (s.toList.map Char.toUpper)

/-- A letter, then letters, digits and underscores, all of them ASCII. -/
def isIdentifier (s : String) : Bool :=
  match s.toList with
  | [] => false
  | c :: cs => c.isAlpha && cs.all isWordChar

def letters (s : String) : List Char := s.toList.filter isAlphabetic

/-- At least one letter, and every letter is of the given case. -/
def isCased (case : Char → Bool) (s : String) : Bool :=
  !(letters s).isEmpty && (letters s).all case

def isUpperWord (s : String) : Bool := isCased isUppercase s

def isLowerWord (s : String) : Bool := isCased isLowercase s

end Text
end GrammarForge
