/-!
Columns of plain text, measured in characters.
-/

namespace GrammarForge
namespace Text

def blanks (n : Nat) : String := String.ofList (List.replicate n ' ')

def padRight (width : Nat) (s : String) : String := s ++ blanks (width - s.length)

def padLeft (width : Nat) (s : String) : String := blanks (width - s.length) ++ s

end Text
end GrammarForge
