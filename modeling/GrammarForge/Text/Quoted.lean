import GrammarForge.Text.Combining
import GrammarForge.Text.Hidden

/-!
Characters and strings as messages show them: between quotes, with everything a reader could
not see or would misread written as an escape.
-/

namespace GrammarForge
namespace Text

/-- A code point by its number, in lower-case hexadecimal between braces. -/
def byNumber (c : Char) : String :=
  "\\u\x7b" ++ String.ofList (Nat.toDigits 16 c.toNat) ++ "\x7d"

def escape (quote c : Char) : String :=
  if c = '\x00' then "\\0"
  else if c = '\t' then "\\t"
  else if c = '\r' then "\\r"
  else if c = '\n' then "\\n"
  else if c = '\\' || c = quote then "\\" ++ String.singleton c
  else if isCombining c || isHidden c then byNumber c
  else String.singleton c

def quotedChar (c : Char) : String := "'" ++ escape '\x27' c ++ "'"

def quotedString (s : String) : String :=
  "\"" ++ String.join (s.toList.map (escape '\x22')) ++ "\""

end Text
end GrammarForge
