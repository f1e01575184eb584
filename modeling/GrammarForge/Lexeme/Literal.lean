/-!
String literals: up to two prefix letters, an opening quote of one or three marks, a body, and
the same quote again. A backslash hides the character behind it from the search for the closing
quote; a literal in single quotes ends with its line.
-/

namespace GrammarForge

structure Quote where
  mark : Char
  triple : Bool
deriving DecidableEq, Repr

structure Literal where
  lead : List Char
  quote : Quote
  body : List Char
deriving DecidableEq, Repr

namespace Quote

def text (q : Quote) : List Char := if q.triple then [q.mark, q.mark, q.mark] else [q.mark]

/-- The quote a text opens with. Three marks win over one. -/
def opening? : List Char → Option Quote
  | [] => none
  | c :: cs =>
    if c = '\x27' || c = '\x22' then some ⟨c, [c, c].isPrefixOf cs⟩ else none

theorem text_ne_nil (q : Quote) : q.text ≠ [] := by
  unfold text
  split <;> simp

end Quote

namespace Literal

def isLeadLetter (c : Char) : Bool :=
  ['r', 'R', 'b', 'B', 'u', 'U', 'f', 'F'].contains c

def leadLetters (cs : List Char) : List Char := (cs.take 2).takeWhile isLeadLetter

/-- The text in front of the first closing quote that no backslash hides. -/
def body? (q : Quote) : List Char → Option (List Char)
  | [] => none
  | c :: cs =>
    if c = '\\' then
      match cs with
      | [] => none
      | d :: rest => (body? q rest).map fun b => c :: d :: b
    else if q.text.isPrefixOf (c :: cs) then some []
    else if c = '\n' && !q.triple then none
    else (body? q cs).map (c :: ·)

/-- What a text starts with: a literal, one that is never closed, or something else. -/
inductive Reading where
  | closed (l : Literal)
  | unclosed (lead : List Char) (q : Quote)
  | absent
deriving DecidableEq, Repr

def read (cs : List Char) : Reading :=
  let lead := leadLetters cs
  let rest := cs.drop lead.length
  match Quote.opening? rest with
  | none => .absent
  | some q =>
    match body? q (rest.drop q.text.length) with
    | some b => .closed ⟨lead, q, b⟩
    | none => .unclosed lead q

def source (l : Literal) : List Char := l.lead ++ l.quote.text ++ l.body ++ l.quote.text

end Literal
end GrammarForge
