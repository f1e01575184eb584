/-!
Text cut at a character. A line feed ends a line and opens the next one, so a text always has
one line more than it has line feeds.
-/

namespace GrammarForge
namespace Text

def consPiece (sep c : Char) : List (List Char) → List (List Char)
  | [] => if c = sep then [[], []] else [[c]]
  | piece :: rest => if c = sep then [] :: piece :: rest else (c :: piece) :: rest

/-- The pieces between separators, empty ones included. -/
def split (sep : Char) (cs : List Char) : List (List Char) := cs.foldr (consPiece sep) [[]]

def lines (s : String) : List String := (split '\n' s.toList).map String.ofList

def unlines (ls : List String) : String := "\n".intercalate ls

/-- The text up to its first line end; a carriage return counts only in front of a line feed. -/
def firstLine : List Char → List Char
  | [] => []
  | '\r' :: '\n' :: _ => []
  | c :: cs => if c = '\n' then [] else c :: firstLine cs

@[simp] theorem split_nil (sep : Char) : split sep [] = [[]] := rfl

@[simp] theorem split_cons (sep c : Char) (cs : List Char) :
    split sep (c :: cs) = consPiece sep c (split sep cs) := rfl

theorem split_ne_nil (sep : Char) (cs : List Char) : split sep cs ≠ [] := by
  cases cs with
  | nil => simp
  | cons c cs =>
    rw [split_cons]
    cases split sep cs <;> simp only [consPiece] <;> split <;> simp

theorem split_append (sep : Char) (cs ds : List Char) :
    split sep (cs ++ sep :: ds) = split sep cs ++ split sep ds := by
  induction cs with
  | nil =>
    obtain ⟨piece, rest, hrest⟩ := List.exists_cons_of_ne_nil (split_ne_nil sep ds)
    simp [hrest, consPiece]
  | cons c cs ih =>
    obtain ⟨piece, rest, hrest⟩ := List.exists_cons_of_ne_nil (split_ne_nil sep cs)
    rw [List.cons_append, split_cons, ih, split_cons, hrest, List.cons_append, consPiece, consPiece]
    split <;> rfl

theorem split_of_not_mem {sep : Char} {cs : List Char} (h : sep ∉ cs) : split sep cs = [cs] := by
  induction cs with
  | nil => rfl
  | cons c cs ih =>
    simp only [List.mem_cons, not_or] at h
    rw [split_cons, ih h.2, consPiece, if_neg (Ne.symm h.1)]

end Text
end GrammarForge
