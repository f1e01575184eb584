import GrammarForge.Lexeme.Layout
import GrammarForge.Problem

/-!
The tokens of a text.
-/

namespace GrammarForge

/-- A strict reader stops at the first fault, a lenient one passes over faults. -/
inductive Mode where
  | strict
  | lenient
deriving DecidableEq, Repr

def events (text : String) : List Event := Layout.start.events .start (lexemes text.toList)

def Mode.collect (mode : Mode) : List Event → Except Problem (List Token)
  | [] => .ok []
  | .token t :: es => (mode.collect es).map (t :: ·)
  | .fault p f :: es =>
    match mode with
    | .strict => .error (.lexical p f)
    | .lenient => mode.collect es

def tokens (mode : Mode) (text : String) : Except Problem (List Token) :=
  mode.collect (events text)

end GrammarForge
