import GrammarForge.Lexeme.Basic
import GrammarForge.Token.Basic

/-!
Layout by indentation. Line ends inside brackets and lines without a token do not count; at the
start of any other line a change of indentation is marked by tokens of its own.

The lexemes of a text become events, tokens and faults in reading order. Whether a fault ends the
reading or is passed over is not decided here, so the tokens in front of a first fault are the
same either way.
-/

namespace GrammarForge

inductive Event where
  | token (t : Token)
  | fault (position : Position) (fault : Fault)
deriving DecidableEq, Repr

structure Layout where
  /-- Widths of the open indentations, the innermost first. The outermost level, zero, is left
  out. -/
  indents : List Nat
  /-- Open brackets. -/
  depth : Nat
  /-- The current line holds a token. -/
  lineOpen : Bool
  /-- The width of the blanks read so far, as long as a line has shown nothing else. -/
  margin? : Option Nat
deriving DecidableEq, Repr

namespace Layout

def start : Layout := ⟨[], 0, false, some 0⟩

/-- The width behind one more blank: a tab goes on to the next multiple of eight, a form feed
starts again. -/
def widen (w : Nat) (c : Char) : Nat :=
  if c = '\t' then (w / 8 + 1) * 8 else if c = '\x0c' then 0 else w + 1

def width (blank : List Char) : Nat := blank.foldl widen 0

/-- Start a line at the given width: open an indentation, or close all that are wider. A width
that is none of the open ones is a fault and becomes a level of its own. -/
def settle (s : Layout) (w : Nat) (p : Position) : Layout × List Event :=
  if s.indents.headD 0 < w then
    ({ s with indents := w :: s.indents, margin? := none }, [.token ⟨.indent, none, p⟩])
  else
    let inner := s.indents.takeWhile (w < ·)
    let outer := s.indents.dropWhile (w < ·)
    let closed := inner.map fun _ => Event.token ⟨.dedent, none, p⟩
    if outer.headD 0 = w then ({ s with indents := outer, margin? := none }, closed)
    else
      ({ s with indents := w :: outer, margin? := none }, closed ++ [.fault p .unmatchedDedent])

def newline (s : Layout) (p : Position) : List Event :=
  if s.lineOpen then [.token ⟨.newline, none, p⟩] else []

/-- The number of open brackets behind a token. A closing bracket without an opening one does
not count. -/
def nest (depth : Nat) (k : Token.Kind) : Nat :=
  if k.opens then depth + 1 else if k.closes then depth - 1 else depth

def inLine (s : Layout) (p : Position) : Lexeme.Form → Layout × List Event
  | .blank | .comment | .continuation => (s, [])
  | .lineEnd =>
    if s.depth = 0 then ({ s with lineOpen := false, margin? := some 0 }, s.newline p)
    else (s, [])
  | .token k text? =>
    ({ s with depth := nest s.depth k, lineOpen := true }, [.token ⟨k, text?, p⟩])
  | .fault f => (s, [.fault p f])

def step (s : Layout) (p : Position) (l : Lexeme) : Layout × List Event :=
  match s.margin? with
  | none => s.inLine p l.form
  | some w =>
    match l.form with
    | .blank => ({ s with margin? := some (width l.source) }, [])
    | .comment => (s, [])
    | .lineEnd => ({ s with margin? := some 0 }, [])
    | form =>
      let (settled, events) := s.settle w p
      let (after, more) := settled.inLine p form
      (after, events ++ more)

/-- The end of a text closes the line and every indentation. -/
def close (s : Layout) (p : Position) : List Event :=
  s.newline p ++ (s.indents.map fun _ => .token ⟨.dedent, none, p⟩) ++
    [.token ⟨.endMarker, none, p⟩]

def events (s : Layout) (p : Position) : List Lexeme → List Event
  | [] => s.close p
  | l :: ls =>
    let (after, now) := s.step p l
    now ++ after.events (p.behind l.source) ls

end Layout
end GrammarForge
