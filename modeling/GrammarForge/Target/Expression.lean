/-!
Parser expressions as combinator libraries build them.

A library with n-ary nodes writes a production as one labelled sequence. Where sequences are
binary or carry no label, a reduction around them puts the label on the result.
-/

namespace GrammarForge

inductive Action where
  /-- Put one result under a label. -/
  | wrap (label : String)
  /-- Give the pair of results of a sequence a label. -/
  | relabelPair (label : String)
  /-- Give the results of a sequence a label. -/
  | relabel (label : String)
  /-- Put the leaves of `depth` nested pairs under one label. -/
  | flatten (depth : Nat) (label : String)
deriving DecidableEq, Repr

inductive Expression where
  | name (bound : String)
  | token (tag : Nat) (name : String)
  | empty (label : String)
  | reduce (action : Action) (child : Expression)
  | seq (label? : Option String) (children : List Expression)
  | alt (children : List Expression)

namespace Expression

/-- Pairs nested to the right, with a label for each pair by its place. -/
def nestSeq (label? : Nat → Option String) (i : Nat) (x : Expression) :
    List Expression → Expression
  | [] => x
  | y :: rest => .seq (label? i) [x, nestSeq label? (i + 1) y rest]

def nestAlt (x : Expression) : List Expression → Expression
  | [] => x
  | y :: rest => .alt [x, nestAlt y rest]

end Expression

/-- How a library arranges the parts of a production and the productions of a rule. -/
inductive Arrangement where
  /-- One labelled sequence of all parts. -/
  | labelled
  /-- Labelled pairs. -/
  | labelledPairs
  /-- An unlabelled sequence of all parts under a reduction. -/
  | reduced
  /-- Unlabelled pairs under a reduction. -/
  | reducedPairs
deriving DecidableEq, Repr

namespace Arrangement

def pairLabel (label : String) (i : Nat) : String := "BINRED-" ++ toString i ++ "-" ++ label

def production (label : String) : Arrangement → List Expression → Expression
  | .labelled, parts => .seq (some label) parts
  | _, [] => .empty label
  | _, [x] => .reduce (.wrap label) x
  | .labelledPairs, [x, y] => .seq (some label) [x, y]
  | .labelledPairs, x :: y :: rest =>
    .reduce (.flatten (rest.length + 1) label)
      (.nestSeq (fun i => some (pairLabel label i)) 1 x (y :: rest))
  | .reducedPairs, [x, y] => .reduce (.relabelPair label) (.seq none [x, y])
  | .reducedPairs, x :: y :: rest =>
    .reduce (.flatten (rest.length + 1) label) (.nestSeq (fun _ => none) 1 x (y :: rest))
  | .reduced, parts => .reduce (.relabel label) (.seq none parts)

/-- The choice between productions. A single production stands for itself. -/
def choice : Arrangement → List Expression → Expression
  | _, [x] => x
  | .labelled, xs => .alt xs
  | .reduced, xs => .alt xs
  | _, x :: rest => .nestAlt x rest
  | _, [] => .alt []

end Arrangement
end GrammarForge
