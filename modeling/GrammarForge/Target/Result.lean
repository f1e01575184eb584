import GrammarForge.Target.Style

/-!
What parser expressions stand for: the trees that they yield over the results of their parts.
-/

namespace GrammarForge

/-- The result of a parse. Parts stand for their own results. -/
inductive ResultTree where
  | part (name : String)
  | node (label? : Option String) (children : List ResultTree)

namespace ResultTree

def unnest? : Nat → ResultTree → Option (List ResultTree)
  | 0, t => some [t]
  | depth + 1, .node _ [left, right] => (left :: ·) <$> unnest? depth right
  | _ + 1, _ => none

end ResultTree

namespace Action

def onResult? : Action → ResultTree → Option ResultTree
  | .wrap label, t => some (.node (some label) [t])
  | .relabelPair label, .node _ [a, b] => some (.node (some label) [a, b])
  | .relabelPair _, _ => none
  | .relabel label, .node _ ts => some (.node (some label) ts)
  | .relabel _, .part _ => none
  | .flatten depth label, t => (t.unnest? depth).map (.node (some label))

end Action

mutual

/-- The results of an expression, one for each way to choose. A token is a part by its name. -/
def Expression.results : Expression → List ResultTree
  | .name bound => [.part bound]
  | .token _ label => [.part label]
  | .empty label => [.node (some label) []]
  | .reduce a x => x.results.filterMap a.onResult?
  | .seq label? xs => (Expression.resultsSeq xs).map (.node label?)
  | .alt xs => Expression.resultsAlt xs
termination_by structural x => x

def Expression.resultsSeq : List Expression → List (List ResultTree)
  | [] => [[]]
  | x :: xs => x.results.flatMap fun t => (Expression.resultsSeq xs).map (t :: ·)
termination_by structural xs => xs

def Expression.resultsAlt : List Expression → List ResultTree
  | [] => []
  | x :: xs => x.results ++ Expression.resultsAlt xs
termination_by structural xs => xs

end

end GrammarForge
