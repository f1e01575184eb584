import GrammarForge.Target.Basic
import GrammarForge.Target.Expression

/-!
How combinator libraries spell their nodes.
-/

namespace GrammarForge

namespace Action

/-- The function of a reduction; `tree` is the constructor of the results. -/
def text (tree : String) : Action → String
  | .wrap label => s!"fun t -> Pyast.{tree} (\"{label}\", [t])"
  | .relabelPair label =>
    s!"fun (Pyast.{tree} (_, [t1; t2])) -> Pyast.{tree} (\"{label}\", [t1; t2])"
  | .relabel label => s!"fun (Pyast.{tree} (_, ts)) -> Pyast.{tree} (\"{label}\", ts)"
  | .flatten depth label => s!"Pyast.flatten_binary_seqs {depth} \"{label}\""

def argument (tree : String) (a : Action) : String :=
  match a with
  | .flatten .. => a.text tree
  | _ => "(" ++ a.text tree ++ ")"

end Action

/-- The spelling of each kind of node, given the spelling of its children. A library that has
no node of its own for the empty sequence writes a sequence of nothing, and one without
reductions leaves them out. -/
structure Style where
  token : Nat → String → String
  seq : Option String → List String → String
  alt : List String → String
  empty : String → String := fun label => seq (some label) []
  reduce : Action → String → String := fun _ x => x

namespace Style

def quote (s : String) : String := "\"" ++ s ++ "\""

def bracketed (xs : List String) : String := "[ " ++ "; ".intercalate xs ++ " ]"

/-- A constructor with its arguments; only a single argument needs no parentheses. -/
def apply (constructor : String) : List String → String
  | [x] => constructor ++ " " ++ x
  | xs => constructor ++ " (" ++ ", ".intercalate xs ++ ")"

def lazyLeaf (tree label : String) : String := s!"(lazy [Pyast.{tree} (\"{label}\", [])])"

/-- Nodes are constructors applied to arguments, each inside `enclose`. -/
def constructors (tree : String) (enclose leaf : String → String)
    (children choices : List String → List String) : Style where
  token tag name := enclose (apply "Tok" [toString tag, quote name])
  seq label? xs := enclose (apply "Seq" (label?.toList.map quote ++ children xs))
  alt xs := enclose (apply "Alt" (choices xs))
  empty label := enclose (apply "Eps" [leaf label])
  reduce a x := enclose (apply "Red" [a.argument tree, x])

/-- Nodes are built by functions, of which there are only these three. -/
def functions : Style where
  token tag name := "make_tok (" ++ toString tag ++ ", " ++ quote name ++ ")"
  seq label? xs := " ".intercalate ("make_seq" :: label?.toList.map quote ++ [bracketed xs])
  alt xs := "make_alt " ++ bracketed xs

def filler : String :=
  "nullable = Nullable_unvisited; listeners = []; key = false_token; value = false_node; ast = []"

def record (tag fields : String) : String :=
  "\x7b tag = " ++ tag ++ "; " ++ fields ++ "; " ++ filler ++ " \x7d"

def records (tree : String) (fields : List String → String) : Style where
  token tag name := "make_token_node (fun c -> fst c == " ++ toString tag ++ ") " ++ quote name
  seq _ xs := record "Seq_tag" (fields xs)
  alt xs := record "Alt_tag" (fields xs)
  empty label := "make_eps_node " ++ lazyLeaf tree label
  reduce a x := record ("Red_tag (List.map (" ++ a.text tree ++ "))") (fields [x])

def childFields (xs : List String) : String :=
  "child1 = " ++ xs.head?.getD "false_node" ++
    "; child2 = " ++ xs.tail.head?.getD "false_node"

def childrenField (xs : List String) : String := "children = " ++ bracketed xs

def memo (x : String) : String := "\x7b m = m_bottom; e' = " ++ x ++ " \x7d"

def delayed (x : String) : String := "lazy (" ++ x ++ ")"

end Style

namespace Library

def style : Library → Style
  | .pwzNary => .constructors "Ast" id Style.quote (fun xs => [Style.bracketed xs])
      (fun xs => ["(ref " ++ Style.bracketed xs ++ ")"])
  | .pwzNaryList => .constructors "Ast" Style.memo Style.quote (fun xs => [Style.bracketed xs])
      (fun xs => ["(ref " ++ Style.bracketed xs ++ ")"])
  | .pwzNaryLook => .functions
  | .pwzBinary => .constructors "Ast" Style.memo Style.quote id
      (List.map fun x => "ref (Some " ++ x ++ ")")
  | .pwdBinary => .constructors "Seq" Style.delayed (Style.lazyLeaf "Seq") id id
  | .pwdBinaryOpt => .records "Seq" Style.childFields
  | .pwdNary => .constructors "Seq" Style.delayed (Style.lazyLeaf "Seq")
      (fun xs => [Style.bracketed xs]) (fun xs => [Style.bracketed xs])
  | .pwdNaryOpt => .records "Ast" Style.childrenField

def arrangement : Library → Arrangement
  | .pwzNary | .pwzNaryList | .pwzNaryLook | .pwdNary => .labelled
  | .pwzBinary | .pwdBinary => .labelledPairs
  | .pwdBinaryOpt => .reducedPairs
  | .pwdNaryOpt => .reduced

end Library

mutual

def Expression.render (s : Style) : Expression → String
  | .name bound => bound
  | .token tag label => s.token tag label
  | .empty label => s.empty label
  | .reduce a x => s.reduce a (x.render s)
  | .seq label? xs => s.seq label? (Expression.renderList s xs)
  | .alt xs => s.alt (Expression.renderList s xs)
termination_by structural x => x

def Expression.renderList (s : Style) : List Expression → List String
  | [] => []
  | x :: xs => x.render s :: Expression.renderList s xs
termination_by structural xs => xs

end

theorem Expression.renderList_eq_map (s : Style) (xs : List Expression) :
    Expression.renderList s xs = xs.map (Expression.render s) := by
  induction xs with
  | nil => rfl
  | cons x xs ih => simp [Expression.renderList, ih]

end GrammarForge
