import GrammarForge.Target.BindingGroup
import GrammarForge.Target.Result
import Mathlib.Data.List.Forall2

/-!
What the expressions of the libraries stand for. The notation of a node is given by one rule for
each way to write it, whatever library it belongs to. Read by these rules, a production is one node
with its label over its parts, and an alternation is its productions in order, however a library
nests them.
-/

namespace GrammarForge

/-- The text of a function on results; `tree` is the constructor of the results. -/
inductive Action.Written (tree : String) : String → Action → Prop
  | wrap (label : String) :
    Written tree s!"fun t -> Pyast.{tree} (\"{label}\", [t])" (.wrap label)
  | relabelPair (label : String) :
    Written tree s!"fun (Pyast.{tree} (_, [t1; t2])) -> Pyast.{tree} (\"{label}\", [t1; t2])"
      (.relabelPair label)
  | relabel (label : String) :
    Written tree s!"fun (Pyast.{tree} (_, ts)) -> Pyast.{tree} (\"{label}\", ts)" (.relabel label)
  | flatten (depth : Nat) (label : String) :
    Written tree s!"Pyast.flatten_binary_seqs {depth} \"{label}\"" (.flatten depth label)

def listed (texts : List String) : String := "; ".intercalate texts

/-- A record of a node: the field of its kind, those of its children, and the rest. -/
def nodeRecord (kind children : String) : String :=
  "\x7b tag = " ++ kind ++ "; " ++ children ++
    "; nullable = Nullable_unvisited; listeners = []; " ++
    "key = false_token; value = false_node; ast = [] \x7d"

/-- Expressions and their texts. There is one rule for each way to write a node; a name is one of
the parts. -/
inductive Expression.Written (isPart : String → Prop) (tree : String) :
    List String → List Expression → Prop
  | nil : Written isPart tree [] []
  | cons {s x ts xs} : Written isPart tree [s] [x] → Written isPart tree ts xs →
    Written isPart tree (s :: ts) (x :: xs)
  | name {bound} : isPart bound → Written isPart tree [bound] [.name bound]
  -- around a node
  | memo {s x} : Written isPart tree [s] [x] →
    Written isPart tree ["\x7b m = m_bottom; e' = " ++ s ++ " \x7d"] [x]
  | delayed {s x} : Written isPart tree [s] [x] → Written isPart tree [s!"lazy ({s})"] [x]
  -- tokens
  | tok (tag name) : Written isPart tree [s!"Tok ({tag}, \"{name}\")"] [.token tag name]
  | makeTok (tag name) : Written isPart tree [s!"make_tok ({tag}, \"{name}\")"] [.token tag name]
  | tokNode (tag name) :
    Written isPart tree [s!"make_token_node (fun c -> fst c == {tag}) \"{name}\""] [.token tag name]
  -- the empty sequence
  | eps (label) : Written isPart tree [s!"Eps \"{label}\""] [.empty label]
  | epsLeaf (label) :
    Written isPart tree [s!"Eps (lazy [Pyast.{tree} (\"{label}\", [])])"] [.empty label]
  | epsNode (label) :
    Written isPart tree [s!"make_eps_node (lazy [Pyast.{tree} (\"{label}\", [])])"] [.empty label]
  -- reductions
  | red {f a s x} : Action.Written tree f a → Written isPart tree [s] [x] →
    Written isPart tree [s!"Red (({f}), {s})"] [.reduce a x]
  | redFlatten {depth label s x} : Written isPart tree [s] [x] →
    Written isPart tree [s!"Red (Pyast.flatten_binary_seqs {depth} \"{label}\", {s})"]
      [.reduce (.flatten depth label) x]
  | redChild {f a s x} : Action.Written tree f a → Written isPart tree [s] [x] →
    Written isPart tree
      [nodeRecord s!"Red_tag (List.map ({f}))" s!"child1 = {s}; child2 = false_node"]
      [.reduce a x]
  | redChildren {f a s x} : Action.Written tree f a → Written isPart tree [s] [x] →
    Written isPart tree [nodeRecord s!"Red_tag (List.map ({f}))" s!"children = [ {s} ]"]
      [.reduce a x]
  -- sequences
  | seqPair {label s t xs} : Written isPart tree [s, t] xs →
    Written isPart tree [s!"Seq (\"{label}\", {s}, {t})"] [.seq (some label) xs]
  | seqList {label ts xs} : Written isPart tree ts xs →
    Written isPart tree [s!"Seq (\"{label}\", [ {listed ts} ])"] [.seq (some label) xs]
  | makeSeq {label ts xs} : Written isPart tree ts xs →
    Written isPart tree [s!"make_seq \"{label}\" [ {listed ts} ]"] [.seq (some label) xs]
  | seqChild {s t xs} : Written isPart tree [s, t] xs →
    Written isPart tree [nodeRecord "Seq_tag" s!"child1 = {s}; child2 = {t}"] [.seq none xs]
  | seqChildren {ts xs} : Written isPart tree ts xs →
    Written isPart tree [nodeRecord "Seq_tag" s!"children = [ {listed ts} ]"] [.seq none xs]
  -- choices
  | altPair {s t xs} : Written isPart tree [s, t] xs →
    Written isPart tree [s!"Alt ({s}, {t})"] [.alt xs]
  | altRefs {s t xs} : Written isPart tree [s, t] xs →
    Written isPart tree [s!"Alt (ref (Some {s}), ref (Some {t}))"] [.alt xs]
  | altList {ts xs} : Written isPart tree ts xs →
    Written isPart tree [s!"Alt [ {listed ts} ]"] [.alt xs]
  | altRef {ts xs} : Written isPart tree ts xs →
    Written isPart tree [s!"Alt (ref [ {listed ts} ])"] [.alt xs]
  | makeAlt {ts xs} : Written isPart tree ts xs →
    Written isPart tree [s!"make_alt [ {listed ts} ]"] [.alt xs]
  | altChild {s t xs} : Written isPart tree [s, t] xs →
    Written isPart tree [nodeRecord "Alt_tag" s!"child1 = {s}; child2 = {t}"] [.alt xs]
  | altChildren {ts xs} : Written isPart tree ts xs →
    Written isPart tree [nodeRecord "Alt_tag" s!"children = [ {listed ts} ]"] [.alt xs]

namespace Arrangement

def isBinary : Arrangement → Bool
  | .labelledPairs | .reducedPairs => true
  | .labelled | .reduced => false

/-- Whether the label of a sequence is part of its node. -/
def isLabelled : Arrangement → Bool
  | .labelled | .labelledPairs => true
  | .reduced | .reducedPairs => false

def pairLabel? (a : Arrangement) (label : String) (i : Nat) : Option String :=
  if a.isLabelled then some (pairLabel label i) else none

theorem production_cases {P : Expression → Prop} (a : Arrangement) (label : String)
    (parts : List String)
    (hseq : a.isLabelled = true → (a.isBinary = true → parts.length = 2) →
      P (.seq (some label) (parts.map .name)))
    (hempty : a ≠ .labelled → parts = [] → P (.empty label))
    (hwrap : ∀ p, a ≠ .labelled → parts = [p] → P (.reduce (.wrap label) (.name p)))
    (hrelabelPair : ∀ p q, a = .reducedPairs → parts = [p, q] →
      P (.reduce (.relabelPair label) (.seq none [.name p, .name q])))
    (hrelabel : a = .reduced → P (.reduce (.relabel label) (.seq none (parts.map .name))))
    (hflatten : ∀ p q rest, a.isBinary = true → parts = p :: q :: rest →
      P (.reduce (.flatten (q :: rest).length label)
        (.nestSeq (a.pairLabel? label) 1 (.name p) ((q :: rest).map .name)))) :
    P (a.production label (parts.map .name)) := by
  have hflatten' : ∀ p q r rest, a.isBinary = true → parts = p :: q :: r :: rest →
      P (.reduce (.flatten (((r :: rest).map Expression.name).length + 1) label)
        (.nestSeq (a.pairLabel? label) 1 (.name p) ((q :: r :: rest).map .name))) := by
    intro p q r rest ha hparts
    have hlength : ((r :: rest).map Expression.name).length + 1 = (q :: r :: rest).length := by
      simp
    rw [hlength]
    exact hflatten p q (r :: rest) ha hparts
  cases a with
  | labelled => exact hseq rfl nofun
  | labelledPairs =>
    match parts with
    | [] => exact hempty nofun rfl
    | [p] => exact hwrap p nofun rfl
    | [p, q] => exact hseq rfl fun _ => rfl
    | p :: q :: r :: rest => exact hflatten' p q r rest rfl rfl
  | reduced =>
    match parts with
    | [] => exact hempty nofun rfl
    | [p] => exact hwrap p nofun rfl
    | p :: q :: rest => exact hrelabel rfl
  | reducedPairs =>
    match parts with
    | [] => exact hempty nofun rfl
    | [p] => exact hwrap p nofun rfl
    | [p, q] => exact hrelabelPair p q rfl rfl
    | p :: q :: r :: rest => exact hflatten' p q r rest rfl rfl

theorem choice_cases {P : List Expression → Expression → Prop} (a : Arrangement)
    (xs : List Expression) (hone : ∀ x, P [x] x) (halt : ∀ xs, P xs (.alt xs))
    (hnest : ∀ x rest, P (x :: rest) (.nestAlt x rest)) : P xs (a.choice xs) := by
  match xs with
  | [] => cases a <;> exact halt []
  | [x] => cases a <;> exact hone x
  | x :: y :: rest =>
    cases a with
    | labelled => exact halt _
    | reduced => exact halt _
    | labelledPairs => exact hnest x _
    | reducedPairs => exact hnest x _

end Arrangement

mutual

/-- An expression of parts and of the nodes that an arrangement puts together. -/
def Expression.Fits (isPart : String → Prop) (a : Arrangement) : Expression → Prop
  | .name bound => isPart bound
  | .token .. => True
  | .empty _ => a ≠ .labelled
  | .reduce _ x => a ≠ .labelled ∧ x.Fits isPart a
  | .seq label? xs =>
    label?.isSome = a.isLabelled ∧ (a.isBinary → xs.length = 2) ∧ Expression.FitsAll isPart a xs
  | .alt xs => (a.isBinary → xs.length = 2) ∧ Expression.FitsAll isPart a xs
termination_by structural x => x

def Expression.FitsAll (isPart : String → Prop) (a : Arrangement) : List Expression → Prop
  | [] => True
  | x :: xs => x.Fits isPart a ∧ Expression.FitsAll isPart a xs
termination_by structural xs => xs

end

/-- A style writes the nodes of an arrangement as the notation has them. -/
structure Style.Faithful (style : Style) (isPart : String → Prop) (tree : String)
    (a : Arrangement) : Prop where
  token : ∀ tag name, Expression.Written isPart tree [style.token tag name] [.token tag name]
  empty : a ≠ .labelled → ∀ label, Expression.Written isPart tree [style.empty label] [.empty label]
  reduce : a ≠ .labelled → ∀ action {s x}, Expression.Written isPart tree [s] [x] →
    Expression.Written isPart tree [style.reduce action s] [.reduce action x]
  seq : ∀ {label? ts xs}, label?.isSome = a.isLabelled → (a.isBinary → ts.length = 2) →
    Expression.Written isPart tree ts xs →
    Expression.Written isPart tree [style.seq label? ts] [.seq label? xs]
  alt : ∀ {ts xs}, (a.isBinary → ts.length = 2) → Expression.Written isPart tree ts xs →
    Expression.Written isPart tree [style.alt ts] [.alt xs]

section Styles

variable {isPart : String → Prop} {tree : String} {a : Arrangement}

theorem Expression.Written.of_eq {s t : String} {xs : List Expression}
    (h : Written isPart tree [s] xs) (he : t.toList = s.toList) : Written isPart tree [t] xs :=
  String.toList_inj.mp he ▸ h

theorem Expression.Written.length_eq {ts : List String} {xs : List Expression}
    (h : Written isPart tree ts xs) : ts.length = xs.length := by
  induction h with
  | cons _ _ _ ih => simp [ih]
  | _ => rfl

theorem Action.written_text (action : Action) : Action.Written tree (action.text tree) action := by
  cases action with
  | wrap label => exact .wrap label
  | relabelPair label => exact .relabelPair label
  | relabel label => exact .relabel label
  | flatten depth label => exact .flatten depth label

namespace Style

theorem faithful_constructors {enclose leaf : String → String}
    {children choices : List String → List String} (ha : a.isLabelled = true)
    (henclose : ∀ {s x}, Expression.Written isPart tree [s] [x] →
      Expression.Written isPart tree [enclose s] [x])
    (hleaf : ∀ label, Expression.Written isPart tree ["Eps " ++ leaf label] [.empty label])
    (hseq : ∀ {label ts xs}, (a.isBinary → ts.length = 2) → Expression.Written isPart tree ts xs →
      Expression.Written isPart tree [apply "Seq" (quote label :: children ts)]
        [.seq (some label) xs])
    (halt : ∀ {ts xs}, (a.isBinary → ts.length = 2) → Expression.Written isPart tree ts xs →
      Expression.Written isPart tree [apply "Alt" (choices ts)] [.alt xs]) :
    (constructors tree enclose leaf children choices).Faithful isPart tree a where
  token tag name := henclose ((Expression.Written.tok tag name).of_eq (by
    simp [apply, quote, toString]))
  empty _ label := henclose (hleaf label)
  reduce _ action {s x} hx := by
    refine henclose ?_
    have hred := (Expression.Written.red (Action.written_text action) hx).of_eq (by
      show (apply "Red" ["(" ++ action.text tree ++ ")", s]).toList = _
      simp [apply, toString])
    cases action with
    | flatten depth label =>
      refine (Expression.Written.redFlatten hx).of_eq ?_
      show (apply "Red" [s!"Pyast.flatten_binary_seqs {depth} \"{label}\"", s]).toList = _
      simp [apply, toString]
    | _ => exact hred
  seq {label? ts xs} hlabel hxs h := by
    rw [ha] at hlabel
    obtain ⟨label, rfl⟩ := Option.isSome_iff_exists.mp hlabel
    exact henclose (hseq hxs h)
  alt hxs h := henclose (halt hxs h)

theorem faithful_functions : functions.Faithful isPart tree .labelled where
  token tag name := (Expression.Written.makeTok tag name).of_eq (by
    simp [functions, quote, toString])
  empty h := absurd rfl h
  reduce h := absurd rfl h
  seq {label? ts xs} hlabel hxs h := by
    obtain ⟨label, rfl⟩ := Option.isSome_iff_exists.mp hlabel
    exact (Expression.Written.makeSeq h).of_eq (by
      simp [functions, quote, bracketed, listed, toString])
  alt hxs h := (Expression.Written.makeAlt h).of_eq (by
    simp [functions, bracketed, listed, toString])

theorem record_eq (kind children : String) : record kind children = nodeRecord kind children := by
  apply String.toList_inj.mp
  simp [record, nodeRecord, filler]

theorem childFields_one (s : String) :
    childFields [s] = s!"child1 = {s}; child2 = false_node" := by
  apply String.toList_inj.mp
  simp [childFields, toString]

theorem childFields_two (s t : String) :
    childFields [s, t] = s!"child1 = {s}; child2 = {t}" := by
  apply String.toList_inj.mp
  simp [childFields, toString]

theorem childrenField_eq (ts : List String) :
    childrenField ts = s!"children = [ {listed ts} ]" := by
  apply String.toList_inj.mp
  simp [childrenField, bracketed, listed, toString]

theorem faithful_records {fields : List String → String} (ha : a.isLabelled = false)
    (hred : ∀ {action s x}, Expression.Written isPart tree [s] [x] →
      Expression.Written isPart tree
        [nodeRecord s!"Red_tag (List.map ({action.text tree}))" (fields [s])]
        [.reduce action x])
    (hseq : ∀ {ts xs}, (a.isBinary → ts.length = 2) → Expression.Written isPart tree ts xs →
      Expression.Written isPart tree [nodeRecord "Seq_tag" (fields ts)] [.seq none xs])
    (halt : ∀ {ts xs}, (a.isBinary → ts.length = 2) → Expression.Written isPart tree ts xs →
      Expression.Written isPart tree [nodeRecord "Alt_tag" (fields ts)] [.alt xs]) :
    (records tree fields).Faithful isPart tree a where
  token tag name := by
    refine (Expression.Written.tokNode tag name).of_eq ?_
    show ("make_token_node (fun c -> fst c == " ++ toString tag ++ ") " ++ quote name).toList = _
    simp [quote, toString]
  empty _ label := by
    refine (Expression.Written.epsNode label).of_eq ?_
    show ("make_eps_node " ++ lazyLeaf tree label).toList = _
    simp [lazyLeaf, toString]
  reduce _ action {s x} hx := by
    have hkind : "Red_tag (List.map (" ++ action.text tree ++ "))" =
        s!"Red_tag (List.map ({action.text tree}))" := rfl
    show Expression.Written isPart tree
      [record ("Red_tag (List.map (" ++ action.text tree ++ "))") (fields [s])] _
    rw [record_eq, hkind]
    exact hred hx
  seq {label? ts xs} hlabel hxs h := by
    rw [ha, Option.isSome_eq_false_iff, Option.isNone_iff_eq_none] at hlabel
    subst hlabel
    show Expression.Written isPart tree [record "Seq_tag" (fields ts)] _
    rw [record_eq]
    exact hseq hxs h
  alt {ts xs} hxs h := by
    show Expression.Written isPart tree [record "Alt_tag" (fields ts)] _
    rw [record_eq]
    exact halt hxs h

end Style

end Styles

namespace Library

def tree : Library → String
  | .pwzNary | .pwzNaryList | .pwzNaryLook | .pwzBinary | .pwdNaryOpt => "Ast"
  | .pwdBinary | .pwdBinaryOpt | .pwdNary => "Seq"

/-- Every library writes its nodes as the notation has them. -/
theorem faithful_style (l : Library) (isPart : String → Prop) :
    l.style.Faithful isPart l.tree l.arrangement := by
  have hname : ∀ {tree} label, Expression.Written isPart tree ["Eps " ++ Style.quote label]
      [.empty label] := fun label =>
    (Expression.Written.eps label).of_eq (by simp [Style.quote, toString])
  have hleaf : ∀ {tree} label, Expression.Written isPart tree ["Eps " ++ Style.lazyLeaf tree label]
      [.empty label] := fun label =>
    (Expression.Written.epsLeaf label).of_eq (by simp [Style.lazyLeaf, toString])
  have hlist : ∀ {tree label ts xs}, Expression.Written isPart tree ts xs →
      Expression.Written isPart tree [Style.apply "Seq" [Style.quote label, Style.bracketed ts]]
        [.seq (some label) xs] := fun h =>
    (Expression.Written.seqList h).of_eq (by
      simp [Style.apply, Style.quote, Style.bracketed, listed, toString])
  have hpair : ∀ {tree label ts xs}, ts.length = 2 → Expression.Written isPart tree ts xs →
      Expression.Written isPart tree [Style.apply "Seq" (Style.quote label :: ts)]
        [.seq (some label) xs] := by
    intro tree label ts xs hts h
    obtain ⟨s, t, rfl⟩ := List.length_eq_two.mp hts
    exact (Expression.Written.seqPair h).of_eq (by simp [Style.apply, Style.quote, toString])
  have href : ∀ {tree ts xs}, Expression.Written isPart tree ts xs →
      Expression.Written isPart tree [Style.apply "Alt" ["(ref " ++ Style.bracketed ts ++ ")"]]
        [.alt xs] := fun h =>
    (Expression.Written.altRef h).of_eq (by
      simp [Style.apply, Style.bracketed, listed, toString])
  cases l with
  | pwzNary =>
    exact Style.faithful_constructors rfl id hname (fun _ h => hlist h) (fun _ h => href h)
  | pwzNaryList =>
    exact Style.faithful_constructors rfl .memo hname (fun _ h => hlist h) (fun _ h => href h)
  | pwzNaryLook => exact Style.faithful_functions
  | pwzBinary =>
    refine Style.faithful_constructors rfl .memo hname (fun hts h => hpair (hts rfl) h) ?_
    intro ts xs hts h
    obtain ⟨s, t, rfl⟩ := List.length_eq_two.mp (hts rfl)
    exact (Expression.Written.altRefs h).of_eq (by simp [Style.apply, toString])
  | pwdBinary =>
    refine Style.faithful_constructors rfl .delayed hleaf (fun hts h => hpair (hts rfl) h) ?_
    intro ts xs hts h
    obtain ⟨s, t, rfl⟩ := List.length_eq_two.mp (hts rfl)
    exact (Expression.Written.altPair h).of_eq (by simp [Style.apply, toString])
  | pwdNary =>
    refine Style.faithful_constructors rfl .delayed hleaf (fun _ h => hlist h) ?_
    intro ts xs _ h
    exact (Expression.Written.altList h).of_eq (by
      simp [Style.apply, Style.bracketed, listed, toString])
  | pwdBinaryOpt =>
    refine Style.faithful_records rfl ?_ ?_ ?_
    · intro action s x hx
      rw [Style.childFields_one]
      exact .redChild (Action.written_text _) hx
    · intro ts xs hts h
      obtain ⟨s, t, rfl⟩ := List.length_eq_two.mp (hts rfl)
      rw [Style.childFields_two]
      exact .seqChild h
    · intro ts xs hts h
      obtain ⟨s, t, rfl⟩ := List.length_eq_two.mp (hts rfl)
      rw [Style.childFields_two]
      exact .altChild h
  | pwdNaryOpt =>
    refine Style.faithful_records rfl ?_ ?_ ?_
    · intro action s x hx
      rw [Style.childrenField_eq]
      exact .redChildren (Action.written_text _) hx
    · intro ts xs _ h
      rw [Style.childrenField_eq]
      exact .seqChildren h
    · intro ts xs _ h
      rw [Style.childrenField_eq]
      exact .altChildren h

end Library

section Rendering

variable {isPart : String → Prop} {tree : String} {style : Style} {a : Arrangement}

mutual

/-- A faithful style writes an expression as the notation has it. -/
theorem Expression.written_render (hs : style.Faithful isPart tree a) :
    (x : Expression) → x.Fits isPart a → Written isPart tree [x.render style] [x]
  | .name _, h => .name h
  | .token tag label, _ => hs.token tag label
  | .empty label, h => hs.empty h label
  | .reduce action x, h => hs.reduce h.1 action (x.written_render hs h.2)
  | .seq _ xs, h =>
    have hxs := Expression.written_renderList hs xs h.2.2
    hs.seq h.1 (fun hbinary => hxs.length_eq.trans (h.2.1 hbinary)) hxs
  | .alt xs, h =>
    have hxs := Expression.written_renderList hs xs h.2
    hs.alt (fun hbinary => hxs.length_eq.trans (h.1 hbinary)) hxs
termination_by structural x => x

theorem Expression.written_renderList (hs : style.Faithful isPart tree a) :
    (xs : List Expression) → Expression.FitsAll isPart a xs →
      Written isPart tree (Expression.renderList style xs) xs
  | [], _ => .nil
  | x :: xs, h => .cons (x.written_render hs h.1) (Expression.written_renderList hs xs h.2)
termination_by structural xs => xs

end

end Rendering

theorem Expression.fitsAll_iff {isPart : String → Prop} {a : Arrangement} {xs : List Expression} :
    Expression.FitsAll isPart a xs ↔ ∀ x ∈ xs, x.Fits isPart a := by
  induction xs with
  | nil => simp [Expression.FitsAll]
  | cons x xs ih => simp [Expression.FitsAll, ih]

namespace Arrangement

variable {isPart : String → Prop} {a : Arrangement}

theorem fitsAll_names {parts : List String} (hparts : ∀ part ∈ parts, isPart part) :
    Expression.FitsAll isPart a (parts.map .name) := by
  rw [Expression.fitsAll_iff]
  intro x hx
  obtain ⟨part, hpart, rfl⟩ := List.mem_map.mp hx
  exact hparts part hpart

theorem fits_nestSeq {label? : Nat → Option String}
    (hlabel : ∀ i, (label? i).isSome = a.isLabelled) (i : Nat) {part : String}
    {parts : List String} (hpart : isPart part) (hparts : ∀ part ∈ parts, isPart part) :
    (Expression.nestSeq label? i (.name part) (parts.map .name)).Fits isPart a := by
  induction parts generalizing part i with
  | nil => exact hpart
  | cons next parts ih =>
    obtain ⟨hnext, hparts⟩ := List.forall_mem_cons.mp hparts
    exact ⟨hlabel i, fun _ => rfl, hpart, ih (i + 1) hnext hparts, trivial⟩

theorem fits_production (a : Arrangement) (label : String) {parts : List String}
    (hparts : ∀ part ∈ parts, isPart part) :
    (a.production label (parts.map .name)).Fits isPart a := by
  have hnames : Expression.FitsAll isPart a (parts.map .name) := fitsAll_names hparts
  refine production_cases a label parts ?_ ?_ ?_ ?_ ?_ ?_
  · exact fun ha hlength => ⟨ha.symm, by simpa using hlength, hnames⟩
  · exact fun ha _ => ha
  · rintro p ha rfl
    exact ⟨ha, hnames.1⟩
  · rintro p q rfl rfl
    exact ⟨nofun, rfl, fun _ => rfl, hnames⟩
  · rintro rfl
    exact ⟨nofun, rfl, nofun, hnames⟩
  · rintro p q rest ha rfl
    have hpairs : a ≠ .labelled := by
      rintro rfl
      cases ha
    obtain ⟨hp, hrest⟩ := List.forall_mem_cons.mp hparts
    exact ⟨hpairs,
      fits_nestSeq (fun i => by cases h : a.isLabelled <;> simp [pairLabel?, h]) 1 hp hrest⟩

theorem resultsSeq_names (parts : List String) :
    Expression.resultsSeq (parts.map .name) = [parts.map .part] := by
  induction parts with
  | nil => rfl
  | cons part parts ih => simp [Expression.resultsSeq, Expression.results, ih]

/-- Parts nested to the right have one result, and as many pairs as that result needs to be taken
apart. -/
theorem exists_results_nestSeq (label? : Nat → Option String) (part : String)
    (parts : List String) (i : Nat) :
    ∃ t, (Expression.nestSeq label? i (.name part) (parts.map .name)).results = [t] ∧
      t.unnest? parts.length = some ((part :: parts).map .part) := by
  induction parts generalizing part i with
  | nil => exact ⟨.part part, rfl, rfl⟩
  | cons next parts ih =>
    obtain ⟨t, ht, hleaves⟩ := ih next (i + 1)
    refine ⟨.node (label? i) [.part part, t], ?_, ?_⟩
    · simp [Expression.nestSeq, Expression.results, Expression.resultsSeq, ht]
    · simp [ResultTree.unnest?, hleaves]

/-- Every arrangement of a production has one result. -/
theorem results_production (a : Arrangement) (label : String) (parts : List String) :
    (a.production label (parts.map .name)).results =
      [.node (some label) (parts.map .part)] := by
  refine production_cases (P := fun x => x.results = _) a label parts ?_ ?_ ?_ ?_ ?_ ?_
  · intro _ _
    simp [Expression.results, resultsSeq_names]
  · rintro _ rfl
    rfl
  · rintro p _ rfl
    rfl
  · rintro p q _ rfl
    rfl
  · intro _
    simp only [Expression.results, resultsSeq_names]
    rfl
  · rintro p q rest _ rfl
    obtain ⟨t, ht, hleaves⟩ := exists_results_nestSeq (a.pairLabel? label) p (q :: rest) 1
    have haction : (Action.flatten (q :: rest).length label).onResult? t =
        some (.node (some label) ((p :: q :: rest).map .part)) := by
      simp only [Action.onResult?, hleaves, Option.map_some]
    rw [Expression.results, ht, List.filterMap_cons_some haction]
    rfl

theorem resultsAlt_eq_flatMap (xs : List Expression) :
    Expression.resultsAlt xs = xs.flatMap Expression.results := by
  induction xs with
  | nil => rfl
  | cons x xs ih => simp [Expression.resultsAlt, ih]

theorem results_nestAlt (x : Expression) (xs : List Expression) :
    (Expression.nestAlt x xs).results = (x :: xs).flatMap Expression.results := by
  induction xs generalizing x with
  | nil => simp [Expression.nestAlt]
  | cons y rest ih => simp [Expression.nestAlt, Expression.results, Expression.resultsAlt, ih]

/-- A choice has the results of each alternative, in order. -/
theorem results_choice (a : Arrangement) (xs : List Expression) :
    (a.choice xs).results = xs.flatMap Expression.results :=
  choice_cases (P := fun xs x => x.results = xs.flatMap Expression.results) a xs
    (fun _ => by simp) resultsAlt_eq_flatMap results_nestAlt

end Arrangement

theorem Expression.written_cons_iff {isPart : String → Prop} {tree s : String} {x : Expression}
    {ts : List String} {xs : List Expression} :
    Written isPart tree (s :: ts) (x :: xs) ↔
      Written isPart tree [s] [x] ∧ Written isPart tree ts xs := by
  refine ⟨fun h => ?_, fun h => .cons h.1 h.2⟩
  have hlength : ts.length = xs.length := by simpa using h.length_eq
  match ts, xs, hlength with
  | [], [], _ => exact ⟨h, .nil⟩
  | t :: ts, y :: xs, _ =>
    cases h with
    | cons hx hxs => exact ⟨hx, hxs⟩

namespace Style.Faithful

variable {isPart : String → Prop} {style : Style} {tree : String} {a : Arrangement}
  {ts : List String}  {xs : List Expression}

theorem written_nestAlt (hs : style.Faithful isPart tree a) {t : String} {x : Expression}
    (h : Expression.Written isPart tree (t :: ts) (x :: xs)) :
    Expression.Written isPart tree [(Expression.nestAlt (.name t) (ts.map .name)).render style]
      [.nestAlt x xs] := by
  obtain ⟨hx, hxs⟩ := Expression.written_cons_iff.mp h
  have hlength := hxs.length_eq
  induction ts generalizing t x xs with
  | nil =>
    obtain rfl := List.length_eq_zero_iff.mp hlength.symm
    exact hx
  | cons t' ts ih =>
    obtain ⟨y, ys, rfl⟩ := List.exists_cons_of_length_eq_add_one hlength.symm
    obtain ⟨hy, hys⟩ := Expression.written_cons_iff.mp hxs
    exact hs.alt (fun _ => rfl) (.cons hx (.cons (ih hxs hy hys hys.length_eq) .nil))

theorem written_choice (hs : style.Faithful isPart tree a) (hne : ts ≠ [])
    (h : Expression.Written isPart tree ts xs) :
    Expression.Written isPart tree [(a.choice (ts.map .name)).render style] [a.choice xs] := by
  have hnames : Expression.renderList style (ts.map .name) = ts := by
    rw [Expression.renderList_eq_map, List.map_map]
    exact List.map_id ts
  have hflat : a.isBinary = false → Expression.Written isPart tree
      [(Expression.alt (ts.map .name)).render style] [.alt xs] := by
    intro hbinary
    rw [Expression.render, hnames]
    exact hs.alt (by simp [hbinary]) h
  match ts, xs, h.length_eq with
  | [], _, _ => exact absurd rfl hne
  | [t], [x], _ => cases a <;> exact h
  | t :: t' :: ts, x :: y :: xs, _ =>
    cases a with
    | labelled => exact hflat rfl
    | reduced => exact hflat rfl
    | labelledPairs => exact hs.written_nestAlt h
    | reducedPairs => exact hs.written_nestAlt h

end Style.Faithful

theorem Arrangement.render_choice (a : Arrangement) (style : Style) (xs : List Expression) :
    (a.choice xs).render style =
      (a.choice ((xs.map (Expression.render style)).map .name)).render style := by
  have hnames : ∀ xs : List Expression,
      Expression.renderList style ((xs.map (Expression.render style)).map .name) =
        Expression.renderList style xs := by
    intro xs
    simp [Expression.renderList_eq_map, Expression.render]
  have hnest : ∀ (xs : List Expression) (x : Expression),
      (Expression.nestAlt x xs).render style = (Expression.nestAlt (.name (x.render style))
        ((xs.map (Expression.render style)).map .name)).render style := by
    intro xs
    induction xs with
    | nil => exact fun _ => rfl
    | cons y rest ih =>
      intro x
      simp only [List.map_cons, Expression.nestAlt, Expression.render, Expression.renderList, ih y]
  rcases xs with _ | ⟨x, _ | ⟨y, rest⟩⟩
  · cases a <;> rfl
  · cases a <;> rfl
  · cases a with
    | labelled => exact congrArg style.alt (hnames _).symm
    | reduced => exact congrArg style.alt (hnames _).symm
    | labelledPairs => exact hnest _ x
    | reducedPairs => exact hnest _ x

namespace Library

variable {isPart : String → Prop}

def productionText (l : Library) (label : String) (parts : List String) : String :=
  (l.arrangement.production label (parts.map .name)).render l.style

def alternationText (l : Library) (texts : List String) : String :=
  (l.arrangement.choice (texts.map .name)).render l.style

theorem render_ruleExpression (l : Library) (r : ResolvedRule) :
    (l.ruleExpression r).render l.style = l.alternationText
      (r.alternatives.map fun a => l.productionText a.label (a.parts.map l.bound)) := by
  rw [ruleExpression, Arrangement.render_choice, List.map_map, alternationText]
  simp only [Function.comp_def, production, productionText, List.map_map]

theorem written_productionText (l : Library) (label : String) {parts : List String}
    (hparts : ∀ part ∈ parts, isPart part) :
    Expression.Written isPart l.tree [l.productionText label parts]
      [l.arrangement.production label (parts.map .name)] :=
  Expression.written_render (l.faithful_style isPart) _
    (Arrangement.fits_production _ label hparts)

/-- The text of a rule is its expression as the notation has it. -/
theorem written_ruleExpression (l : Library) {r : ResolvedRule} (hne : r.alternatives ≠ [])
    (hparts : ∀ a ∈ r.alternatives, ∀ part ∈ a.parts, isPart (l.bound part)) :
    Expression.Written isPart l.tree [(l.ruleExpression r).render l.style]
      [l.ruleExpression r] := by
  have hproductions : ∀ as : List Alternative,
      (∀ a ∈ as, ∀ part ∈ a.parts, isPart (l.bound part)) → Expression.Written isPart l.tree
        (as.map fun a => l.productionText a.label (a.parts.map l.bound)) (as.map l.production) := by
    intro as has
    induction as with
    | nil => exact .nil
    | cons a as ih =>
      obtain ⟨ha, has⟩ := List.forall_mem_cons.mp has
      have hwritten := l.written_productionText a.label (List.forall_mem_map.mpr ha)
      rw [List.map_map] at hwritten
      exact .cons hwritten (ih has)
  rw [render_ruleExpression]
  exact (l.faithful_style isPart).written_choice (by simpa using hne) (hproductions _ hparts)

/-- The text, read as an expression of parts, has these results. -/
def Denotes (l : Library) (isPart : String → Prop) (text : String) (results : List ResultTree) :
    Prop :=
  ∃ x, Expression.Written isPart l.tree [text] [x] ∧ x.results = results

theorem denotes_productionText (l : Library) (label : String) {parts : List String}
    (hparts : ∀ part ∈ parts, isPart part) :
    l.Denotes isPart (l.productionText label parts) [.node (some label) (parts.map .part)] :=
  ⟨_, l.written_productionText label hparts, Arrangement.results_production ..⟩

theorem denotes_alternationText (l : Library) {texts : List String}
    {results : List (List ResultTree)} (hne : texts ≠ [])
    (h : List.Forall₂ (l.Denotes isPart) texts results) :
    l.Denotes isPart (l.alternationText texts) results.flatten := by
  have hxs : ∃ xs, Expression.Written isPart l.tree texts xs ∧
      xs.map Expression.results = results := by
    clear hne
    induction h with
    | nil => exact ⟨[], .nil, rfl⟩
    | cons hx _ ih =>
      obtain ⟨x, hx, rfl⟩ := hx
      obtain ⟨xs, hxs, rfl⟩ := ih
      exact ⟨x :: xs, .cons hx hxs, rfl⟩
  obtain ⟨xs, hwritten, rfl⟩ := hxs
  refine ⟨_, (l.faithful_style isPart).written_choice hne hwritten, ?_⟩
  rw [Arrangement.results_choice, List.flatMap_def]

end Library

def Alternative.result (a : Alternative) : ResultTree :=
  .node (some a.label) (a.parts.map .part)

namespace Library

/-- All libraries agree on what productions and alternations stand for. -/
theorem denotes_production_alternation (l : Library) (isPart : String → Prop) :
    (∀ label parts, (∀ part ∈ parts, isPart part) →
      l.Denotes isPart (l.productionText label parts) [.node (some label) (parts.map .part)]) ∧
    (∀ texts results, 2 ≤ texts.length → List.Forall₂ (l.Denotes isPart) texts results →
      l.Denotes isPart (l.alternationText texts) results.flatten) ∧
    ∀ alternatives : List Alternative, 2 ≤ alternatives.length →
      (∀ a ∈ alternatives, ∀ part ∈ a.parts, isPart part) →
      l.Denotes isPart
        (l.alternationText (alternatives.map fun a => l.productionText a.label a.parts))
        (alternatives.map Alternative.result) := by
  have hchoice : ∀ texts results, 2 ≤ texts.length →
      List.Forall₂ (l.Denotes isPart) texts results →
      l.Denotes isPart (l.alternationText texts) results.flatten := fun texts results hlength =>
    l.denotes_alternationText (List.ne_nil_of_length_pos (by omega))
  refine ⟨fun label _ => l.denotes_productionText label, hchoice,
    fun alternatives hlength hparts => ?_⟩
  have hproductions : List.Forall₂ (l.Denotes isPart)
      (alternatives.map fun a => l.productionText a.label a.parts)
      (alternatives.map fun a => [a.result]) := by
    rw [List.forall₂_map_left_iff, List.forall₂_map_right_iff, List.forall₂_same]
    exact fun a ha => l.denotes_productionText a.label (hparts a ha)
  have h := hchoice _ _ (by simpa using hlength) hproductions
  rwa [← List.flatMap_def, ← List.map_eq_flatMap] at h

theorem denotes_production_alternation_nested :
    pwdBinary.Denotes (· ∈ ["x", "y", "z"])
      ("lazy (Alt (lazy (Red (Pyast.flatten_binary_seqs 2 \"a-1\", " ++
        "lazy (Seq (\"BINRED-1-a-1\", x, lazy (Seq (\"BINRED-2-a-1\", y, z)))))), " ++
        "lazy (Eps (lazy [Pyast.Seq (\"a-2\", [])]))))")
      [.node (some "a-1") [.part "x", .part "y", .part "z"], .node (some "a-2") []] :=
  (denotes_production_alternation pwdBinary (· ∈ ["x", "y", "z"])).2.2
    [⟨"a-1", ["x", "y", "z"]⟩, ⟨"a-2", []⟩] (by decide) (by simp)

end Library

end GrammarForge
