import GrammarForge.Proofs.Canonical
import GrammarForge.Proofs.TokenNames
import GrammarForge.Target.Generate

/-!
Which descriptions a target accepts. What can be wrong with the rules of a description is listed in
reading order. Every target stops at the first entry of its list, and no target stops for any other
reason. Only the list of a target with a bound on the number of components is longer than that of
the others.
-/

namespace GrammarForge

/-- What went wrong in a run, if anything did. -/
def problem? {ε α : Type} : Except ε α → Option ε
  | .ok _ => none
  | .error e => some e

section Runs

variable {ε α β : Type} {x : Except ε α} {vs ws : List ε}

theorem problem?_eq_none_iff : problem? x = none ↔ ∃ a, x = .ok a := by
  cases x <;> simp [problem?]

theorem problem?_map (x : Except ε α) (f : α → β) : problem? (x.map f) = problem? x := by
  cases x <;> rfl

theorem problem?_bind_ok (x : Except ε α) (f : α → β) :
    problem? (x >>= fun a => Except.ok (f a)) = problem? x := by
  cases x <;> rfl

theorem problem?_bind {f : α → Except ε β} (hx : problem? x = vs.head?)
    (hf : ∀ a, x = .ok a → problem? (f a) = ws.head?) : problem? (x >>= f) = (vs ++ ws).head? := by
  cases x with
  | error e =>
    obtain ⟨rest, rfl⟩ := List.head?_eq_some_iff.mp hx.symm
    rfl
  | ok a =>
    obtain rfl : vs = [] := List.head?_eq_none_iff.mp hx.symm
    exact hf a rfl

/-- Of runs one after the other, the first one that goes wrong counts. -/
theorem problem?_mapM {f : α → Except ε β} {g : α → List ε} {xs : List α}
    (h : ∀ x ∈ xs, problem? (f x) = (g x).head?) :
    problem? (xs.mapM f) = (xs.flatMap g).head? := by
  induction xs with
  | nil => rfl
  | cons x xs ih =>
    obtain ⟨hx, hxs⟩ := List.forall_mem_cons.mp h
    rw [List.mapM_cons, List.flatMap_cons]
    exact problem?_bind hx fun y _ => (problem?_bind_ok _ _).trans (ih hxs)

theorem mapError_eq_ok_iff {ε' : Type} {g : ε → ε'} {a : α} :
    x.mapError g = .ok a ↔ x = .ok a := by
  cases x <;> simp [Except.mapError]

theorem exists_of_bind_eq_ok {f : α → Except ε β} {b : β} (h : x >>= f = .ok b) :
    ∃ a, x = .ok a ∧ f a = .ok b := by
  cases x with
  | error e => cases h
  | ok a => exact ⟨a, rfl, h⟩

theorem forall₂_of_mapM {f : α → Except ε β} {xs : List α} {ys : List β}
    (h : xs.mapM f = .ok ys) : List.Forall₂ (fun x y => f x = .ok y) xs ys := by
  induction xs generalizing ys with
  | nil =>
    cases h
    exact .nil
  | cons x xs ih =>
    rw [List.mapM_cons] at h
    obtain ⟨y, hy, h⟩ := exists_of_bind_eq_ok h
    obtain ⟨rest, hrest, h⟩ := exists_of_bind_eq_ok h
    cases h
    exact .cons hy (ih hrest)

end Runs

def Component.violations (rule : String) (c : Component) : List TargetProblem :=
  if c.symbol.isGroup then [.invalidComponent rule c.symbol.sort] else []

def Limit.violations (limit : Limit) (rule : String) (count : Nat) : List TargetProblem :=
  if limit.components < count then
    [.tooManyComponents limit.target rule count limit.components]
  else []

/-- The components in order, and behind them their number. -/
def Production.violations (limit? : Option Limit) (rule : String) (p : Production) :
    List TargetProblem :=
  p.flatMap (Component.violations rule) ++
    limit?.toList.flatMap fun limit => limit.violations rule p.length

def Rule.violations (limit? : Option Limit) (r : Rule) : List TargetProblem :=
  match r.groups with
  | [g] =>
    if g.productions.isEmpty then [.emptyGroup r.name]
    else g.productions.flatMap (Production.violations limit? r.name)
  | gs => [.groupCount r.name gs.length]

/-- What is wrong with the rules of a description, in reading order. -/
def Description.violations (d : Description) (limit? : Option Limit) : List TargetProblem :=
  d.grammar.rules.rules.flatMap (Rule.violations limit?)

def Target.limit? : Target → Option Limit
  | .menhir => some ⟨Target.name .menhir, 9⟩
  | _ => none

section Accepted

variable {limit? : Option Limit}

theorem Component.violations_eq_nil_iff {rule : String} {c : Component} :
    c.violations rule = [] ↔ c.symbol.isGroup = false := by
  simp [violations]

theorem Limit.violations_eq_nil_iff {limit : Limit} {rule : String} {count : Nat} :
    limit.violations rule count = [] ↔ count ≤ limit.components := by
  simp [violations]

theorem Production.violations_eq_nil_iff {rule : String} {p : Production} :
    violations limit? rule p = [] ↔
      (∀ c ∈ p, c.symbol.isGroup = false) ∧ ∀ limit ∈ limit?, p.length ≤ limit.components := by
  simp [violations, Component.violations_eq_nil_iff, Limit.violations_eq_nil_iff]

/-- A rule is in order if it has one group with productions, none of them too long, and no group
inside of them. -/
theorem Rule.violations_eq_nil_iff {r : Rule} :
    r.violations limit? = [] ↔
      ∃ g, r.groups = [g] ∧ g.productions ≠ [] ∧ ∀ p ∈ g.productions,
        (∀ c ∈ p, c.symbol.isGroup = false) ∧ ∀ limit ∈ limit?, p.length ≤ limit.components := by
  obtain ⟨name, groups⟩ := r
  match groups with
  | [] => simp [violations]
  | [g] =>
    by_cases hg : g.productions = []
    · simp [violations, hg]
    · simp [violations, hg, Production.violations_eq_nil_iff]
  | g :: g' :: gs => simp [violations]

theorem Description.violations_eq_nil_iff {d : Description} :
    d.violations limit? = [] ↔ ∀ r ∈ d.grammar.rules.rules, r.violations limit? = [] :=
  List.flatMap_eq_nil_iff

theorem Rule.IsFlat.violations_eq_nil_iff {r : Rule} (h : r.IsFlat) :
    r.violations limit? = [] ↔
      ∀ g ∈ r.groups, ∀ p ∈ g.productions, ∀ limit ∈ limit?, p.length ≤ limit.components := by
  obtain ⟨ps, hg, hne, hps⟩ := h
  have hplain : ∀ p ∈ ps, ∀ c ∈ p, c.symbol.isGroup = false := fun p hp c hc => (hps p hp c hc).2
  rw [Rule.violations_eq_nil_iff, hg]
  constructor
  · rintro ⟨g, hg', -, hlength⟩ g' hmem p hp
    obtain rfl : Group.body ps = g := by simpa using hg'
    obtain rfl : g' = Group.body ps := by simpa using hmem
    exact (hlength p hp).2
  · intro hlength
    exact ⟨.body ps, rfl, hne, fun p hp => ⟨hplain p hp, hlength _ (by simp) p hp⟩⟩

end Accepted

theorem Production.symbol_mem_symbols {p : Production} {c : Component} (h : c ∈ p) :
    c.symbol ∈ symbols p := by
  have hself : ∀ s : Symbol, s ∈ s.withInner := by
    intro s
    cases s with
    | terminal v => exact List.mem_singleton_self _
    | literal v => exact List.mem_singleton_self _
    | nonTerminal n => exact List.mem_singleton_self _
    | group g =>
      obtain ⟨o, i, ps⟩ := g
      exact List.mem_cons_self
  induction p with
  | nil => cases h
  | cons first p ih =>
    rw [symbols_cons]
    rcases List.mem_cons.mp h with rfl | h
    · exact List.mem_append_left _ (hself _)
    · exact List.mem_append_right _ (ih h)

namespace ResolvedRule

variable {names : List (String × String)} {limit? : Option Limit} {rule : String}

theorem problem?_componentName {c : Component}
    (h : ∀ v, c.symbol.token? = some v → ∃ name, names.lookup v = some name) :
    problem? (componentName names rule c) = (c.violations rule).head? := by
  obtain ⟨s, m⟩ := c
  cases s with
  | terminal v =>
    obtain ⟨name, hname⟩ := h v rfl
    simp [componentName, hname, problem?, Component.violations, Symbol.isGroup]
  | literal v =>
    obtain ⟨name, hname⟩ := h v rfl
    simp [componentName, hname, problem?, Component.violations, Symbol.isGroup]
  | nonTerminal n => rfl
  | group g => rfl

theorem problem?_withinLimit (parts : List String) :
    problem? (withinLimit limit? rule parts) =
      (limit?.toList.flatMap fun limit => limit.violations rule parts.length).head? := by
  cases limit? with
  | none => rfl
  | some limit =>
    by_cases h : limit.components < parts.length <;>
      simp [withinLimit, Limit.violations, h, problem?]

theorem problem?_alternativesFrom {count i : Nat} {ps : List Production}
    (h : ∀ p ∈ ps, ∀ c ∈ p, ∀ v, c.symbol.token? = some v →
      ∃ name, names.lookup v = some name) :
    problem? (alternativesFrom names limit? rule count i ps) =
      (ps.flatMap (Production.violations limit? rule)).head? := by
  induction ps generalizing i with
  | nil => rfl
  | cons p ps ih =>
    obtain ⟨hp, hps⟩ := List.forall_mem_cons.mp h
    rw [alternativesFrom, List.flatMap_cons, Production.violations, List.append_assoc]
    refine problem?_bind (problem?_mapM fun c hc => problem?_componentName (hp c hc)) ?_
    intro parts hparts
    rw [(forall₂_of_mapM hparts).length_eq]
    exact problem?_bind (problem?_withinLimit parts) fun _ _ =>
      (problem?_bind_ok _ _).trans (ih hps)

theorem problem?_ofRule {r : Rule}
    (h : ∀ s ∈ r.symbols, ∀ v, s.token? = some v → ∃ name, names.lookup v = some name) :
    problem? (ofRule names limit? r) = (r.violations limit?).head? := by
  obtain ⟨rule, groups⟩ := r
  match groups with
  | [] => rfl
  | [⟨o, i, []⟩] => rfl
  | [⟨o, i, p :: ps⟩] =>
    have hnames : ∀ q ∈ p :: ps, ∀ c ∈ q, ∀ v, c.symbol.token? = some v →
        ∃ name, names.lookup v = some name := by
      intro q hq c hc
      refine h c.symbol ?_
      rw [Rule.symbols_of_group? rfl, Production.symbolsList_eq_flatMap]
      exact List.mem_flatMap.mpr ⟨q, hq, Production.symbol_mem_symbols hc⟩
    exact (problem?_bind_ok _ _).trans (problem?_alternativesFrom hnames)
  | g :: g' :: gs => rfl

end ResolvedRule

namespace Description

theorem problem?_resolve (d : Description) (limit? : Option Limit) :
    problem? (d.resolve limit?) = (d.violations limit?).head? := by
  refine problem?_mapM fun r hr => ResolvedRule.problem?_ofRule fun s hs v hv => ?_
  refine exists_lookup_nameTerminals ?_
  have hmem : s ∈ d.grammar.rules.symbols := List.mem_flatMap.mpr ⟨r, hr, hs⟩
  exact List.mem_eraseDups.mpr (List.mem_filterMap.mpr ⟨s, hmem, hv⟩)

theorem exists_tagged (d : Description) : ∃ tagged, d.vocabulary.tagged = .ok tagged := by
  rw [← problem?_eq_none_iff]
  have hrun : problem? d.vocabulary.tagged = (d.vocabulary.all.flatMap fun _ => []).head? := by
    refine problem?_mapM fun name hname => ?_
    obtain ⟨tag, htag⟩ := Vocabulary.exists_tag? hname
    rw [problem?_map, Vocabulary.tag]
    have htag' : d.vocabulary.tag? name = some tag := htag
    rw [htag']
    rfl
  have hnone : (d.vocabulary.all.flatMap fun _ => ([] : List TargetProblem)) = [] := by simp
  rw [hrun, hnone]
  rfl

theorem exists_of_map {α : Type} {run : Except Problem Grammar} {f : Grammar → α} {a : α}
    (h : run.map f = .ok a) : ∃ d : Description, run = .ok d.grammar ∧ f d.grammar = a := by
  obtain ⟨g, hg, hfacts⟩ := exists_eq_ok_of_map h
  exact ⟨⟨g, [], by simp⟩, hg, hfacts⟩

end Description

namespace Target

/-- A target stops at the first entry of its list. -/
theorem problem?_generate (t : Target) (d : Description) :
    problem? (t.generate d) = (d.violations t.limit?).head? := by
  have hfile : ∀ dialect : FileDialect,
      problem? (dialect.generate d) = (d.violations dialect.limit?).head? := fun dialect =>
    (problem?_bind_ok _ _).trans (d.problem?_resolve dialect.limit?)
  cases t with
  | menhir => exact hfile .menhir
  | dypgen => exact hfile .dypgen
  | library l =>
    obtain ⟨tagged, htagged⟩ := d.exists_tagged
    have hgenerate : l.generate d = d.resolve none >>= fun rules =>
        Except.ok (Text.lines (l.file (l.bindings tagged rules))) := by
      rw [Library.generate, htagged]
      rfl
    rw [generate, hgenerate]
    exact (problem?_bind_ok _ _).trans (d.problem?_resolve none)

theorem exists_generate_iff {t : Target} {d : Description} :
    (∃ lines, t.generate d = .ok lines) ↔ d.violations t.limit? = [] := by
  rw [← problem?_eq_none_iff, problem?_generate, List.head?_eq_none_iff]

theorem limit?_eq_none {t : Target} (h : t ≠ .menhir) : t.limit? = none := by
  cases t with
  | menhir => exact absurd rfl h
  | _ => rfl

/-- In a description of a transformed grammar only the length of a production can be wrong. -/
theorem exists_generate_iff_of_ofText {text : String} {t : Target} {d : Description}
    (h : Grammar.ofText text = .ok d.grammar) :
    (∃ lines, t.generate d = .ok lines) ↔
      ∀ r ∈ d.grammar.rules.rules, ∀ g ∈ r.groups, ∀ p ∈ g.productions,
        ∀ limit ∈ t.limit?, p.length ≤ limit.components := by
  have hflat : d.grammar.rules.IsFlat := (Grammar.canonical_of_ofText h).flat
  rw [exists_generate_iff, Description.violations_eq_nil_iff]
  exact forall₂_congr fun r hr => (hflat r hr).violations_eq_nil_iff

theorem exists_generate_of_ofText {text : String} {t : Target} {d : Description}
    (h : Grammar.ofText text = .ok d.grammar) (ht : t ≠ .menhir) :
    ∃ lines, t.generate d = .ok lines := by
  rw [exists_generate_iff_of_ofText h, limit?_eq_none ht]
  simp

theorem exists_tokenModule (d : Description) : ∃ lines, TokenModule.generate d = .ok lines := by
  obtain ⟨tagged, htagged⟩ := d.exists_tagged
  exact ⟨_, by rw [TokenModule.generate, htagged]; rfl⟩

/-- All targets but one stop at the same violation, the first in reading order, or all accept. The
one with a bound on the number of components counts a production above it among the violations,
behind those of its components. A transformed grammar has no violation other than that. -/
theorem generate_violations (d : Description) :
    (∀ t ≠ Target.menhir, problem? (t.generate d) = (d.violations none).head?) ∧
    problem? (Target.menhir.generate d) = (d.violations (some ⟨"menhir", 9⟩)).head? ∧
    ∀ text, Grammar.ofText text = .ok d.grammar →
      (∃ lines, TokenModule.generate d = .ok lines) ∧
      (∀ t ≠ Target.menhir, ∃ lines, t.generate d = .ok lines) ∧
      ((∃ lines, Target.menhir.generate d = .ok lines) ↔
        ∀ r ∈ d.grammar.rules.rules, ∀ g ∈ r.groups, ∀ p ∈ g.productions, p.length ≤ 9) := by
  refine ⟨fun t ht => ?_, problem?_generate .menhir d, fun text htext => ⟨?_, fun t ht => ?_, ?_⟩⟩
  · rw [problem?_generate, limit?_eq_none ht]
  · exact exists_tokenModule d
  · exact exists_generate_of_ofText htext ht
  · rw [exists_generate_iff_of_ofText htext]
    simp [limit?]

/-- A production of ten components, and rules as they are written: the last component of the first
production of `a` is a group, and the second production is too long for one target. -/
theorem generate_violations_long :
    (∃ d : Description, Grammar.ofText "s: A B C D E F G H I 'x' | s 'y'\n" = .ok d.grammar ∧
      (∃ lines, TokenModule.generate d = .ok lines) ∧
      (∃ lines, Target.dypgen.generate d = .ok lines) ∧
      (∃ lines, (Target.library .pwzBinary).generate d = .ok lines) ∧
      problem? (Target.menhir.generate d) = some (.tooManyComponents "menhir" "s" 10 9)) ∧
    ∃ d : Description,
      Grammar.ofTextAsWritten "a: A B C D E F G H I ('x' | B) | [a]\n" = .ok d.grammar ∧
      problem? (Target.dypgen.generate d) =
        some (.invalidComponent "a" "ProductionGroup") ∧
      problem? (Target.menhir.generate d) =
        some (.invalidComponent "a" "ProductionGroup") := by
  constructor
  · have hrun : (Grammar.ofText "s: A B C D E F G H I 'x' | s 'y'\n").map
        (fun g => g.rules.rules.flatMap (Rule.violations (some ⟨"menhir", 9⟩))) =
        .ok [.tooManyComponents "menhir" "s" 10 9] := by decide +kernel
    obtain ⟨g, hg, hviolations⟩ := exists_eq_ok_of_map hrun
    obtain ⟨-, hmenhir, hof⟩ := generate_violations ⟨g, [], by simp⟩
    obtain ⟨htokens, hothers, -⟩ := hof _ hg
    refine ⟨⟨g, [], by simp⟩, hg, htokens, hothers .dypgen (by decide),
      hothers (.library .pwzBinary) (by decide), ?_⟩
    rw [hmenhir, Description.violations, hviolations]
    rfl
  · have hrun : (Grammar.ofTextAsWritten "a: A B C D E F G H I ('x' | B) | [a]\n").map
        (fun g => (g.rules.rules.flatMap (Rule.violations none),
          g.rules.rules.flatMap (Rule.violations (some ⟨"menhir", 9⟩)))) =
        .ok ([.invalidComponent "a" "ProductionGroup", .invalidComponent "a" "ProductionGroup"],
          [.invalidComponent "a" "ProductionGroup", .tooManyComponents "menhir" "a" 10 9,
            .invalidComponent "a" "ProductionGroup"]) := by decide +kernel
    obtain ⟨g, hg, hviolations⟩ := exists_eq_ok_of_map hrun
    obtain ⟨hothers, hmenhir, -⟩ := generate_violations ⟨g, [], by simp⟩
    refine ⟨⟨g, [], by simp⟩, hg, ?_, ?_⟩
    · rw [hothers .dypgen (by decide), Description.violations, (Prod.mk.inj hviolations).1]
      rfl
    · rw [hmenhir, Description.violations, (Prod.mk.inj hviolations).2]
      rfl

end Target

end GrammarForge
