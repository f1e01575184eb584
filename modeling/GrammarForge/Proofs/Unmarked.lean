import GrammarForge.Proofs.References
import GrammarForge.Proofs.Violations

/-!
What targets do not look at. They refuse every group inside of a rule, but pass over the repetition
marks of the other components and over the flags of the group that is the body of a rule: the parser
is that of the rules without them.
-/

namespace GrammarForge

def Production.unmarked (p : Production) : Production := p.map fun c => .once c.symbol

def Group.unmarked (g : Group) : Group := Group.body (g.productions.map Production.unmarked)

def Rule.unmarked (r : Rule) : Rule := ⟨r.name, r.groups.map Group.unmarked⟩

theorem Production.symbols_unmarked (p : Production) : symbols (unmarked p) = symbols p := by
  induction p with
  | nil => rfl
  | cons c p ih =>
    have hcons : unmarked (c :: p) = .once c.symbol :: unmarked p := rfl
    rw [hcons, symbols_cons, symbols_cons, ih, Component.symbol_once]

theorem Rule.symbols_unmarked (r : Rule) : r.unmarked.symbols = r.symbols := by
  simp only [symbols, unmarked, Group.unmarked, Group.body, List.flatMap_map,
    Production.symbolsList_eq_flatMap, Production.symbols_unmarked]

theorem Rule.group?_unmarked (r : Rule) : r.unmarked.group? = r.group?.map Group.unmarked := by
  obtain ⟨name, groups⟩ := r
  match groups with
  | [] => rfl
  | [g] => rfl
  | g :: g' :: gs => rfl

theorem Rule.isGroup_of_violations_eq_nil {r : Rule} {limit? : Option Limit}
    (h : r.violations limit? = []) : ∀ s ∈ r.symbols, s.isGroup = false := by
  obtain ⟨g, hg, -, hps⟩ := Rule.violations_eq_nil_iff.mp h
  have hplain : ∀ p : Production, (∀ c ∈ p, c.symbol.isGroup = false) →
      ∀ s ∈ Production.symbols p, s.isGroup = false := by
    intro p hp s hs
    induction p with
    | nil => cases hs
    | cons c p ih =>
      obtain ⟨hc, hp⟩ := List.forall_mem_cons.mp hp
      rw [Production.symbols_cons, Symbol.withInner_of_isGroup hc] at hs
      rcases List.mem_append.mp hs with hs | hs
      · rwa [List.mem_singleton.mp hs]
      · exact ih hp hs
  intro s hs
  rw [symbols, hg, List.flatMap_singleton, Production.symbolsList_eq_flatMap] at hs
  obtain ⟨p, hp, hs⟩ := List.mem_flatMap.mp hs
  exact hplain p (hps p hp).1 s hs

namespace ResolvedRule

variable {names : List (String × String)} {limit? : Option Limit} {rule : String}

theorem mapM_unmarked (p : Production) :
    (Production.unmarked p).mapM (componentName names rule) =
      p.mapM (componentName names rule) := by
  rw [Production.unmarked, List.mapM_map]
  apply congrArg (List.mapM · p)
  funext c
  rfl

theorem alternativesFrom_unmarked (count i : Nat) (ps : List Production) :
    alternativesFrom names limit? rule count i (ps.map Production.unmarked) =
      alternativesFrom names limit? rule count i ps := by
  induction ps generalizing i with
  | nil => rfl
  | cons p ps ih => simp only [List.map_cons, alternativesFrom, ih, mapM_unmarked]

theorem ofRule_unmarked (r : Rule) : ofRule names limit? r.unmarked = ofRule names limit? r := by
  rw [ofRule, ofRule, Rule.group?_unmarked]
  cases hg : r.group? with
  | none => simp [Rule.unmarked]
  | some g =>
    simp only [Option.map_some, Group.unmarked, Group.body, List.isEmpty_map, List.length_map,
      alternativesFrom_unmarked]
    rfl

end ResolvedRule

namespace Dictionary

def unmarked (d : Dictionary) : Dictionary := d.mapRules Rule.unmarked

theorem symbols_unmarked (d : Dictionary) : d.unmarked.symbols = d.symbols := by
  simp only [symbols, unmarked, rules_mapRules, List.flatMap_map, Rule.symbols_unmarked]

theorem contains_unmarked (d : Dictionary) (k : String) :
    d.unmarked.contains k = d.contains k := by
  simp only [contains, unmarked, keys_mapRules]

theorem missing_unmarked (d : Dictionary) : d.unmarked.missing = d.missing := by
  simp only [missing, references, symbols_unmarked, contains_unmarked]

end Dictionary

/-- The description of the rules without marks and flags on their outer level. -/
def Description.unmarked (d : Description) : Description where
  grammar := ⟨d.grammar.rules.unmarked, (d.grammar.rules.missing_unmarked).trans d.grammar.closed⟩
  starts := d.starts
  starts_defined := fun s hs => (d.grammar.rules.contains_unmarked s).trans (d.starts_defined s hs)

namespace Description

variable (d : Description)

theorem terminals_unmarked : d.unmarked.grammar.terminals = d.grammar.terminals := by
  simp only [Grammar.terminals, Dictionary.terminals, unmarked, Dictionary.symbols_unmarked]

theorem vocabulary_unmarked : d.unmarked.vocabulary = d.vocabulary :=
  congrArg Vocabulary.ofTerminals d.terminals_unmarked

theorem resolve_unmarked (limit? : Option Limit) :
    d.unmarked.resolve limit? = d.resolve limit? := by
  have hnames : d.unmarked.names = d.names := congrArg (nameTerminals 0) d.terminals_unmarked
  have hrules : d.unmarked.grammar.rules.rules = d.grammar.rules.rules.map Rule.unmarked :=
    Dictionary.rules_mapRules _ _
  rw [resolve, resolve, hnames, hrules, List.mapM_map]
  apply congrArg (List.mapM · d.grammar.rules.rules)
  funext r
  exact ResolvedRule.ofRule_unmarked r

def optionalBody : Description where
  grammar :=
    ⟨⟨[("a", ⟨"a", [⟨true, true, [[.once (.literal "x"), .once (.literal "y")]]⟩]⟩)], by decide⟩,
      by decide⟩
  starts := ["a"]
  starts_defined := by decide

end Description

namespace Target

/-- Marks and flags on the outer level of rules make no difference. -/
theorem generate_unmarked_eq (t : Target) (d : Description) :
    t.generate d.unmarked = t.generate d := by
  have hfile : ∀ dialect : FileDialect, dialect.generate d.unmarked = dialect.generate d := by
    intro dialect
    simp only [FileDialect.generate, Description.resolve_unmarked, Description.vocabulary_unmarked]
    rfl
  cases t with
  | menhir => exact hfile .menhir
  | dypgen => exact hfile .dypgen
  | library l =>
    simp only [generate, Library.generate, Description.resolve_unmarked,
      Description.vocabulary_unmarked]

/-- Every target refuses a description with a group somewhere inside of a rule. -/
theorem exists_generate_eq_error {d : Description} {s : Symbol}
    (hs : s ∈ d.grammar.rules.symbols) (hgroup : s.isGroup = true) (t : Target) :
    ∃ p, t.generate d = .error p := by
  obtain ⟨r, hr, hsr⟩ := List.mem_flatMap.mp hs
  have hrefused : ¬ ∃ lines, t.generate d = .ok lines := by
    rw [exists_generate_iff, Description.violations_eq_nil_iff]
    intro hnone
    rw [Rule.isGroup_of_violations_eq_nil (hnone r hr) s hsr] at hgroup
    cases hgroup
  cases hrun : t.generate d with
  | error p => exact ⟨p, rfl⟩
  | ok lines => exact absurd ⟨lines, hrun⟩ hrefused

/-- A target refuses the groups inside of rules, and nothing else that makes rules other than flat:
without the marks and flags on the outer level of the rules, it answers the same. -/
theorem generate_unmarked (t : Target) (d : Description) :
    ((∃ s ∈ d.grammar.rules.symbols, s.isGroup = true) → ∃ p, t.generate d = .error p) ∧
    t.generate d = t.generate d.unmarked :=
  ⟨fun ⟨_, hs, hgroup⟩ => exists_generate_eq_error hs hgroup t, (generate_unmarked_eq t d).symm⟩

theorem generate_unmarked_bracketed :
    ∃ d : Description, Grammar.ofTextAsWritten "a: 'x' ('y' | 'z')\n" = .ok d.grammar ∧
      (∃ p, (Target.library .pwdBinary).generate d = .error p) ∧
      Target.dypgen.generate d = Target.dypgen.generate d.unmarked := by
  have hrun : (Grammar.ofTextAsWritten "a: 'x' ('y' | 'z')\n").map
      (fun g => g.rules.symbols.any Symbol.isGroup) = .ok true := by decide +kernel
  obtain ⟨g, hg, hgroup⟩ := exists_eq_ok_of_map hrun
  exact ⟨⟨g, [], by simp⟩, hg,
    (generate_unmarked (.library .pwdBinary) ⟨g, [], by simp⟩).1 (by simpa using hgroup),
    (generate_unmarked .dypgen ⟨g, [], by simp⟩).2⟩

/-- Rules that repeat a component, and a rule with an optional body, that no target refuses. -/
theorem exists_generate_ok_of_marked :
    (∃ d : Description, Grammar.ofTextAsWritten "a: 'x'* 'y'\n" = .ok d.grammar ∧
      (∃ r ∈ d.grammar.rules.rules, ∃ g ∈ r.groups, ∃ p ∈ g.productions, ∃ c ∈ p,
        c.mark ≠ .once) ∧
      ∀ t : Target, ∃ lines, t.generate d = .ok lines) ∧
    ∃ d : Description,
      (∃ r ∈ d.grammar.rules.rules, ∃ g ∈ r.groups, g.optional = true) ∧
      ∀ t : Target, ∃ lines, t.generate d = .ok lines := by
  constructor
  · have hrun : (Grammar.ofTextAsWritten "a: 'x'* 'y'\n").map (fun g => g.rules.rules) =
        .ok [⟨"a", [.body [[⟨.literal "x", .star⟩, ⟨.literal "y", .once⟩]]]⟩] := by
      decide +kernel
    obtain ⟨g, hg, hrules⟩ := exists_eq_ok_of_map hrun
    refine ⟨⟨g, [], by simp⟩, hg, ?_, fun t => ?_⟩
    · rw [hrules]
      decide
    · rw [exists_generate_iff, Description.violations, hrules]
      cases t <;> rfl
  · refine ⟨.optionalBody, by decide, fun t => ?_⟩
    rw [exists_generate_iff]
    cases t <;> rfl

end Target

end GrammarForge
