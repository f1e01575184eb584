import GrammarForge.Proofs.LabelSequence
import GrammarForge.Proofs.UsedNames

/-!
What a group of bindings binds and what it uses. Read off its lines, it binds each token and then
each rule, and a rule uses the names of its components and no others.
-/

namespace GrammarForge

open Text

def Symbol.partName? (names : List (String × String)) : Symbol → Option String
  | .terminal v | .literal v => names.lookup v
  | .nonTerminal n => some n
  | .group _ => none

/-- The names that the components of a rule are written as, in reading order. -/
def Description.partNames (d : Description) (r : Rule) : List String :=
  r.symbols.filterMap (Symbol.partName? d.names)

namespace ResolvedRule

variable {names : List (String × String)} {limit? : Option Limit} {rule : String}

theorem componentName_eq_ok {c : Component} {part : String}
    (h : componentName names rule c = .ok part) :
    c.symbol.withInner.filterMap (Symbol.partName? names) = [part] := by
  obtain ⟨s, m⟩ := c
  cases s with
  | terminal v | literal v =>
    simp only [componentName] at h
    split at h
    · rename_i name hname
      cases h
      simp [Symbol.withInner, Symbol.partName?, hname]
    · cases h
  | nonTerminal n =>
    cases h
    rfl
  | group g => cases h

theorem parts_of_mapM {p : Production} {parts : List String}
    (h : p.mapM (componentName names rule) = .ok parts) :
    (Production.symbols p).filterMap (Symbol.partName? names) = parts := by
  induction p generalizing parts with
  | nil =>
    cases h
    rfl
  | cons c p ih =>
    rw [List.mapM_cons] at h
    obtain ⟨part, hpart, h⟩ := exists_of_bind_eq_ok h
    obtain ⟨rest, hrest, h⟩ := exists_of_bind_eq_ok h
    cases h
    rw [Production.symbols_cons, List.filterMap_append, componentName_eq_ok hpart, ih hrest]
    rfl

theorem parts_of_alternativesFrom {count i : Nat} {ps : List Production} {as : List Alternative}
    (h : alternativesFrom names limit? rule count i ps = .ok as) :
    as.flatMap Alternative.parts =
      (Production.symbolsList ps).filterMap (Symbol.partName? names) := by
  induction ps generalizing i as with
  | nil =>
    cases h
    rfl
  | cons p ps ih =>
    rw [alternativesFrom] at h
    obtain ⟨parts, hp, h⟩ := exists_of_bind_eq_ok h
    obtain ⟨-, -, h⟩ := exists_of_bind_eq_ok h
    obtain ⟨rest, hrest, h⟩ := exists_of_bind_eq_ok h
    cases h
    rw [List.flatMap_cons, ih hrest, ← parts_of_mapM hp, ← List.filterMap_append]
    rfl

theorem parts_of_ofRule {r : Rule} {resolved : ResolvedRule}
    (h : ofRule names limit? r = .ok resolved) :
    resolved.name = r.name ∧ resolved.alternatives.flatMap Alternative.parts =
      r.symbols.filterMap (Symbol.partName? names) := by
  unfold ofRule at h
  cases hg : r.group? with
  | none => simp [hg] at h
  | some g =>
    by_cases hempty : g.productions.isEmpty = true
    · simp [hg, hempty] at h
    simp only [hg, if_neg hempty] at h
    obtain ⟨as, has, h⟩ := exists_of_bind_eq_ok h
    cases h
    exact ⟨rfl, by rw [parts_of_alternativesFrom has, Rule.symbols_of_group? hg]⟩

end ResolvedRule

namespace Description

variable {d : Description} {limit? : Option Limit}

theorem resolve_parts {rules : List ResolvedRule} (hrules : d.resolve limit? = .ok rules) :
    rules.map (fun r => (r.name, r.alternatives.flatMap Alternative.parts)) =
      d.grammar.rules.rules.map fun r => (r.name, d.partNames r) := by
  refine map_eq_of_forall₂ (forall₂_of_mapM hrules) fun r _ resolved hof => ?_
  obtain ⟨hname, hparts⟩ := ResolvedRule.parts_of_ofRule hof
  rw [hname, hparts]
  rfl

theorem mem_of_mem_partNames {r : Rule} {part : String} (hr : r ∈ d.grammar.rules.rules)
    (h : part ∈ d.partNames r) : part ∈ d.vocabulary.all ∨ part ∈ d.grammar.rules.keys := by
  obtain ⟨s, hs, hpart⟩ := List.mem_filterMap.mp h
  cases s with
  | terminal v | literal v => exact .inl (Vocabulary.mem_all_of_lookup hpart)
  | nonTerminal n =>
    cases hpart
    exact .inr (Dictionary.missing_eq_nil_iff.mp d.grammar.closed _
      (Dictionary.mem_symbols_iff.mpr ⟨r, hr, hs⟩))
  | group g => cases hpart

theorem ne_empty_of_mem_partNames (hkeys : ∀ k ∈ d.grammar.rules.keys, isWord k.toList = true)
    {r : Rule} {part : String} (hr : r ∈ d.grammar.rules.rules) (h : part ∈ d.partNames r) :
    part ≠ "" := by
  obtain ⟨s, hs, hpart⟩ := List.mem_filterMap.mp h
  cases s with
  | terminal v | literal v => exact ne_empty_of_lookup hpart
  | nonTerminal n =>
    cases hpart
    have hword := hkeys _ (Dictionary.missing_eq_nil_iff.mp d.grammar.closed _
      (Dictionary.mem_symbols_iff.mpr ⟨r, hr, hs⟩))
    rintro rfl
    cases hword
  | group g => cases hpart

end Description

namespace Library

/-- The name that a line binds, and the text of its expression. -/
def binding? (line : String) : Option (String × String) := do
  let binding ← ["let rec ", "    and "].findSome? fun opening =>
    line.toList.dropPrefix? opening.toList
  let text ← (binding.dropWhile isWordChar).dropPrefix? " = ".toList
  some (String.ofList (binding.takeWhile isWordChar), String.ofList text)

def bindingsIn (lines : List String) : List (String × String) := lines.filterMap binding?

def boundNames (lines : List String) : List String := (bindingsIn lines).map Prod.fst

/-- A word that begins with the prefix of the library. -/
def ownsWord (l : Library) (w : List Char) : Bool := (l.bound "").toList.isPrefixOf w

def usedNames (l : Library) (text : String) : List String := words l.ownsWord text

theorem toList_bound (l : Library) (name : String) :
    (l.bound name).toList = (l.bound "").toList ++ name.toList := by
  simp [bound]

theorem distinctive_ownsWord (l : Library) : Distinctive l.ownsWord where
  nil := by cases l <;> decide
  cons c cs hc := by
    obtain ⟨rest, hrest⟩ : ∃ rest, (l.bound "").toList = 'p' :: rest := by
      cases l <;> exact ⟨_, rfl⟩
    simp [ownsWord, hrest, List.isPrefixOf, hc.symm]

theorem isPlain_bound (l : Library) {name : String} (h : IsPlain name) :
    IsPlain (l.bound name) := by
  have hempty : IsPlain (l.bound "") := List.all_eq_true.mp (by cases l <;> decide)
  intro c hc
  rw [toList_bound] at hc
  exact (List.mem_append.mp hc).elim (hempty c) (h c)

theorem hasWords_bound (l : Library) {name : String} (h : IsPlain name) :
    HasWords l.ownsWord (l.bound name) [l.bound name] := by
  have howns : l.ownsWord (l.bound name).toList = true := by
    rw [ownsWord, l.toList_bound name, List.isPrefixOf_iff_prefix]
    exact List.prefix_append _ _
  simpa [howns] using (l.isPlain_bound h).hasWords l.distinctive_ownsWord.nil

theorem hasWords_tree (l : Library) : HasWords l.ownsWord l.tree [] := by
  have hplain : IsPlain l.tree := List.all_eq_true.mp (by cases l <;> decide)
  have hnone : l.ownsWord l.tree.toList = false := by cases l <;> decide
  simpa [hnone] using hplain.hasWords l.distinctive_ownsWord.nil

theorem usedNames_token (l : Library) {name : String} (h : IsPlain name) (tag : Nat) :
    l.usedNames ((Expression.token tag name).render l.style) = [] := by
  have hwritten := (l.faithful_style fun part => HasWords l.ownsWord part [part]).token tag name
  have hwords := hwritten.hasWords l.distinctive_ownsWord l.hasWords_tree ⟨h.bare, trivial⟩
  exact (List.forall₂_cons.mp hwords).1.words_eq l.distinctive_ownsWord.nil

/-- A rule uses the names of its parts, in order. -/
theorem usedNames_ruleExpression (l : Library) {r : ResolvedRule} (hne : r.alternatives ≠ [])
    (hr : r.IsPlain) : l.usedNames ((l.ruleExpression r).render l.style) =
      (r.alternatives.flatMap Alternative.parts).map l.bound := by
  have hwritten : Expression.Written (fun part => HasWords l.ownsWord part [part]) l.tree
      [(l.ruleExpression r).render l.style] [l.ruleExpression r] :=
    l.written_ruleExpression hne fun a ha part hpart => l.hasWords_bound (hr.parts a ha part hpart)
  have hwords := hwritten.hasWords l.distinctive_ownsWord l.hasWords_tree
    ⟨l.isBare_ruleExpression hr, trivial⟩
  have hproduction : ∀ a : Alternative, (l.production a).names = a.parts.map l.bound := by
    intro a
    have hnames := Arrangement.names_production l.arrangement a.label (a.parts.map l.bound)
    rwa [List.map_map] at hnames
  rw [usedNames, (List.forall₂_cons.mp hwords).1.words_eq l.distinctive_ownsWord.nil,
    ruleExpression, Arrangement.names_choice, List.flatMap_map, List.map_flatMap]
  exact List.flatMap_congr fun a _ => hproduction a

theorem binding?_line (l : Library) {opening name : String} {x : Expression}
    (hopening : opening ∈ ["let rec ", "    and "]) (h : IsPlain name) :
    binding? (opening ++ l.binding name x) = some (l.bound name, x.render l.style) := by
  have hfind : ["let rec ", "    and "].findSome? (fun opening' =>
      (opening ++ l.binding name x).toList.dropPrefix? opening'.toList) =
        some (l.binding name x).toList := by
    simp only [List.mem_cons, List.not_mem_nil, or_false] at hopening
    rcases hopening with rfl | rfl <;> simp [List.dropPrefix?]
  have hname := l.isPlain_bound h
  have htake : (l.binding name x).toList.takeWhile isWordChar = (l.bound name).toList := by
    simp [binding, List.takeWhile_append_of_pos hname, isWordChar]
  have hdrop : (l.binding name x).toList.dropWhile isWordChar =
      ' ' :: '=' :: ' ' :: (x.render l.style).toList := by
    simp [binding, List.dropWhile_append_of_pos hname, isWordChar]
  unfold binding?
  rw [hfind]
  simp [htake, hdrop, List.dropPrefix?]

/-- What the group defines: a leaf for each token, and the expression of each rule. -/
def definitions (l : Library) (tokens : List (String × Nat)) (rules : List ResolvedRule) :
    List (String × Expression) :=
  tokens.map (fun t => (t.1, .token t.2 t.1)) ++ rules.map fun r => (r.name, l.ruleExpression r)

theorem bindings_eq_map (l : Library) (tokens : List (String × Nat)) (rules : List ResolvedRule) :
    l.bindings tokens rules = (l.definitions tokens rules).map fun b => l.binding b.1 b.2 := by
  simp [bindings, definitions, Function.comp_def]

theorem bindingsIn_bindingLines (l : Library) {bs : List (String × Expression)}
    (h : ∀ b ∈ bs, IsPlain b.1) :
    bindingsIn (bindingLines (bs.map fun b => l.binding b.1 b.2)) =
      bs.map fun b => (l.bound b.1, b.2.render l.style) := by
  cases bs with
  | nil => exact (by decide : bindingsIn ["let rec "] = [])
  | cons b bs =>
    obtain ⟨hb, hbs⟩ := List.forall_mem_cons.mp h
    have hfirst := l.binding?_line (x := b.2) (by simp : "let rec " ∈ _) hb
    have hothers : (bs.map fun c => "    and " ++ l.binding c.1 c.2).filterMap binding? =
        bs.map fun c => (l.bound c.1, c.2.render l.style) := by
      rw [List.filterMap_map, ← List.filterMap_eq_map]
      exact List.filterMap_congr fun c hc => l.binding?_line (by simp) (hbs c hc)
    rw [List.map_cons, bindingLines, bindingsIn, List.filterMap_cons_some hfirst, List.map_map]
    exact congrArg ((l.bound b.1, b.2.render l.style) :: ·) hothers

theorem bindingsIn_file (l : Library) {bs : List String} (h : ∀ b ∈ bs, '\n' ∉ b.toList) :
    bindingsIn (lines (l.file bs)) = bindingsIn (bindingLines bs) := by
  have hopens : bindingsIn ["open Pytokens", "open " ++ l.module, ""] = [] := by
    cases l <;> decide
  have hlast : bindingsIn [""] = [] := by decide
  unfold bindingsIn at hopens hlast ⊢
  rw [l.lines_file h, List.filterMap_append, List.filterMap_append, hopens, hlast, List.nil_append,
    List.append_nil]

/-- Each token is bound, without a use of any name, and then each rule, with the uses of its
parts. -/
theorem bindingsIn_generate (l : Library) {d : Description} {lines : List String}
    (hnamed : d.grammar.rules.Named) (hkeys : ∀ k ∈ d.grammar.rules.keys, isWord k.toList = true)
    (h : l.generate d = .ok lines) :
    (bindingsIn lines).map (fun b => (b.1, l.usedNames b.2)) =
      d.vocabulary.all.map (fun name => (l.bound name, [])) ++
        d.grammar.rules.rules.map fun r => (l.bound r.name, (d.partNames r).map l.bound) := by
  obtain ⟨tokens, htokens, h⟩ := exists_of_bind_eq_ok h
  obtain ⟨rules, hrules, h⟩ := exists_of_bind_eq_ok h
  cases h
  obtain ⟨hnames, hplain⟩ := Description.tagged_eq_ok htokens
  have hwords := Description.isWord_of_keys hnamed hkeys
  obtain ⟨hresolved, -⟩ := Description.resolve_eq_ok hwords hrules
  have hdefined : ∀ b ∈ l.definitions tokens rules, IsPlain b.1 := by
    simp only [definitions, List.forall_mem_append, List.forall_mem_map]
    exact ⟨hplain, fun r hr => (hresolved r hr).2.name⟩
  have htoken : ∀ t ∈ tokens,
      (l.bound t.1, l.usedNames ((Expression.token t.2 t.1).render l.style)) = (l.bound t.1, []) :=
    fun t ht => by rw [l.usedNames_token (hplain t ht)]
  have hrule : ∀ r ∈ rules, (l.bound r.name, l.usedNames ((l.ruleExpression r).render l.style)) =
      (l.bound r.name, (r.alternatives.flatMap Alternative.parts).map l.bound) :=
    fun r hr => by rw [l.usedNames_ruleExpression (hresolved r hr).1 (hresolved r hr).2]
  have hparts := congrArg (List.map fun p : String × List String => (l.bound p.1, p.2.map l.bound))
    (Description.resolve_parts hrules)
  rw [List.map_map, List.map_map] at hparts
  rw [l.bindingsIn_file (l.not_mem_bindings hplain hresolved), bindings_eq_map,
    l.bindingsIn_bindingLines hdefined, List.map_map, definitions, List.map_append, List.map_map,
    List.map_map, ← hnames, List.map_map]
  exact congrArg₂ (· ++ ·) (List.map_congr_left htoken) ((List.map_congr_left hrule).trans hparts)

end Library

end GrammarForge
