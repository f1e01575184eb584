import GrammarForge.Proofs.Labels

/-!
The labels in generated parsers. Whatever the target, the rules of a parser hold the label of each
production between quotes, once and in the order of the grammar.
-/

namespace GrammarForge

open Text

def FileDialect.headline : String := "/* Main Grammar Parsers */"

/-- The lines of a parser that stand for the rules of the grammar: those behind the bindings of the
tokens, or behind the headline. -/
def Target.rulePart (d : Description) (lines : List String) : Target → List String
  | .library _ => lines.drop (3 + d.vocabulary.all.length)
  | .menhir | .dypgen => (lines.dropWhile (· != FileDialect.headline)).tail

namespace ResolvedRule

variable {names : List (String × String)} {limit? : Option Limit} {rule : String}

structure IsPlain (r : ResolvedRule) : Prop where
  name : Text.IsPlain r.name
  labels : ∀ a ∈ r.alternatives, isLabel a.label = true ∧ Bare a.label
  parts : ∀ a ∈ r.alternatives, ∀ p ∈ a.parts, Text.IsPlain p

theorem isPlain_of_componentName {c : Component} {part : String}
    (hnames : ∀ v name, names.lookup v = some name → Text.IsPlain name)
    (hrefs : ∀ n, c.symbol = .nonTerminal n → Text.IsPlain n)
    (h : componentName names rule c = .ok part) : Text.IsPlain part := by
  unfold componentName at h
  split at h
  · split at h
    · rename_i name hname
      cases h
      exact hnames _ _ hname
    · cases h
  · split at h
    · rename_i name hname
      cases h
      exact hnames _ _ hname
    · cases h
  · rename_i n hn
    cases h
    exact hrefs _ hn
  · cases h

theorem alternativesFrom_eq_ok {count i : Nat} {ps : List Production} {as : List Alternative}
    (h : alternativesFrom names limit? rule count i ps = .ok as) :
    as.map Alternative.label = (List.range' i ps.length).map (productionLabel rule count) ∧
      ∀ a ∈ as, ∃ p ∈ ps, p.mapM (componentName names rule) = .ok a.parts := by
  induction ps generalizing i as with
  | nil =>
    cases h
    exact ⟨rfl, nofun⟩
  | cons p ps ih =>
    rw [alternativesFrom] at h
    obtain ⟨parts, hp, h⟩ := exists_of_bind_eq_ok h
    obtain ⟨-, -, h⟩ := exists_of_bind_eq_ok h
    obtain ⟨rest, hrest, h⟩ := exists_of_bind_eq_ok h
    cases h
    obtain ⟨hlabels, hparts⟩ := ih hrest
    refine ⟨by simp [hlabels, List.range'_succ], List.forall_mem_cons.mpr ⟨?_, ?_⟩⟩
    · exact ⟨p, List.mem_cons_self, hp⟩
    · intro a ha
      obtain ⟨q, hq, hqa⟩ := hparts a ha
      exact ⟨q, List.mem_cons_of_mem p hq, hqa⟩

/-- A resolved rule has alternatives, the labels of the rule, and words for parts. -/
theorem ofRule_eq_ok {r : Rule} {resolved : ResolvedRule}
    (hname : isWord r.name.toList = true)
    (hnames : ∀ v name, names.lookup v = some name → Text.IsPlain name)
    (hrefs : ∀ n, .nonTerminal n ∈ r.symbols → Text.IsPlain n)
    (h : ofRule names limit? r = .ok resolved) :
    resolved.alternatives ≠ [] ∧ resolved.alternatives.map Alternative.label = r.labels ∧
      resolved.IsPlain := by
  unfold ofRule at h
  cases hg : r.group? with
  | none => simp [hg] at h
  | some g =>
    by_cases hempty : g.productions.isEmpty = true
    · simp [hg, hempty] at h
    simp only [hg, if_neg hempty] at h
    obtain ⟨as, has, h⟩ := exists_of_bind_eq_ok h
    cases h
    obtain ⟨hlabels, hparts⟩ := alternativesFrom_eq_ok has
    have hplain := isPlain_of_isWord hname
    have hof : as.map Alternative.label = r.labels := by
      rw [hlabels, Rule.labels_of_group? hg, List.range_eq_range']
    refine ⟨?_, hof, hplain, fun a ha => ?_, fun a ha part hpart => ?_⟩
    · rintro rfl
      have hcount : g.productions.length = 0 := by simpa using congrArg List.length hlabels.symm
      exact hempty (List.isEmpty_iff.mpr (List.length_eq_zero_iff.mp hcount))
    · obtain ⟨count, i, hlabel⟩ := Rule.exists_of_mem_labels (hof ▸ List.mem_map_of_mem ha)
      rw [hlabel]
      exact ⟨isLabel_productionLabel hname count i, bare_productionLabel hplain count i⟩
    · obtain ⟨p, hp, hpa⟩ := hparts a ha
      obtain ⟨c, hc, hcpart⟩ := exists_of_forall₂_mem (forall₂_of_mapM hpa) hpart
      refine isPlain_of_componentName hnames (fun n hn => hrefs n ?_) hcpart
      rw [← hn, Rule.symbols_of_group? hg, Production.symbolsList_eq_flatMap]
      exact List.mem_flatMap.mpr ⟨p, hp, Production.symbol_mem_symbols hc⟩

end ResolvedRule

namespace Text

variable {s t : String}

theorem lines_append (hs : '\n' ∉ s.toList) (t : String) :
    lines (s ++ ("\n" ++ t)) = s :: lines t := by
  have htext : (s ++ ("\n" ++ t)).toList = s.toList ++ '\n' :: t.toList := by simp
  simp [lines, htext, split_append, split_of_not_mem hs]

/-- Items that are joined over the line, each behind the same opening but the first, and what
follows on a line of its own. -/
theorem lines_intercalate {next opening b : String} {bs : List String} (hnext : '\n' ∉ next.toList)
    (hopening : '\n' ∉ opening.toList) (hbs : ∀ b' ∈ b :: bs, '\n' ∉ b'.toList)
    (behind : String) :
    lines (opening ++ (("\n" ++ next).intercalate (b :: bs) ++ ("\n" ++ behind))) =
      (opening ++ b) :: (bs.map (next ++ ·) ++ lines behind) := by
  have hline : '\n' ∉ (opening ++ b).toList := by simp [hopening, hbs b]
  induction bs generalizing opening b with
  | nil =>
    rw [String.intercalate_singleton, ← String.append_assoc, lines_append hline]
    rfl
  | cons c bs ih =>
    have hrest : ∀ b' ∈ c :: bs, '\n' ∉ b'.toList := fun b' h => hbs b' (List.mem_cons_of_mem b h)
    have htext : opening ++ (("\n" ++ next).intercalate (b :: c :: bs) ++ ("\n" ++ behind)) =
        (opening ++ b) ++
          ("\n" ++ (next ++ (("\n" ++ next).intercalate (c :: bs) ++ ("\n" ++ behind)))) := by
      simp [String.intercalate_cons_cons, String.append_assoc]
    rw [htext, lines_append hline, ih hnext hrest (by simp [hnext, hrest c])]
    simp

end Text

namespace Library

def bindingLines : List String → List String
  | [] => ["let rec "]
  | b :: bs => ("let rec " ++ b) :: bs.map ("    and " ++ ·)

theorem lines_file_eq (l : Library) (bs : List String) :
    Text.lines (l.file bs) = ["open Pytokens", "open " ++ l.module, ""] ++
      Text.lines ("let rec " ++ ("\n    and ".intercalate bs ++ "\n")) := by
  have hmodule : '\n' ∉ ("open " ++ l.module).toList := by cases l <;> decide
  have htext : l.file bs = "open Pytokens" ++ ("\n" ++ (("open " ++ l.module) ++
      ("\n" ++ ("" ++ ("\n" ++ ("let rec " ++ ("\n    and ".intercalate bs ++ "\n"))))))) := by
    apply String.toList_inj.mp
    show ("open Pytokens\nopen " ++ l.module ++ "\n\nlet rec " ++
      "\n    and ".intercalate bs ++ "\n").toList = _
    simp
  rw [htext, Text.lines_append (by decide), Text.lines_append hmodule,
    Text.lines_append (by decide)]
  rfl

theorem lines_bindings {bs : List String} (hne : bs ≠ []) (hbs : ∀ b ∈ bs, '\n' ∉ b.toList)
    (behind : String) :
    Text.lines ("let rec " ++ ("\n    and ".intercalate bs ++ ("\n" ++ behind))) =
      bindingLines bs ++ Text.lines behind := by
  obtain ⟨b, rest, rfl⟩ := List.exists_cons_of_ne_nil hne
  exact Text.lines_intercalate (by decide : '\n' ∉ "    and ".toList)
    (by decide : '\n' ∉ "let rec ".toList) hbs behind

theorem lines_file (l : Library) {bs : List String} (hbs : ∀ b ∈ bs, '\n' ∉ b.toList) :
    Text.lines (l.file bs) =
      ["open Pytokens", "open " ++ l.module, ""] ++ (bindingLines bs ++ [""]) := by
  have hlines : Text.lines ("let rec " ++ ("\n    and ".intercalate bs ++ "\n")) =
      bindingLines bs ++ [""] := by
    by_cases hempty : bs = []
    · subst hempty
      decide
    · exact lines_bindings hempty hbs ""
  rw [lines_file_eq, hlines]

/-- Where there is a binding, each line is one, with a word or two in front. -/
theorem forall₂_bindingLines {bs : List String} (hne : bs ≠ []) :
    List.Forall₂ (fun b line => ∃ opening, Bare opening ∧ line = opening ++ b) bs
      (bindingLines bs) := by
  obtain ⟨b, rest, rfl⟩ := List.exists_cons_of_ne_nil hne
  refine .cons ⟨"let rec ", by decide, rfl⟩ ?_
  rw [List.forall₂_map_right_iff, List.forall₂_same]
  exact fun b _ => ⟨"    and ", by decide, rfl⟩

theorem bare_bound (l : Library) {name : String} (h : Text.IsPlain name) :
    Bare (l.bound name) := by
  have hname : Bare l.name := by cases l <;> decide
  exact bare_append (bare_append hname (by decide)) h.bare

theorem shows_binding (l : Library) {name : String} {x : Expression} (hname : Text.IsPlain name)
    (hx : x.IsBare) (hwritten : Expression.Written Bare l.tree [x.render l.style] [x]) :
    Shows (l.binding name x) x.quoted := by
  have htree : Bare l.tree := by cases l <;> decide
  have htext := (List.forall₂_cons.mp (hwritten.shows htree ⟨hx, trivial⟩)).1
  have hbound : Shows (l.bound name) [] := (l.bare_bound hname).shows
  have hequals : Shows " = " [] := Bare.shows (by decide)
  exact (hbound.append hequals).append htext

theorem shows_tokenBinding (l : Library) {name : String} (hname : Text.IsPlain name) (tag : Nat) :
    Shows (l.binding name (.token tag name)) [name] :=
  l.shows_binding hname hname.bare ((l.faithful_style Bare).token tag name)

section Rules

variable {r : ResolvedRule}

theorem isBare_ruleExpression (l : Library) (hr : r.IsPlain) : (l.ruleExpression r).IsBare := by
  refine Arrangement.isBare_choice _ fun x hx => ?_
  obtain ⟨a, ha, rfl⟩ := List.mem_map.mp hx
  have hparts : ∀ p ∈ a.parts.map l.bound, Bare p := by
    intro p hp
    obtain ⟨part, hpart, rfl⟩ := List.mem_map.mp hp
    exact l.bare_bound (hr.parts a ha part hpart)
  have hproduction := Arrangement.isBare_production l.arrangement (hr.labels a ha).2 hparts
  rwa [List.map_map] at hproduction

theorem shows_ruleBinding (l : Library) (hne : r.alternatives ≠ []) (hr : r.IsPlain) :
    Shows (l.binding r.name (l.ruleExpression r)) (l.ruleExpression r).quoted :=
  l.shows_binding hr.name (l.isBare_ruleExpression hr)
    (l.written_ruleExpression hne fun a ha part hpart => l.bare_bound (hr.parts a ha part hpart))

/-- The expression of a rule has the labels of its productions. -/
theorem filter_quoted_ruleExpression (l : Library) (hr : r.IsPlain) :
    (l.ruleExpression r).quoted.filter isLabel = r.alternatives.map Alternative.label := by
  have hproduction : ∀ a ∈ r.alternatives,
      (l.production a).quoted.filter isLabel = [a.label] := by
    intro a ha
    have h := filter_quoted_production l.arrangement (hr.labels a ha).1 (a.parts.map l.bound)
    rwa [List.map_map] at h
  rw [ruleExpression, Arrangement.quoted_choice, List.flatMap_map, List.filter_flatMap,
    List.flatMap_congr hproduction, ← List.map_eq_flatMap]

end Rules

end Library

theorem map_eq_of_forall₂ {α β γ : Type} {R : α → β → Prop} {f : α → γ} {g : β → γ} {xs : List α}
    {ys : List β} (h : List.Forall₂ R xs ys) (heq : ∀ x ∈ xs, ∀ y, R x y → g y = f x) :
    ys.map g = xs.map f := by
  induction h with
  | nil => rfl
  | @cons x y xs ys hxy h ih =>
    obtain ⟨hx, hxs⟩ := List.forall_mem_cons.mp heq
    rw [List.map_cons, List.map_cons, hx y hxy, ih hxs]

theorem flatMap_eq_of_forall₂ {α β γ : Type} {R : α → β → Prop} {f : α → List γ} {g : β → List γ}
    {xs : List α} {ys : List β} (h : List.Forall₂ R xs ys)
    (heq : ∀ x ∈ xs, ∀ y, R x y → g y = f x) : ys.flatMap g = xs.flatMap f := by
  rw [List.flatMap_def, List.flatMap_def, map_eq_of_forall₂ h heq]

namespace Description

variable {d : Description} {text : String} {limit? : Option Limit}

theorem isWord_of_keys (hnamed : d.grammar.rules.Named)
    (hkeys : ∀ k ∈ d.grammar.rules.keys, isWord k.toList = true) :
    ∀ r ∈ d.grammar.rules.rules, isWord r.name.toList = true ∧
      ∀ n, .nonTerminal n ∈ r.symbols → isWord n.toList = true := by
  intro r hr
  refine ⟨hkeys _ ?_, fun n hn => hkeys n ?_⟩
  · rw [hnamed.keys_eq]
    exact List.mem_map_of_mem hr
  · exact Dictionary.missing_eq_nil_iff.mp d.grammar.closed n
      (Dictionary.mem_symbols_iff.mpr ⟨r, hr, hn⟩)

theorem isWord_of_mem_keys (h : Grammar.ofText text = .ok d.grammar) :
    ∀ k ∈ d.grammar.rules.keys, isWord k.toList = true := by
  obtain ⟨written, flat, stages⟩ := Grammar.ofText_eq_ok_iff.mp h
  intro k hk
  have hname := stages.isName_of_mem_keys hk
  simp only [isName, Bool.and_eq_true] at hname
  exact hname.1

theorem isWord_of_ofText (h : Grammar.ofText text = .ok d.grammar) :
    ∀ r ∈ d.grammar.rules.rules, isWord r.name.toList = true ∧
      ∀ n, .nonTerminal n ∈ r.symbols → isWord n.toList = true :=
  isWord_of_keys (Grammar.canonical_of_ofText h).named (isWord_of_mem_keys h)

theorem resolve_eq_ok {rules : List ResolvedRule}
    (hwords : ∀ r ∈ d.grammar.rules.rules, isWord r.name.toList = true ∧
      ∀ n, .nonTerminal n ∈ r.symbols → isWord n.toList = true)
    (hrules : d.resolve limit? = .ok rules) :
    (∀ r ∈ rules, r.alternatives ≠ [] ∧ r.IsPlain) ∧
      rules.flatMap (fun r => r.alternatives.map Alternative.label) = d.grammar.rules.labels := by
  have hresolved : ∀ r ∈ d.grammar.rules.rules, ∀ resolved,
      ResolvedRule.ofRule d.names limit? r = .ok resolved → resolved.alternatives ≠ [] ∧
        resolved.alternatives.map Alternative.label = r.labels ∧ resolved.IsPlain := by
    intro r hr resolved hof
    obtain ⟨hname, hrefs⟩ := hwords r hr
    exact ResolvedRule.ofRule_eq_ok hname (fun _ _ => isPlain_of_lookup)
      (fun n hn => isPlain_of_isWord (hrefs n hn)) hof
  have hmatch := forall₂_of_mapM hrules
  refine ⟨fun resolved hmem => ?_, flatMap_eq_of_forall₂ hmatch fun r hr resolved hof => ?_⟩
  · obtain ⟨r, hr, hof⟩ := exists_of_forall₂_mem hmatch hmem
    exact ⟨(hresolved r hr resolved hof).1, (hresolved r hr resolved hof).2.2⟩
  · exact (hresolved r hr resolved hof).2.1

theorem tagged_eq_ok {tokens : List (String × Nat)} (h : d.vocabulary.tagged = .ok tokens) :
    tokens.map Prod.fst = d.vocabulary.all ∧ ∀ t ∈ tokens, IsPlain t.1 := by
  have hnames : tokens.map Prod.fst = d.vocabulary.all := by
    rw [← List.map_id d.vocabulary.all]
    refine map_eq_of_forall₂ (forall₂_of_mapM h) fun name _ t hof => ?_
    obtain ⟨tag, -, rfl⟩ := exists_eq_ok_of_map hof
    rfl
  refine ⟨hnames, fun t ht => ?_⟩
  have hname : t.1 ∈ d.vocabulary.all := hnames ▸ List.mem_map_of_mem ht
  exact Vocabulary.isPlain_of_mem_all hname

end Description

namespace Library

theorem showsLabels_bindings (l : Library) {rules : List ResolvedRule} {lines : List String}
    (hrules : ∀ r ∈ rules, r.alternatives ≠ [] ∧ r.IsPlain)
    (hlines : List.Forall₂ (fun r line => ∃ opening, Bare opening ∧
      line = opening ++ l.binding r.name (l.ruleExpression r)) rules lines) :
    ShowsLabels lines (rules.flatMap fun r => r.alternatives.map Alternative.label) := by
  induction hlines with
  | nil => exact .nil
  | @cons r line rules lines hline _ ih =>
    obtain ⟨opening, hopening, rfl⟩ := hline
    obtain ⟨⟨hne, hplain⟩, hrest⟩ := List.forall_mem_cons.mp hrules
    have hshows := hopening.shows.append (l.shows_ruleBinding hne hplain)
    exact (ShowsLabels.singleton hshows (l.filter_quoted_ruleExpression hplain)).append (ih hrest)

theorem not_mem_bindings (l : Library) {tokens : List (String × Nat)} {rules : List ResolvedRule}
    (htokens : ∀ t ∈ tokens, Text.IsPlain t.1)
    (hrules : ∀ r ∈ rules, r.alternatives ≠ [] ∧ r.IsPlain) :
    ∀ b ∈ l.bindings tokens rules, '\n' ∉ b.toList := by
  intro b hb
  rcases List.mem_append.mp hb with hb | hb
  · obtain ⟨t, ht, rfl⟩ := List.mem_map.mp hb
    exact (l.shows_tokenBinding (htokens t ht) t.2).oneLine
  · obtain ⟨r, hr, rfl⟩ := List.mem_map.mp hb
    exact (l.shows_ruleBinding (hrules r hr).1 (hrules r hr).2).oneLine

theorem showsLabels_file (l : Library) {tokens : List (String × Nat)} {rules : List ResolvedRule}
    (htokens : ∀ t ∈ tokens, Text.IsPlain t.1)
    (hrules : ∀ r ∈ rules, r.alternatives ≠ [] ∧ r.IsPlain) :
    ShowsLabels ((Text.lines (l.file (l.bindings tokens rules))).drop (3 + tokens.length))
      (rules.flatMap fun r => r.alternatives.map Alternative.label) := by
  have hbehind : (l.bindings tokens rules).drop tokens.length =
      rules.map fun r => l.binding r.name (l.ruleExpression r) :=
    List.drop_left' (List.length_map _)
  have hbare : ∀ {line}, Bare line → ShowsLabels [line] [] := fun h => .singleton h.shows rfl
  rw [lines_file l (l.not_mem_bindings htokens hrules), Nat.add_comm]
  show ShowsLabels ((bindingLines (l.bindings tokens rules) ++ [""]).drop tokens.length) _
  by_cases hempty : l.bindings tokens rules = []
  · obtain ⟨htokens, hrules⟩ := List.append_eq_nil_iff.mp hempty
    obtain rfl := List.map_eq_nil_iff.mp htokens
    obtain rfl := List.map_eq_nil_iff.mp hrules
    rw [hempty]
    exact (hbare (by decide)).append (hbare (by decide))
  · have hmatch := forall₂_bindingLines hempty
    have hlength : tokens.length ≤ (bindingLines (l.bindings tokens rules)).length := by
      rw [← hmatch.length_eq]
      simp [bindings]
    have hdrop := List.forall₂_drop tokens.length hmatch
    rw [hbehind, List.forall₂_map_left_iff] at hdrop
    have hall := (l.showsLabels_bindings hrules hdrop).append (hbare (by decide : Bare ""))
    rwa [List.append_nil, ← List.drop_append_of_le_length hlength] at hall

/-- Behind the bindings of the tokens are the labels of the grammar. -/
theorem labelsIn_rulePart (l : Library) {d : Description} {text : String} {lines : List String}
    (h : Grammar.ofText text = .ok d.grammar) (hlines : l.generate d = .ok lines) :
    labelsIn ((Target.library l).rulePart d lines) = d.grammar.rules.labels := by
  obtain ⟨tokens, htokens, hlines⟩ := exists_of_bind_eq_ok hlines
  obtain ⟨rules, hrules, hlines⟩ := exists_of_bind_eq_ok hlines
  cases hlines
  obtain ⟨hnames, hplain⟩ := Description.tagged_eq_ok htokens
  have hlength : tokens.length = d.vocabulary.all.length := by simp [← hnames]
  obtain ⟨hresolved, hlabels⟩ := Description.resolve_eq_ok (Description.isWord_of_ofText h) hrules
  rw [Target.rulePart, ← hlength, (l.showsLabels_file hplain hresolved).labelsIn_eq, hlabels]

end Library

namespace FileDialect

theorem mem_intercalate {sep : String} {items : List String} {c : Char}
    (h : c ∈ (sep.intercalate items).toList) :
    c ∈ sep.toList ∨ ∃ item ∈ items, c ∈ item.toList := by
  induction items with
  | nil => simp at h
  | cons item items ih =>
    cases items with
    | nil => exact .inr ⟨item, List.mem_cons_self, by simpa using h⟩
    | cons next items =>
      rw [String.intercalate_cons_cons, String.toList_append, String.toList_append] at h
      rcases List.mem_append.mp h with h | h
      · rcases List.mem_append.mp h with h | h
        · exact .inr ⟨item, List.mem_cons_self, h⟩
        · exact .inl h
      · refine (ih h).imp_right fun ⟨found, hfound, hc⟩ => ?_
        exact ⟨found, List.mem_cons_of_mem item hfound, hc⟩

theorem bare_intercalate {sep : String} (hsep : Bare sep) {items : List String}
    (h : ∀ item ∈ items, Bare item) : Bare (sep.intercalate items) := by
  have hchar : ∀ c, c ∉ sep.toList → (∀ item ∈ items, c ∉ item.toList) →
      c ∉ (sep.intercalate items).toList := by
    intro c hc hitems hmem
    rcases mem_intercalate hmem with hmem | ⟨item, hitem, hmem⟩
    · exact hc hmem
    · exact hitems item hitem hmem
  exact ⟨hchar _ hsep.1 fun item hitem => (h item hitem).1,
    hchar _ hsep.2 fun item hitem => (h item hitem).2⟩

theorem shows_production {a : Alternative} (hl : Bare a.label) (hparts : ∀ p ∈ a.parts, Bare p) :
    Shows (production a) [a.label] := by
  have hnames : Bare (" ".intercalate a.parts) := bare_intercalate (by decide) hparts
  have hresults : Bare ("; ".intercalate
      ((List.range a.parts.length).map fun i => "$" ++ toString (i + 1))) := by
    refine bare_intercalate (by decide) fun item hitem => ?_
    obtain ⟨i, -, rfl⟩ := List.mem_map.mp hitem
    exact bare_append (by decide) (bare_toString (i + 1))
  unfold production
  generalize " ".intercalate a.parts = names at hnames ⊢
  dsimp only
  generalize "; ".intercalate ((List.range a.parts.length).map _) = results at hresults ⊢
  refine ⟨fun rest => ?_, ?_⟩
  · simp [action, quotedTextsFrom_none, quotedTextsFrom_some hl.1, hnames.shows.quoted,
      hresults.shows.quoted]
  · simp [action, hl.2, hnames.2, hresults.2]

/-- The lines of a rule have the labels of its productions. -/
theorem showsLabels_rule (dialect : FileDialect) {r : ResolvedRule} (hr : r.IsPlain) :
    ShowsLabels (dialect.rule r) (r.alternatives.map Alternative.label) := by
  have hline : ∀ a ∈ r.alternatives, ∀ opening, Bare opening →
      ShowsLabels [opening ++ production a] [a.label] := by
    intro a ha opening hopening
    have hproduction := shows_production (hr.labels a ha).2 fun p hp => (hr.parts a ha p hp).bare
    exact .singleton (hopening.shows.append hproduction) (by simp [(hr.labels a ha).1])
  unfold rule
  split
  · rename_i a _ ha
    rw [ha]
    exact hline a (ha ▸ List.mem_cons_self) _ (bare_append hr.name.bare (by decide))
  · have hhead : Bare (r.name ++ ":") := bare_append hr.name.bare (by decide)
    have hlines := ShowsLabels.flatMap fun a ha => hline a ha "    | " (by decide)
    rw [← List.map_eq_flatMap, ← List.map_eq_flatMap] at hlines
    exact (ShowsLabels.singleton hhead.shows rfl).append hlines

def prelude (dialect : FileDialect) (d : Description) : List String :=
  dialect.header ++ ["", "/* Token Definitions */"] ++ tokenDeclarations d.vocabulary ++
    ["", "/* Start Symbols */"] ++ startDeclarations d.starts ++ ["", "%%", ""] ++
    ["/* Token Parsers */"] ++ tokenRules d.vocabulary ++ [""]

theorem generate_eq_ok {dialect : FileDialect} {d : Description} {lines : List String}
    (h : dialect.generate d = .ok lines) :
    ∃ rules, d.resolve dialect.limit? = .ok rules ∧
      lines = dialect.prelude d ++ headline :: (rules.flatMap dialect.rule ++ [""]) := by
  obtain ⟨rules, hrules, h⟩ := exists_of_bind_eq_ok h
  refine ⟨rules, hrules, (Except.ok.inj h).symm.trans ?_⟩
  simp [prelude, headline]

/-- A heading is not among lines that share a character which it does not have. -/
theorem not_mem_of_char {heading : String} {c : Char} {lines : List String}
    (hlines : ∀ line ∈ lines, c ∈ line.toList) (hc : c ∉ heading.toList) : heading ∉ lines :=
  fun h => hc (hlines heading h)

theorem percent_mem_tokenDeclarations (v : Vocabulary) :
    ∀ line ∈ tokenDeclarations v, '%' ∈ line.toList := by
  simp only [tokenDeclarations, List.forall_mem_append, List.forall_mem_map]
  simp

theorem percent_mem_startDeclarations (starts : List String) :
    ∀ line ∈ startDeclarations starts, '%' ∈ line.toList := by
  simp only [startDeclarations, List.forall_mem_map]
  simp

theorem colon_mem_tokenRules (v : Vocabulary) : ∀ line ∈ tokenRules v, ':' ∈ line.toList := by
  simp only [tokenRules, List.forall_mem_append, List.forall_mem_map]
  simp

/-- Declarations hold a percent sign, rules of tokens a colon, and the headline neither. -/
theorem headline_not_mem_prelude {dialect : FileDialect} (hheader : headline ∉ dialect.header)
    (d : Description) : headline ∉ dialect.prelude d := by
  have htokens := not_mem_of_char (percent_mem_tokenDeclarations d.vocabulary)
    (by decide : '%' ∉ headline.toList)
  have hstarts := not_mem_of_char (percent_mem_startDeclarations d.starts)
    (by decide : '%' ∉ headline.toList)
  have hrules := not_mem_of_char (colon_mem_tokenRules d.vocabulary)
    (by decide : ':' ∉ headline.toList)
  simp only [prelude, List.mem_append, not_or]
  refine ⟨⟨⟨⟨⟨⟨⟨⟨hheader, ?_⟩, htokens⟩, ?_⟩, hstarts⟩, ?_⟩, ?_⟩, hrules⟩, ?_⟩ <;> decide

theorem labelsIn_rulePart (dialect : FileDialect) (hheader : headline ∉ dialect.header)
    {d : Description} {text : String} {lines : List String}
    (h : Grammar.ofText text = .ok d.grammar) (hlines : dialect.generate d = .ok lines) :
    labelsIn ((lines.dropWhile (· != headline)).tail) = d.grammar.rules.labels := by
  obtain ⟨rules, hrules, rfl⟩ := generate_eq_ok hlines
  obtain ⟨hresolved, hlabels⟩ := Description.resolve_eq_ok (Description.isWord_of_ofText h) hrules
  have hskip : ∀ line ∈ dialect.prelude d, (line != headline) = true := by
    intro line hline
    have hne : line ≠ headline := by
      rintro rfl
      exact headline_not_mem_prelude hheader d hline
    simpa using hne
  have hbehind : (headline :: (rules.flatMap dialect.rule ++ [""])).dropWhile (· != headline) =
      headline :: (rules.flatMap dialect.rule ++ [""]) := by simp
  have hlast : ShowsLabels [""] [] := .singleton (Bare.shows (by decide)) rfl
  have hall := (ShowsLabels.flatMap fun r hr => dialect.showsLabels_rule (hresolved r hr).2).append
    hlast
  rw [List.dropWhile_append_of_pos hskip, hbehind, List.tail_cons, hall.labelsIn_eq,
    List.append_nil, hlabels]

end FileDialect

namespace Target

/-- Between the quotes in the rules of every parser are the labels of the grammar, in order and no
two alike, and none of them is the label of a pair. -/
theorem labelsIn_generate {d : Description} {text : String}
    (h : Grammar.ofText text = .ok d.grammar) :
    (∀ (t : Target) (lines : List String), t.generate d = .ok lines →
      labelsIn (t.rulePart d lines) = d.grammar.rules.labels) ∧
    d.grammar.rules.labels.Nodup ∧
    ∀ label ∈ d.grammar.rules.labels, ∀ inner i, label ≠ Arrangement.pairLabel inner i := by
  have hword : ∀ r ∈ d.grammar.rules.rules, isWord r.name.toList = true :=
    fun r hr => (Description.isWord_of_ofText h r hr).1
  refine ⟨fun t lines hlines => ?_, ?_, fun label hlabel inner i heq => ?_⟩
  · cases t with
    | menhir => exact FileDialect.menhir.labelsIn_rulePart (by decide) h hlines
    | dypgen => exact FileDialect.dypgen.labelsIn_rulePart (by decide) h hlines
    | library l => exact l.labelsIn_rulePart h hlines
  · exact Dictionary.nodup_labels (Grammar.canonical_of_ofText h).named
      fun r hr => isPlain_of_isWord (hword r hr)
  · obtain ⟨r, hr, hlabel⟩ := List.mem_flatMap.mp hlabel
    obtain ⟨count, position, rfl⟩ := Rule.exists_of_mem_labels hlabel
    have hlabel := isLabel_productionLabel (hword r hr) count position
    rw [heq, isLabel_pairLabel] at hlabel
    cases hlabel

/-- An empty production, one whose pairs have labels, and a rule with a single production. -/
theorem labelsIn_generate_pairs :
    ∃ d : Description, Grammar.ofText "a: | A b C\nb: 'x' a\n" = .ok d.grammar ∧
      (∃ lines, (Target.library .pwdBinary).generate d = .ok lines ∧
        labelsIn ((Target.library .pwdBinary).rulePart d lines) = ["a-1", "a-2", "b"]) ∧
      (∃ lines, Target.menhir.generate d = .ok lines ∧
        labelsIn (Target.menhir.rulePart d lines) = ["a-1", "a-2", "b"]) ∧
      ["a-1", "a-2", "b"].Nodup ∧
      ∀ label ∈ ["a-1", "a-2", "b"], label ≠ Arrangement.pairLabel "a-1" 1 := by
  have hrun : (Grammar.ofText "a: | A b C\nb: 'x' a\n").map (fun g => (g.rules.labels,
      g.rules.rules.flatMap (Rule.violations none),
      g.rules.rules.flatMap (Rule.violations (some ⟨"menhir", 9⟩)))) =
      .ok (["a-1", "a-2", "b"], [], []) := by decide +kernel
  obtain ⟨g, hg, hfacts⟩ := exists_eq_ok_of_map hrun
  simp only [Prod.mk.injEq] at hfacts
  obtain ⟨hlabels, hnone, hmenhir⟩ := hfacts
  let d : Description := ⟨g, [], by simp⟩
  obtain ⟨hsequence, hnodup, hpairs⟩ := labelsIn_generate (d := d) hg
  rw [hlabels] at hsequence hnodup hpairs
  obtain ⟨lines, hlines⟩ : ∃ lines, (Target.library .pwdBinary).generate d = .ok lines :=
    exists_generate_iff.mpr hnone
  obtain ⟨lines', hlines'⟩ : ∃ lines, Target.menhir.generate d = .ok lines :=
    exists_generate_iff.mpr hmenhir
  exact ⟨d, hg, ⟨lines, hlines, hsequence _ lines hlines⟩,
    ⟨lines', hlines', hsequence _ lines' hlines'⟩, hnodup, fun label hl => hpairs label hl "a-1" 1⟩

end Target

end GrammarForge
