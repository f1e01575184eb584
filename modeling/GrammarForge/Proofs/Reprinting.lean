import GrammarForge.Proofs.Transformation

/-!
When the printed form of a transformed grammar is read back as the grammar. Names of synthesized
rules keep the letters of the rule they were made for, so only those made for lower-case rules can
be read back as references; and nothing can be read back as a rule with a lone empty body.
-/

namespace GrammarForge

section Words

variable {w v : List Char} {owner : String}

theorem isWord_append (hw : isWord w = true) (hv : v.all Text.isWordChar = true) :
    isWord (w ++ v) = true := by
  cases w with
  | nil => cases hw
  | cons c cs =>
    obtain ⟨hc, hcs⟩ : Text.isWordStart c = true ∧ cs.all Text.isWordChar = true := by
      simpa [isWord] using hw
    simp [isWord, hc, List.all_append, hcs, hv]

theorem ofSpelling?_of_underscore {s : String} (hs : '_' ∈ s.toList) :
    Token.Keyword.ofSpelling? s = none := by
  have hkeyword : ∀ k : Token.Keyword, '_' ∉ k.spelling.toList := by
    intro k
    cases k <;> decide
  cases hk : Token.Keyword.ofSpelling? s with
  | none => rfl
  | some k =>
    rw [← Token.Keyword.spelling_of_ofSpelling? hk] at hs
    exact absurd hs (hkeyword k)

theorem inherited_isName : Inherited fun s => isName s = true := by
  intro origin owner position counter h
  have howner : isWord owner.toList = true := by
    simp only [isName, Bool.and_eq_true] at h
    exact h.1
  have htag : origin.tag.toList.all Text.isWordChar = true := by cases origin <;> decide
  have hdigits : ∀ n, (Nat.toDigits 10 n).all Text.isWordChar = true := by
    intro n
    rw [List.all_eq_true]
    intro c hc
    have hdigit : c.isDigit = true := Nat.isDigit_of_mem_toDigits (by decide) (by decide) hc
    simp [Text.isWordChar, Char.isAlphanum, hdigit]
  have htext : (origin.name owner position counter).toList = owner.toList ++ (['_', '_'] ++
      origin.tag.toList ++ ['_'] ++ Nat.toDigits 10 position ++ ['_', '_'] ++
      Nat.toDigits 10 counter) := by
    simp [Origin.name]
  have hword : isWord (origin.name owner position counter).toList = true := by
    rw [htext]
    refine isWord_append howner ?_
    simp only [List.all_append, htag, hdigits]
    decide
  have hunderscore : '_' ∈ (origin.name owner position counter).toList := by simp [htext]
  simp [isName, hword, ofSpelling?_of_underscore hunderscore]

end Words

namespace Stages

variable {text : String} {written flat reduced : Dictionary} {k : String}

theorem isName_of_mem_keys (h : Stages text written flat reduced) (hk : k ∈ reduced.keys) :
    isName k = true := by
  obtain ⟨ts, hts, hread⟩ := Dictionary.ofText_eq_ok_iff.mp h.read
  obtain ⟨named, hrules⟩ := Dictionary.readFrom_of_ofTokens hread
  have hwritten : ∀ r ∈ written.rules, isName r.name = true := by
    intro r hr
    obtain ⟨t, ht, hkind, hname⟩ := (hrules r hr).name
    exact hname ▸ isName_of_mem_tokens hts ht hkind
  rcases h.mem_keys hk with hk | hk
  · rw [named.keys_eq] at hk
    obtain ⟨r, hr, rfl⟩ := List.mem_map.mp hk
    exact hwritten r hr
  · exact hk.inherits inherited_isName hwritten

theorem isPrintable_of_terminal (h : Stages text written flat reduced) {v : String}
    (hv : .terminal v ∈ reduced.symbols) : (Symbol.terminal v).isPrintable = true := by
  obtain ⟨ts, hts, hread⟩ := Dictionary.ofText_eq_ok_iff.mp h.read
  obtain ⟨r, hr, hvr⟩ := Dictionary.mem_symbols_iff.mp (h.mem_symbols rfl (by simp) hv)
  obtain ⟨t, ht, hkind, rfl, hupper⟩ :=
    (((Dictionary.readFrom_of_ofTokens hread).2 r hr).symbols _ hvr).terminal
  have hname := isName_of_mem_tokens hts ht hkind
  simp only [isName, Bool.and_eq_true] at hname
  simp [Symbol.isPrintable, hname.1, hupper]

theorem legible (h : Stages text written flat reduced) (canonical : reduced.Canonical)
    (literals : ∀ v, .literal v ∈ reduced.symbols → isQuotable (quoteAround v) v.toList = true)
    (lower : ∀ n ∈ reduced.references, Text.isLowerWord n = true) :
    ∀ r ∈ reduced.rules, r.Legible := by
  intro r hr
  obtain ⟨ps, hg, hne, hps⟩ := (canonical.flat r hr).body
  have hkey : r.name ∈ reduced.keys := by
    rw [canonical.named.keys_eq]
    exact List.mem_map_of_mem hr
  refine ⟨h.isName_of_mem_keys hkey, ⟨ps, hg, hne⟩, fun x hx => ?_⟩
  have hmem : x ∈ reduced.symbols := Dictionary.mem_symbols_iff.mpr ⟨r, hr, hx⟩
  match x with
  | .terminal v => exact h.isPrintable_of_terminal hmem
  | .literal v => exact literals v hmem
  | .nonTerminal n =>
    have hname := h.isName_of_mem_keys (canonical.closed n hmem)
    simp [Symbol.isPrintable, hname, lower n (Dictionary.mem_references_iff.mpr hmem)]
  | .group g =>
    have hplain := (canonical.flat r hr).isGroup_of_mem_symbols hx
    cases hplain

end Stages

/-- A rule with a lone empty body is printed as no rule. -/
theorem SpellsLine.not_spellsRule {seg : List Token} {r r' : Rule} (h : SpellsLine seg r)
    (hr : r.groups = [.body [[]]]) : ¬ SpellsRule seg r' := by
  cases h with
  | @intro name colon body tail ps hn hc hs htail =>
    obtain rfl : ps = [[]] := by simpa [Rule.ofBody, Group.body] using hr
    have hbody : body = [] := by
      cases hs with
      | single hs =>
        cases hs
        rfl
      | choice _ _ hs => exact absurd rfl hs.alternatives_ne_nil
    intro h'
    cases h' with
    | intro _ _ hne =>
      have hdrop : tail.filter (! ·.kind.isLayout) = [] := by simpa using htail
      exact hne (by rw [hbody, List.nil_append, hdrop])

namespace Dictionary

variable {d e : Dictionary}

theorem exists_lines_display (hd : ∀ r ∈ d.rules, r.Legible) :
    ∃ before segs, (∀ t ∈ before, Token.Kind.isLayout t.kind = true) ∧
      List.Forall₂ SpellsLine segs d.rules ∧
      tokens .lenient d.display = .ok (before ++ segs.flatten) := by
  obtain ⟨before, segs, hbefore, hsegs, he⟩ := exists_lines_rules hd .start
  have htext : d.display.toList = d.rules.flatMap fun r => (r.display ++ "\n").toList := by
    simp [display, List.flatMap_map]
  refine ⟨before, segs, hbefore, hsegs, ?_⟩
  rw [tokens, events, htext, he, Mode.collect_map_token]

/-- What is printed for rules of which one has a lone empty body is not read at all. -/
theorem ofText_display_ne_ok (hd : ∀ r ∈ d.rules, r.Legible) {r : Rule} (hr : r ∈ d.rules)
    (hempty : r.groups = [.body [[]]]) : ofText d.display ≠ .ok e := by
  intro h
  obtain ⟨before, segs, hbefore, hsegs, htokens⟩ := exists_lines_display hd
  obtain ⟨ts, hts, hread⟩ := ofText_eq_ok_iff.mp h
  obtain rfl : before ++ segs.flatten = ts := Except.ok.inj (htokens.symm.trans hts)
  have hseg : ∀ seg ∈ segs, IsSegment seg := by
    intro seg hseg
    obtain ⟨r, -, hline⟩ := exists_of_forall₂_mem hsegs.flip hseg
    exact hline.isSegment
  obtain ⟨hcut, -⟩ := IsSegment.segments_append_flatten hbefore hseg
  obtain ⟨-, -, hrules⟩ := ofTokens_eq_ok_iff_segments.mp hread
  rw [hcut] at hrules
  obtain ⟨rs, hrs, -⟩ := readRules_eq_ok_iff.mp hrules
  obtain ⟨seg, hmem, hline⟩ := exists_of_forall₂_mem hsegs hr
  obtain ⟨r', -, hr'⟩ := exists_of_forall₂_mem hrs.flip hmem
  obtain ⟨name, colon, body, rfl, -, hc, -⟩ := hline.isSegment
  exact hline.not_spellsRule hempty ((Rule.ofTokens_cons_eq_ok_iff (by simpa using hc)).mp hr')

/-- Legible flat rules are read back as they were printed, if none has a lone empty body. -/
theorem ofText_display_of_flat (named : d.Named) (flat : d.IsFlat)
    (hd : ∀ r ∈ d.rules, r.Legible) (hempty : ∀ r ∈ d.rules, r.groups ≠ [.body [[]]]) :
    ofText d.display = .ok d := by
  obtain ⟨before, segs, hbefore, hsegs, htokens⟩ := exists_lines_display hd
  have hrules : List.Forall₂ SpellsRule segs d.rules := by
    have hboth : List.Forall₂ (fun r seg => r ∈ d.rules ∧ SpellsLine seg r) d.rules segs :=
      (List.forall₂_and_left _ _).mpr ⟨fun r hr => hr, hsegs.flip⟩
    refine (hboth.imp fun r seg h => ?_).flip
    exact h.2.spellsRule (hempty r h.1) fun i qs hg => (flat r h.1).groups_ne_group hg
  have hnames : (d.rules.map Rule.name).Nodup := named.keys_eq ▸ d.nodup_keys
  exact ofText_eq_ok_iff.mpr
    ⟨_, htokens, ofTokens_of_spellsRule hbefore hrules hnames named.entries_eq⟩

theorem isLowerWord_of_ofText {text : String} (h : ofText text = .ok d) :
    ∀ n ∈ d.references, Text.isLowerWord n = true := by
  intro n hn
  obtain ⟨ts, -, hread⟩ := ofText_eq_ok_iff.mp h
  obtain ⟨r, hr, hnr⟩ := mem_symbols_iff.mp (mem_references_iff.mp hn)
  exact (((readFrom_of_ofTokens hread).2 r hr).symbols _ hnr).isLowerWord

end Dictionary

namespace Grammar

variable {text : String} {g : Grammar}

/-- Where its literals can stand in the quotes that are printed around them, a transformed grammar
is read back exactly if no body is a lone empty one and every reference is in lower case. -/
theorem ofTextAsWritten_display_iff (h : ofText text = .ok g)
    (literals : ∀ v, .literal v ∈ g.rules.symbols → isQuotable (quoteAround v) v.toList = true) :
    ofTextAsWritten g.display = .ok g ↔
      (∀ r ∈ g.rules.rules, r.groups ≠ [.body [[]]]) ∧
        ∀ n ∈ g.references, Text.isLowerWord n = true := by
  obtain ⟨written, flat, stages⟩ := ofText_eq_ok_iff.mp h
  have canonical := canonical_of_ofText h
  rw [ofTextAsWritten_eq_ok_iff]
  constructor
  · intro hback
    -- Rules that were read refer to names in lower case, so all of them can be printed.
    have lower := Dictionary.isLowerWord_of_ofText hback
    have legible := stages.legible canonical literals lower
    refine ⟨fun r hr hempty => ?_, lower⟩
    exact Dictionary.ofText_display_ne_ok legible hr hempty hback
  · rintro ⟨hempty, lower⟩
    have legible := stages.legible canonical literals lower
    exact Dictionary.ofText_display_of_flat canonical.named canonical.flat legible hempty

theorem ofTextAsWritten_display_statements :
    ∃ g, ofText "file: (stmt | NEWLINE)* END\nstmt: 'pass' [';'] | 'del' NAME+\n" = .ok g ∧
      (∀ v, .literal v ∈ g.rules.symbols → isQuotable (quoteAround v) v.toList = true) ∧
      ofTextAsWritten g.display = .ok g := by
  have hrun : (ofText "file: (stmt | NEWLINE)* END\nstmt: 'pass' [';'] | 'del' NAME+\n").map
      (fun g => (g.terminals.all fun v => isQuotable (quoteAround v) v.toList,
        decide (∀ r ∈ g.rules.rules, r.groups ≠ [.body [[]]]),
        g.references.all Text.isLowerWord)) = .ok (true, true, true) := by decide +kernel
  obtain ⟨g, hg, hconditions⟩ := exists_eq_ok_of_map hrun
  simp only [Prod.mk.injEq, List.all_eq_true, decide_eq_true_eq] at hconditions
  obtain ⟨hterminals, hempty, hlower⟩ := hconditions
  have literals : ∀ v, .literal v ∈ g.rules.symbols →
      isQuotable (quoteAround v) v.toList = true :=
    fun v hv => hterminals v (Dictionary.mem_terminals_iff.mpr (.inr hv))
  exact ⟨g, hg, literals, (ofTextAsWritten_display_iff hg literals).mpr ⟨hempty, hlower⟩⟩

theorem exists_display_eq_error {problem : Problem}
    (h : (ofText text).map (fun g => (ofTextAsWritten g.display).map (·.rules.keys)) =
      .ok (.error problem)) :
    ∃ g, ofText text = .ok g ∧ ofTextAsWritten g.display = .error problem := by
  obtain ⟨g, hg, hdisplay⟩ := exists_eq_ok_of_map h
  exact ⟨g, hg, eq_error_of_map hdisplay⟩

/-- A literal with both quotes, a lone empty body, and a reference to a rule that was made for one
in mixed case are not read back. -/
theorem exists_ofTextAsWritten_display_eq_error :
    (∃ g, ofText "a: 'x' '''it's \"y\"'''\n" = .ok g ∧
      ofTextAsWritten g.display = .error (.missingDefinitions ["y"])) ∧
    (∃ g, ofText "a: ()\n" = .ok g ∧
      ofTextAsWritten g.display = .error (.malformedRule 1 (.emptyBody "a"))) ∧
    ∃ g, ofText "Foo: 'x'* 'y'\n" = .ok g ∧
      ofTextAsWritten g.display = .error (.mixedCaseName "Foo" "Foo__lst_1__1") :=
  ⟨exists_display_eq_error (by decide +kernel), exists_display_eq_error (by decide +kernel),
    exists_display_eq_error (by decide +kernel)⟩

end Grammar

end GrammarForge
