import GrammarForge.Proofs.ReadRules

/-!
The form of a grammar behind both passes: flat rules, none of which is an alias, and no reference
without a rule. The passes leave a dictionary of this form as it is.
-/

namespace GrammarForge

namespace Dictionary

variable {d e : Dictionary} {name k : String}

theorem mem_references_iff : k ∈ d.references ↔ Symbol.nonTerminal k ∈ d.symbols := by
  have href : ∀ s : Symbol, s.reference? = some k ↔ s = .nonTerminal k := by
    intro s
    cases s <;> simp [Symbol.reference?]
  simp [references, List.mem_eraseDups, List.mem_filterMap, href]

theorem mem_missing_iff : k ∈ d.missing ↔ Symbol.nonTerminal k ∈ d.symbols ∧ k ∉ d.keys := by
  simp [missing, mem_references_iff, contains]

theorem missing_eq_nil_iff : d.missing = [] ↔ d.Closed := by
  rw [List.eq_nil_iff_forall_not_mem]
  constructor
  · intro h n hn
    by_contra hk
    exact h n (mem_missing_iff.mpr ⟨hn, hk⟩)
  · intro h n hn
    obtain ⟨hsym, hk⟩ := mem_missing_iff.mp hn
    exact hk (h n hsym)

theorem aliasTarget?_of_reduce (named : d.Named) (h : d.reduce = (e, none)) (k : String) :
    e.aliasTarget? k = none := by
  have hdone := aliasTarget?_reduceAll named (congrArg Prod.snd h) fun k t ht =>
    List.mem_eraseDups.mpr (mem_aliases named ht)
  have he : (d.reduceAll d.aliases.eraseDups).1 = e := congrArg Prod.fst h
  exact he ▸ hdone k

theorem isAlias_eq_false (h : ∀ k, d.aliasTarget? k = none) :
    ∀ r ∈ d.rules, r.isAlias = false := by
  intro r hr
  obtain ⟨k, hk⟩ := mem_rules_iff.mp hr
  have hnone : r.aliasTarget? = none := by simpa [aliasTarget?, hk] using h k
  simp [Rule.isAlias, hnone]

/-- Flat rules under their own names, none of them an alias, with a rule for every reference. -/
structure Canonical (d : Dictionary) : Prop where
  named : d.Named
  flat : d.IsFlat
  noAlias : ∀ r ∈ d.rules, r.isAlias = false
  closed : d.Closed

end Dictionary

/-- The rules of a text as they are written, in flat form, and without aliases. -/
structure Stages (text : String) (written flat reduced : Dictionary) : Prop where
  read : Dictionary.ofText text = .ok written
  normalize : (written.normalize Origin.firstCounter).1 = .ok flat
  reduce : flat.reduce = (reduced, none)

namespace Stages

variable {text : String} {written flat reduced : Dictionary}

theorem written_named (h : Stages text written flat reduced) : written.Named :=
  Dictionary.named_of_ofText h.read

theorem flat_named (h : Stages text written flat reduced) : flat.Named :=
  (Dictionary.flatFormOf_normalize h.written_named h.normalize).named

theorem reduceAll_eq (h : Stages text written flat reduced) :
    (flat.reduceAll flat.aliases.eraseDups).1 = reduced := congrArg Prod.fst h.reduce

theorem canonical (h : Stages text written flat reduced) (closed : reduced.Closed) :
    reduced.Canonical := by
  have hflat : flat.IsFlat :=
    Dictionary.isFlat_normalize (Dictionary.wellFormed_of_ofText h.read) h.normalize
  have hboth : (flat.reduceAll flat.aliases.eraseDups).1.IsFlat ∧
      (flat.reduceAll flat.aliases.eraseDups).1.Named := hflat.reduceAll h.flat_named
  rw [h.reduceAll_eq] at hboth
  have hnone := Dictionary.aliasTarget?_of_reduce h.flat_named h.reduce
  exact ⟨hboth.2, hboth.1, Dictionary.isAlias_eq_false hnone, closed⟩

end Stages

theorem exists_eq_ok_of_map {ε α β : Type} {x : Except ε α} {f : α → β} {b : β}
    (h : x.map f = .ok b) : ∃ a, x = .ok a ∧ f a = b := by
  cases x with
  | error e => cases h
  | ok a => exact ⟨a, rfl, Except.ok.inj h⟩

theorem eq_error_of_map {ε α β : Type} {x : Except ε α} {f : α → β} {e : ε}
    (h : x.map f = .error e) : x = .error e := by
  cases x with
  | error e' => exact congrArg Except.error (Except.error.inj h)
  | ok a => cases h

namespace Grammar

variable {text : String} {g : Grammar} {d : Dictionary}

theorem isClosed (g : Grammar) : g.rules.Closed := Dictionary.missing_eq_nil_iff.mp g.closed

theorem ofRules_eq_ok_iff : ofRules d = .ok g ↔ d = g.rules := by
  obtain ⟨rules, closed⟩ := g
  unfold ofRules
  constructor
  · intro h
    split at h
    · cases h
      rfl
    · cases h
  · rintro rfl
    rw [dif_pos closed]

theorem transform_eq_ok_iff {written reduced : Dictionary} :
    transform written = .ok reduced ↔
      ∃ flat, (written.normalize Origin.firstCounter).1 = .ok flat ∧
        flat.reduce = (reduced, none) := by
  unfold transform
  cases (written.normalize Origin.firstCounter).1 with
  | error problem => simp [bind, Except.bind]
  | ok flat =>
    simp only [bind, Except.bind, Except.ok.injEq, exists_eq_left']
    obtain ⟨e, problem?⟩ := flat.reduce
    cases problem? <;> simp

/-- A text has a grammar exactly when both passes get through its rules and leave no reference
without a rule. -/
theorem ofText_eq_ok_iff : ofText text = .ok g ↔ ∃ written flat, Stages text written flat g.rules := by
  have hread : ofText text = .ok g ↔
      ∃ written, Dictionary.ofText text = .ok written ∧ transform written = .ok g.rules := by
    unfold ofText
    cases Dictionary.ofText text with
    | error problem => simp [bind, Except.bind]
    | ok written =>
      cases ht : transform written with
      | error problem => simp [bind, Except.bind, ht]
      | ok reduced => simp [bind, Except.bind, ht, ofRules_eq_ok_iff]
  rw [hread]
  constructor
  · rintro ⟨written, hw, ht⟩
    obtain ⟨flat, hflat, hreduce⟩ := transform_eq_ok_iff.mp ht
    exact ⟨written, flat, hw, hflat, hreduce⟩
  · rintro ⟨written, flat, hw, hflat, hreduce⟩
    exact ⟨written, hw, transform_eq_ok_iff.mpr ⟨flat, hflat, hreduce⟩⟩

theorem canonical_of_ofText (h : ofText text = .ok g) : g.rules.Canonical := by
  obtain ⟨written, flat, stages⟩ := ofText_eq_ok_iff.mp h
  exact stages.canonical g.isClosed

/-- The grammar of a text is in canonical form, and both passes leave it as it is, whatever number
the first of them starts from. -/
theorem ofText_canonical (h : ofText text = .ok g) :
    g.rules.Canonical ∧ (∀ counter, g.rules.normalize counter = (.ok g.rules, counter)) ∧
      g.rules.reduce = (g.rules, none) := by
  have hg := canonical_of_ofText h
  exact ⟨hg, hg.flat.normalize_eq hg.named, Dictionary.reduce_eq hg.noAlias⟩

/-- A repetition, an optional group, and an alias that leads back to the rule it stands in. -/
theorem ofText_canonical_repeated :
    ∃ g, ofText "a: ('x' b)* [a]\nb: c\nc: B 'y' | b\n" = .ok g ∧
      g.rules.keys =
        ["a", "a__lst_1__1", "a__lst_1__1__grp_1__2", "a__opt_grp_2__3", "c"] ∧
      g.rules.Canonical ∧ (∀ counter, g.rules.normalize counter = (.ok g.rules, counter)) ∧
      g.rules.reduce = (g.rules, none) := by
  have hrun : (ofText "a: ('x' b)* [a]\nb: c\nc: B 'y' | b\n").map (·.rules.keys) =
      .ok ["a", "a__lst_1__1", "a__lst_1__1__grp_1__2", "a__opt_grp_2__3", "c"] := by
    decide +kernel
  obtain ⟨g, hg, hkeys⟩ := exists_eq_ok_of_map hrun
  exact ⟨g, hg, hkeys, ofText_canonical hg⟩

end Grammar

end GrammarForge
