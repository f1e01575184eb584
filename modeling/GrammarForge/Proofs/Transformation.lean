import GrammarForge.Proofs.Canonical
import GrammarForge.Proofs.References

/-!
The grammar of a text next to the grammar as it is written. The passes bring in no reference without
a rule, and hide one only where it is left to aliases or has the name of a synthesized rule.
-/

namespace GrammarForge

namespace Dictionary

variable {d : Dictionary} {v k : String}

theorem mem_terminals_iff :
    v ∈ d.terminals ↔ Symbol.terminal v ∈ d.symbols ∨ Symbol.literal v ∈ d.symbols := by
  have htoken : ∀ s : Symbol, s.token? = some v ↔ s = .terminal v ∨ s = .literal v := by
    intro s
    cases s <;> simp [Symbol.token?]
  simp [terminals, List.mem_eraseDups, List.mem_filterMap, htoken, and_or_left, exists_or]

theorem reduceAll_problem {pending : List String} {problem : Problem}
    (h : (d.reduceAll pending).2 = some problem) :
    (∃ name, problem = .selfAlias name) ∨ ∃ name via, problem = .cyclicAlias name via := by
  induction pending generalizing d with
  | nil => cases h
  | cons name pending ih =>
    unfold reduceAll at h
    split at h
    · exact ih h
    · split at h
      · rename_i target _ found hfound
        obtain rfl : found = problem := by simpa using h
        unfold aliasProblem? at hfound
        split at hfound
        · split at hfound
          · exact .inl ⟨name, (Option.some.inj hfound).symm⟩
          · split at hfound
            · exact .inr ⟨name, _, (Option.some.inj hfound).symm⟩
            · cases hfound
        · cases hfound
      · exact ih h

end Dictionary

namespace Stages

variable {text : String} {written flat reduced : Dictionary} {x : Symbol} {k : String}

/-- Neither pass brings in a symbol other than references. -/
theorem mem_symbols (h : Stages text written flat reduced) (hx : x.isGroup = false)
    (href : ∀ k, x ≠ .nonTerminal k) (hmem : x ∈ reduced.symbols) : x ∈ written.symbols := by
  rw [← h.reduceAll_eq] at hmem
  have hflat := Dictionary.mem_symbols_of_reduceAll h.flat_named hx hmem
  rcases Dictionary.mem_symbols_of_normalize h.normalize hx hflat with hold | ⟨k, -, hk⟩
  · exact hold
  · exact absurd hk (href k)

theorem mem_terminals (h : Stages text written flat reduced) {v : String}
    (hv : v ∈ reduced.terminals) : v ∈ written.terminals := by
  rw [Dictionary.mem_terminals_iff] at hv ⊢
  exact hv.imp (h.mem_symbols rfl (by simp)) (h.mem_symbols rfl (by simp))

theorem mem_keys_flat (h : Stages text written flat reduced) (hk : k ∈ flat.keys) :
    k ∈ written.keys ∨ written.Synthesizes Origin.firstCounter k :=
  Dictionary.mem_keys_normalize h.written_named h.normalize hk

theorem mem_keys (h : Stages text written flat reduced) (hk : k ∈ reduced.keys) :
    k ∈ written.keys ∨ written.Synthesizes Origin.firstCounter k := by
  rw [← h.reduceAll_eq] at hk
  exact h.mem_keys_flat (Dictionary.derives_reduceAll h.flat_named hk).1

theorem nonTerminal_mem_symbols_iff (h : Stages text written flat reduced) :
    Symbol.nonTerminal k ∈ reduced.symbols ↔ flat.Uses k ∧ flat.aliasTarget? k = none := by
  have hnone := Dictionary.aliasTarget?_of_reduce h.flat_named h.reduce
  rw [← h.reduceAll_eq] at hnone ⊢
  exact Dictionary.nonTerminal_mem_symbols_reduceAll_iff h.flat_named hnone

/-- Where every reference of the text has a rule, so has every reference that is left. -/
theorem closed (h : Stages text written flat reduced) (closed : written.Closed) :
    reduced.Closed := by
  have hflat : flat.Closed := closed.normalize h.written_named h.normalize
  intro k hk
  obtain ⟨huse, hnone⟩ := h.nonTerminal_mem_symbols_iff.mp hk
  rw [← h.reduceAll_eq]
  exact Dictionary.mem_keys_reduceAll h.flat_named (hflat k huse.mem_symbols) hnone

/-- A name that some rule other than an alias uses has a flat rule, if the reduced rules are
closed. -/
theorem mem_keys_of_uses (h : Stages text written flat reduced) (closed : reduced.Closed)
    (huse : flat.Uses k) : k ∈ flat.keys := by
  -- An alias has a rule in any case. Any other name that is used is a reference that is left.
  by_cases hnone : flat.aliasTarget? k = none
  · have hk := closed k (h.nonTerminal_mem_symbols_iff.mpr ⟨huse, hnone⟩)
    rw [← h.reduceAll_eq] at hk
    exact (Dictionary.derives_reduceAll h.flat_named hk).1
  · obtain ⟨target, ht⟩ := Option.ne_none_iff_exists'.mp hnone
    obtain ⟨r, hr, -⟩ := Option.bind_eq_some_iff.mp ht
    exact Dictionary.mem_keys_iff.mpr ⟨r, hr⟩

end Stages

namespace Grammar

variable {text : String} {g u : Grammar} {written : Dictionary}

theorem ofTextAsWritten_eq_of_read (h : Dictionary.ofText text = .ok written) :
    ofTextAsWritten text = ofRules written := by
  rw [ofTextAsWritten, h]
  rfl

theorem ofTextAsWritten_eq_ok_iff :
    ofTextAsWritten text = .ok u ↔ Dictionary.ofText text = .ok u.rules := by
  cases h : Dictionary.ofText text with
  | error problem => simp [ofTextAsWritten, h, bind, Except.bind]
  | ok written => simp [ofTextAsWritten_eq_of_read h, ofRules_eq_ok_iff]

theorem ofText_eq_of_read (h : Dictionary.ofText text = .ok written) :
    ofText text = (transform written).bind ofRules := by
  rw [ofText, h]
  rfl

theorem ofText_eq_error_of_normalize {problem : Problem} (h : Dictionary.ofText text = .ok written)
    (hflat : (written.normalize Origin.firstCounter).1 = .error problem) :
    ofText text = .error problem := by
  rw [ofText_eq_of_read h, transform, hflat]
  rfl

theorem ofText_eq_error_of_reduce {flat : Dictionary} {problem : Problem}
    (h : Dictionary.ofText text = .ok written)
    (hflat : (written.normalize Origin.firstCounter).1 = .ok flat)
    (hreduce : flat.reduce.2 = some problem) : ofText text = .error problem := by
  have htransform : transform written = .error problem := by
    rw [transform, hflat]
    cases hr : flat.reduce with
    | mk reduced problem? =>
      obtain rfl : problem? = some problem := by simpa [hr] using hreduce
      simp [hr, bind, Except.bind]
  rw [ofText_eq_of_read h, htransform]
  rfl

/-- A text whose rules are closed as they are written has a grammar, unless a rule is named like a
synthesized one or the aliases lead in a circle. The grammar has no terminals and, but for
synthesized ones, no names of its own. -/
theorem ofText_of_ofTextAsWritten (h : ofTextAsWritten text = .ok u) :
    (∃ g, ofText text = .ok g ∧ (∀ v ∈ g.terminals, v ∈ u.terminals) ∧
        ∀ k ∈ g.rules.keys, k ∈ u.rules.keys ∨ u.rules.Synthesizes Origin.firstCounter k) ∨
      (∃ name, ofText text = .error (.duplicateRule name) ∧ name ∈ u.rules.keys ∧
        u.rules.Synthesizes Origin.firstCounter name) ∨
      (∃ name, ofText text = .error (.selfAlias name)) ∨
      ∃ name via, ofText text = .error (.cyclicAlias name via) := by
  have hread := ofTextAsWritten_eq_ok_iff.mp h
  cases hflat : (u.rules.normalize Origin.firstCounter).1 with
  | error problem =>
    have hgroups : ∀ r ∈ u.rules.rules, r.group?.isSome = true := fun r hr =>
      (Dictionary.wellFormed_of_ofText hread r hr).isSome_group?
    obtain ⟨name, rfl, hname, hmade⟩ :=
      Dictionary.normalize_eq_error (Dictionary.named_of_ofText hread) hgroups hflat
    exact .inr (.inl ⟨name, ofText_eq_error_of_normalize hread hflat, hname, hmade⟩)
  | ok flat =>
    cases hproblem : flat.reduce.2 with
    | some problem =>
      have herror := ofText_eq_error_of_reduce hread hflat hproblem
      rcases Dictionary.reduceAll_problem hproblem with ⟨name, rfl⟩ | ⟨name, via, rfl⟩
      · exact .inr (.inr (.inl ⟨name, herror⟩))
      · exact .inr (.inr (.inr ⟨name, via, herror⟩))
    | none =>
      have stages : Stages text u.rules flat flat.reduce.1 :=
        ⟨hread, hflat, Prod.ext rfl hproblem⟩
      let g : Grammar :=
        ⟨flat.reduce.1, Dictionary.missing_eq_nil_iff.mpr (stages.closed u.isClosed)⟩
      have hg : ofText text = .ok g := ofText_eq_ok_iff.mpr ⟨u.rules, flat, stages⟩
      exact .inl ⟨g, hg, fun v => stages.mem_terminals, fun k => stages.mem_keys⟩

theorem ofText_of_ofTextAsWritten_repeated :
    ∃ u g, ofTextAsWritten "a: 'x'* [b]\nb: c\nc: B 'y' | b\n" = .ok u ∧
      ofText "a: 'x'* [b]\nb: c\nc: B 'y' | b\n" = .ok g ∧ u.rules.keys = ["a", "b", "c"] ∧
      g.rules.keys = ["a", "a__lst_1__1", "a__opt_grp_2__2", "c"] ∧
      (∀ v ∈ g.terminals, v ∈ u.terminals) ∧
      ∀ k ∈ g.rules.keys, k ∈ u.rules.keys ∨ u.rules.Synthesizes Origin.firstCounter k := by
  have hread : (ofTextAsWritten "a: 'x'* [b]\nb: c\nc: B 'y' | b\n").map (·.rules.keys) =
      .ok ["a", "b", "c"] := by decide +kernel
  have hrun : (ofText "a: 'x'* [b]\nb: c\nc: B 'y' | b\n").map (·.rules.keys) =
      .ok ["a", "a__lst_1__1", "a__opt_grp_2__2", "c"] := by decide +kernel
  obtain ⟨u, hu, hwritten⟩ := exists_eq_ok_of_map hread
  obtain ⟨g, hg, hkeys⟩ := exists_eq_ok_of_map hrun
  rcases ofText_of_ofTextAsWritten hu with ⟨g', hg', hterminals, hnames⟩ | ⟨_, h, -⟩ | ⟨_, h⟩ |
    ⟨_, _, h⟩
  · obtain rfl : g = g' := Except.ok.inj (hg.symm.trans hg')
    exact ⟨u, g, hu, hg, hwritten, hkeys, hterminals, hnames⟩
  all_goals cases hg.symm.trans h

/-- Where a text has a grammar, a reference without a rule in the text has the name of a synthesized
rule, or only aliases lead to it. -/
theorem ofTextAsWritten_of_ofText (h : ofText text = .ok g) :
    ∃ written flat, Dictionary.ofText text = .ok written ∧
      (written.normalize Origin.firstCounter).1 = .ok flat ∧
      ((∃ u, ofTextAsWritten text = .ok u) ∨
        ∃ names, ofTextAsWritten text = .error (.missingDefinitions names) ∧
          ∀ name ∈ names, written.Synthesizes Origin.firstCounter name ∨ ¬ flat.Uses name) := by
  obtain ⟨written, flat, stages⟩ := ofText_eq_ok_iff.mp h
  refine ⟨written, flat, stages.read, stages.normalize, ?_⟩
  rw [ofTextAsWritten_eq_of_read stages.read, ofRules]
  by_cases hmissing : written.missing = []
  · exact .inl ⟨⟨written, hmissing⟩, dif_pos hmissing⟩
  · refine .inr ⟨written.missing, dif_neg hmissing, fun name hname => ?_⟩
    obtain ⟨-, hkey⟩ := Dictionary.mem_missing_iff.mp hname
    by_cases huse : flat.Uses name
    · have hflat := stages.mem_keys_of_uses g.isClosed huse
      exact .inl ((stages.mem_keys_flat hflat).resolve_left hkey)
    · exact .inr huse

/-- `b` disappears with the alias, and `c__lst_1__1` is taken for the rule of the repetition. -/
theorem ofTextAsWritten_of_ofText_hidden :
    ∃ g written flat, ofText "a: b\nc: 'x'* c__lst_1__1\n" = .ok g ∧
      Dictionary.ofText "a: b\nc: 'x'* c__lst_1__1\n" = .ok written ∧
      (written.normalize Origin.firstCounter).1 = .ok flat ∧
      ofTextAsWritten "a: b\nc: 'x'* c__lst_1__1\n" =
        .error (.missingDefinitions ["b", "c__lst_1__1"]) ∧
      ∀ name ∈ ["b", "c__lst_1__1"],
        written.Synthesizes Origin.firstCounter name ∨ ¬ flat.Uses name := by
  have hrun : (ofText "a: b\nc: 'x'* c__lst_1__1\n").map (·.rules.keys) =
      .ok ["c", "c__lst_1__1"] := by decide +kernel
  have hread : (ofTextAsWritten "a: b\nc: 'x'* c__lst_1__1\n").map (·.rules.keys) =
      .error (.missingDefinitions ["b", "c__lst_1__1"]) := by decide +kernel
  obtain ⟨g, hg, -⟩ := exists_eq_ok_of_map hrun
  have herror := eq_error_of_map hread
  obtain ⟨written, flat, hwritten, hflat, ⟨u, hu⟩ | ⟨names, hnames, hall⟩⟩ :=
    ofTextAsWritten_of_ofText hg
  · cases herror.symm.trans hu
  · obtain rfl : names = ["b", "c__lst_1__1"] := by simpa [herror, eq_comm] using hnames
    exact ⟨g, written, flat, hg, hwritten, hflat, herror, hall⟩

/-- An alias that nothing uses takes its reference without a rule along. -/
theorem exists_ofText_ofTextAsWritten_ne :
    ∃ g, ofText "a: b\n" = .ok g ∧ ∀ u, ofTextAsWritten "a: b\n" ≠ .ok u := by
  have hrun : (ofText "a: b\n").map (·.rules.keys) = .ok [] := by decide +kernel
  have hread : (ofTextAsWritten "a: b\n").map (·.rules.keys) =
      .error (.missingDefinitions ["b"]) := by decide +kernel
  obtain ⟨g, hg, -⟩ := exists_eq_ok_of_map hrun
  refine ⟨g, hg, fun u hu => ?_⟩
  cases (eq_error_of_map hread).symm.trans hu

end Grammar

end GrammarForge
