import GrammarForge.Proofs.NormalizationOutcome
import Mathlib.Data.Set.Function

/-!
Two runs of the flattening that start with different numbers. They make the same rules in the same
order and differ in the names of these rules only: what one run calls by its first synthesized name
the other calls by its first one, and so on.
-/

namespace GrammarForge

def renamed (σ : String → String) (k : String) : Symbol := .nonTerminal (σ k)

def Rule.rename (σ : String → String) (r : Rule) : Rule :=
  ⟨σ r.name, (r.mapReferences (renamed σ)).groups⟩

def Fixes (σ : String → String) (xs : List Symbol) : Prop :=
  ∀ k, Symbol.nonTerminal k ∈ xs → σ k = k

/-- The rules of the second list have the new names of those of the first. -/
def Matches (σ : String → String) (rs rs' : List Rule) : Prop :=
  rs'.map Rule.name = rs.map fun r => σ r.name

section Flattening

variable {σ : String → String}

theorem fixes_append {xs ys : List Symbol} : Fixes σ (xs ++ ys) ↔ Fixes σ xs ∧ Fixes σ ys := by
  simp only [Fixes, List.mem_append, or_imp, forall_and]

theorem fixes_cons {x : Symbol} {xs : List Symbol} :
    Fixes σ (x :: xs) ↔ Fixes σ [x] ∧ Fixes σ xs := by
  rw [← List.singleton_append, fixes_append]

theorem matches_cons {r r' : Rule} {rs rs' : List Rule} :
    Matches σ (r :: rs) (r' :: rs') ↔ r'.name = σ r.name ∧ Matches σ rs rs' := by
  simp [Matches]

theorem matches_append {rs rs' us us' : List Rule} (hlength : rs'.length = rs.length) :
    Matches σ (rs ++ us) (rs' ++ us') ↔ Matches σ rs rs' ∧ Matches σ us us' := by
  unfold Matches
  rw [List.map_append, List.map_append]
  constructor
  · exact fun h => List.append_inj h (by simpa using hlength)
  · rintro ⟨h, h'⟩
    rw [h, h']

theorem listRule_rename (name : String) (m : Repeat) (s : Symbol) :
    (listRule name m s).rename σ = listRule (σ name) m (s.mapReferences (renamed σ)) := by
  cases m <;> rfl

theorem groupRule_rename (name : String) (optional : Bool) (ps : List Production) :
    (groupRule name optional ps).rename σ =
      groupRule (σ name) optional (Production.mapReferencesList (renamed σ) ps) := by
  cases optional <;> rfl

theorem Numbered.length_eq {counter n : Nat} {rs : List Rule}
    (h : Numbered counter (counter + n) rs) : rs.length = n := by
  have hnext := h.next_eq
  omega

theorem Symbol.length_rules_flatten (owner : String) (position counter : Nat) (s : Symbol) :
    (s.flatten owner position counter).rules.length =
      (if s.isGroup then 1 else 0) + Component.totalCost s.components :=
  Numbered.length_eq (s.counter_flatten owner position counter ▸
    s.numbered_flatten owner position counter)

theorem Production.length_rules_flattenList (owner : String) (stride position counter : Nat)
    (ps : List Production) :
    (Production.flattenList owner stride position counter ps).rules.length =
      Component.totalCost (Production.componentsList ps) :=
  Numbered.length_eq (Production.counter_flattenList owner stride position counter ps ▸
    Production.numbered_flattenList owner stride position counter ps)

theorem Production.length_rules_flatten (owner : String) (position counter : Nat)
    (p : Production) :
    (Production.flatten owner position counter p).rules.length =
      Component.totalCost (Production.components p) :=
  Numbered.length_eq (Production.counter_flatten owner position counter p ▸
    Production.numbered_flatten owner position counter p)

mutual

/-- Whatever owner and number it starts from, the flattening of a symbol makes the same rules up to
their names. -/
theorem Symbol.flatten_rename (owner owner' : String) (position counter counter' : Nat) (s : Symbol)
    (hfix : Fixes σ s.withInner)
    (hnames : Matches σ (s.flatten owner position counter).rules
      (s.flatten owner' position counter').rules) :
    (s.flatten owner' position counter').value =
        (s.flatten owner position counter).value.mapReferences (renamed σ) ∧
      (s.flatten owner' position counter').rules =
        (s.flatten owner position counter).rules.map (Rule.rename σ) := by
  match s with
  | .terminal v => exact ⟨rfl, rfl⟩
  | .literal v => exact ⟨rfl, rfl⟩
  | .nonTerminal n =>
    have hn : σ n = n := hfix n List.mem_cons_self
    exact ⟨congrArg Symbol.nonTerminal hn.symm, rfl⟩
  | .group ⟨o, i, ps⟩ =>
    rw [Symbol.withInner, fixes_cons] at hfix
    simp only [Symbol.flatten, matches_cons] at hnames
    obtain ⟨hname, hinner⟩ := hnames
    obtain ⟨hvalue, hrules⟩ :=
      Production.flattenList_rename _ _ 0 1 (counter + 1) (counter' + 1) ps hfix.2 hinner
    simp only [groupRule, Rule.ofBody] at hname
    simp only [Symbol.flatten, List.map_cons, groupRule_rename, hvalue, hrules]
    exact ⟨congrArg Symbol.nonTerminal hname, by rw [hname]⟩
termination_by structural s

theorem Production.flattenList_rename (owner owner' : String)
    (stride position counter counter' : Nat) (ps : List Production)
    (hfix : Fixes σ (Production.symbolsList ps))
    (hnames : Matches σ (Production.flattenList owner stride position counter ps).rules
      (Production.flattenList owner' stride position counter' ps).rules) :
    (Production.flattenList owner' stride position counter' ps).value =
        Production.mapReferencesList (renamed σ)
          (Production.flattenList owner stride position counter ps).value ∧
      (Production.flattenList owner' stride position counter' ps).rules =
        (Production.flattenList owner stride position counter ps).rules.map (Rule.rename σ) := by
  match ps with
  | [] => exact ⟨rfl, rfl⟩
  | p :: ps =>
    have hlength : (Production.flatten owner' position counter' p).rules.length =
        (Production.flatten owner position counter p).rules.length := by
      rw [Production.length_rules_flatten, Production.length_rules_flatten]
    rw [Production.symbolsList, fixes_append] at hfix
    simp only [Production.flattenList, matches_append hlength] at hnames
    obtain ⟨hvalue, hrules⟩ :=
      Production.flatten_rename owner owner' position counter counter' p hfix.1 hnames.1
    obtain ⟨hvalues, hrest⟩ :=
      Production.flattenList_rename owner owner' stride (position + stride) _ _ ps hfix.2 hnames.2
    simp only [Production.flattenList, Production.mapReferencesList, List.map_append, hvalue, hrules,
      hvalues, hrest, and_self]
termination_by structural ps

theorem Production.flatten_rename (owner owner' : String) (position counter counter' : Nat)
    (p : Production) (hfix : Fixes σ (Production.symbols p))
    (hnames : Matches σ (Production.flatten owner position counter p).rules
      (Production.flatten owner' position counter' p).rules) :
    (Production.flatten owner' position counter' p).value =
        Production.mapReferences (renamed σ) (Production.flatten owner position counter p).value ∧
      (Production.flatten owner' position counter' p).rules =
        (Production.flatten owner position counter p).rules.map (Rule.rename σ) := by
  match p with
  | [] => exact ⟨rfl, rfl⟩
  | ⟨s, m⟩ :: p =>
    rw [Production.symbols, fixes_append] at hfix
    by_cases hm : m = .once
    · have hlength : (s.flatten owner' position counter').rules.length =
          (s.flatten owner position counter).rules.length := by
        rw [Symbol.length_rules_flatten, Symbol.length_rules_flatten]
      simp only [Production.flatten, hm, if_true, matches_append hlength] at hnames ⊢
      obtain ⟨hvalue, hrules⟩ :=
        Symbol.flatten_rename owner owner' position counter counter' s hfix.1 hnames.1
      obtain ⟨hvalues, hrest⟩ := Production.flatten_rename owner owner' _ _ _ p hfix.2 hnames.2
      simp only [Component.once, Production.mapReferences, List.map_append, hvalue, hrules, hvalues,
        hrest, and_self]
    · have hlength : (s.flatten (Origin.list.name owner' position counter') 1
            (counter' + 1)).rules.length =
          (s.flatten (Origin.list.name owner position counter) 1 (counter + 1)).rules.length := by
        rw [Symbol.length_rules_flatten, Symbol.length_rules_flatten]
      simp only [Production.flatten, hm, if_false, matches_cons, matches_append hlength] at hnames ⊢
      obtain ⟨hname, helement, htail⟩ := hnames
      obtain ⟨hvalue, hrules⟩ := Symbol.flatten_rename _ _ 1 _ _ s hfix.1 helement
      obtain ⟨hvalues, hrest⟩ := Production.flatten_rename owner owner' _ _ _ p hfix.2 htail
      simp only [listRule, Rule.ofBody] at hname
      simp only [Component.once, Production.mapReferences, Symbol.mapReferences, List.map_cons,
        List.map_append, listRule_rename, hvalue, hrules, hvalues, hrest]
      simp only [hname, renamed, and_self]
termination_by structural p

end

theorem Fixes.of_rule {r : Rule} {g : Group} (h : Fixes σ r.symbols) (hg : r.group? = some g) :
    Fixes σ (Production.symbolsList g.productions) := by
  rwa [Rule.symbols_of_group? hg] at h

theorem Rule.length_made {r head : Rule} {made : List Rule} {counter next : Nat}
    (h : r.normalize counter = .ok (head :: made, next)) :
    made.length = Component.totalCost r.components := by
  obtain ⟨g, hg, hb, -⟩ := Rule.normalize_eq_ok_iff.mp h
  obtain ⟨-, rfl⟩ := List.cons.inj hb
  rw [Production.length_rules_flattenList, Rule.components_of_group? hg]

theorem Rule.normalize_renamed {r head head' : Rule} {made made' : List Rule}
    {counter counter' next next' : Nat} (hname : σ r.name = r.name) (hfix : Fixes σ r.symbols)
    (h : r.normalize counter = .ok (head :: made, next))
    (h' : r.normalize counter' = .ok (head' :: made', next')) (hmade : Matches σ made made') :
    head' = head.rename σ ∧ made' = made.map (Rule.rename σ) := by
  obtain ⟨g, hg, hb, -⟩ := Rule.normalize_eq_ok_iff.mp h
  obtain ⟨rfl, rfl⟩ := List.cons.inj hb
  obtain ⟨g', hg', hb', -⟩ := Rule.normalize_eq_ok_iff.mp h'
  obtain ⟨rfl, rfl⟩ := List.cons.inj hb'
  obtain rfl := Option.some.inj (hg.symm.trans hg')
  obtain ⟨hvalue, hrules⟩ := Production.flattenList_rename r.name r.name 1 1 counter counter'
    g.productions (hfix.of_rule hg) hmade
  refine ⟨?_, hrules⟩
  rw [hvalue]
  simp [Rule.rename, Rule.mapReferences, Group.mapReferences, hname]

/-- Two runs over the same rules differ in the names of the made rules only. -/
theorem Flattens.rename {counter counter' last last' : Nat} {rs : List Rule}
    {blocks blocks' : List (Rule × List Rule)} (h : Flattens counter rs blocks last)
    (h' : Flattens counter' rs blocks' last') (hnames : ∀ r ∈ rs, σ r.name = r.name)
    (hfix : ∀ r ∈ rs, Fixes σ r.symbols) (hmade : Matches σ (madeRules blocks) (madeRules blocks')) :
    runRules blocks' = (runRules blocks).map (Rule.rename σ) := by
  induction h generalizing counter' blocks' with
  | nil =>
    cases h'
    rfl
  | @cons _ _ _ r head rs made blocks hr _ ih =>
    cases h' with
    | @cons _ _ _ _ head' _ made' blocks' hr' h' =>
      obtain ⟨hname, hnames⟩ := List.forall_mem_cons.mp hnames
      obtain ⟨hrule, hfix⟩ := List.forall_mem_cons.mp hfix
      have hlength : made'.length = made.length := by
        rw [Rule.length_made hr, Rule.length_made hr']
      have hsplit : Matches σ (made ++ madeRules blocks) (made' ++ madeRules blocks') := hmade
      obtain ⟨hmade, hrest⟩ := (matches_append hlength).mp hsplit
      obtain ⟨rfl, rfl⟩ := Rule.normalize_renamed hname hrule hr hr' hmade
      have htail := ih h' hnames hfix hrest
      simp only [runRules, List.flatMap_cons, List.map_append, List.map_cons] at htail ⊢
      rw [htail]

end Flattening

/-- What is called by the `i`-th of the old names gets the `i`-th of the new ones, and every other
name stays. -/
def counterpart (olds news : List String) (k : String) : String := (news[olds.idxOf k]?).getD k

section Counterpart

variable {olds news : List String} {k : String}

theorem counterpart_of_not_mem (hlength : news.length = olds.length) (hk : k ∉ olds) :
    counterpart olds news k = k := by
  have hend : news.length ≤ olds.idxOf k := by rw [hlength, List.idxOf_eq_length hk]
  rw [counterpart, List.getElem?_eq_none hend, Option.getD_none]

theorem map_counterpart (hlength : news.length = olds.length) (hnodup : olds.Nodup) :
    olds.map (counterpart olds news) = news := by
  refine List.ext_getElem (by simpa using hlength.symm) fun i hi hi' => ?_
  have hindex : olds.idxOf olds[i] = i := hnodup.idxOf_getElem i _
  rw [List.getElem_map, counterpart, hindex, List.getElem?_eq_getElem hi', Option.getD_some]

theorem bijOn_of_map_eq {σ : String → String} (h : olds.map σ = news) (hnodup : news.Nodup) :
    Set.BijOn σ {k | k ∈ olds} {k | k ∈ news} := by
  subst h
  refine ⟨fun k hk => List.mem_map_of_mem hk, fun k hk k' hk' heq => ?_, fun k hk => ?_⟩
  · exact List.inj_on_of_nodup_map hnodup hk hk' heq
  · exact List.mem_map.mp hk

end Counterpart

namespace Dictionary

variable {d n n' : Dictionary} {counter counter' last : Nat} {blocks : List (Rule × List Rule)}

/-- The names in the flat form `n` of `d` that no rule of `d` has, in their order. -/
def newNames (d n : Dictionary) : List String := n.keys.filter (! d.contains ·)

theorem newNames_eq (named : d.Named) (h : (d.normalize counter).1 = .ok n)
    (hrun : Flattens counter d.rules blocks last) :
    d.newNames n = (madeRules blocks).map Rule.name := by
  obtain ⟨blocks', hrun', hnodup, -⟩ := exists_run_of_normalize h
  obtain rfl := hrun.blocks_eq hrun'
  have hblock : ∀ b ∈ blocks, (b.1.name :: b.2.map Rule.name).filter (! d.contains ·) =
      b.2.map Rule.name := by
    intro b hb
    have hhead : b.1.name ∈ d.keys := by
      rw [named.keys_eq, ← hrun.names_heads]
      exact List.mem_map_of_mem hb
    have hmade : ∀ k ∈ b.2.map Rule.name, k ∉ d.keys := by
      rw [named.keys_eq, List.forall_mem_map]
      exact fun r hr => hrun.name_made_not_mem hnodup hb hr
    rw [List.filter_cons_of_neg (by simpa using contains_iff.mpr hhead), List.filter_eq_self]
    exact fun k hk => by simpa [contains] using hmade k hk
  rw [newNames, keys_normalize hrun h, List.filter_flatMap, madeRules, List.map_flatMap]
  exact List.flatMap_congr hblock

theorem exists_calls_of_newNames (named : d.Named) (h : (d.normalize counter).1 = .ok n) :
    ∃ calls, d.newNames n = Origin.names counter calls := by
  obtain ⟨blocks, hrun, -, -⟩ := exists_run_of_normalize h
  obtain ⟨calls, hcalls, -⟩ := hrun.numbered
  exact ⟨calls, (newNames_eq named h hrun).trans hcalls⟩

theorem length_newNames (named : d.Named) (h : (d.normalize counter).1 = .ok n) :
    (d.newNames n).length = d.cost := by
  obtain ⟨blocks, hrun, -, -⟩ := exists_run_of_normalize h
  rw [newNames_eq named h hrun, List.length_map, length_madeRules hrun]

/-- Flattening depends on its first number through the new names only. They are asked for one after
the other, and the results of two runs are equal in their order when the `i`-th new name of the one
is read as the `i`-th of the other, in keys, names of rules and references alike. -/
theorem normalize_rename (named : d.Named) (closed : d.Closed)
    (h : (d.normalize counter).1 = .ok n) (h' : (d.normalize counter').1 = .ok n') :
    (∃ calls, d.newNames n = Origin.names counter calls) ∧
      (∃ calls, d.newNames n' = Origin.names counter' calls) ∧
      (d.newNames n).map (counterpart (d.newNames n) (d.newNames n')) = d.newNames n' ∧
      (∀ k ∈ d.keys, counterpart (d.newNames n) (d.newNames n') k = k) ∧
      Set.BijOn (counterpart (d.newNames n) (d.newNames n')) {k | k ∈ n.keys} {k | k ∈ n'.keys} ∧
      n'.entries = n.entries.map fun e =>
        (counterpart (d.newNames n) (d.newNames n') e.1,
          e.2.rename (counterpart (d.newNames n) (d.newNames n'))) := by
  have hlength : (d.newNames n').length = (d.newNames n).length := by
    rw [length_newNames named h, length_newNames named h']
  have hmap := map_counterpart hlength (n.nodup_keys.filter _)
  have hkeep : ∀ k ∈ d.keys, counterpart (d.newNames n) (d.newNames n') k = k := by
    refine fun k hk => counterpart_of_not_mem hlength fun hnew => ?_
    have hno := (List.mem_filter.mp hnew).2
    rw [contains_iff.mpr hk] at hno
    cases hno
  generalize counterpart (d.newNames n) (d.newNames n') = σ at hmap hkeep ⊢
  obtain ⟨blocks, hrun, -, hentries⟩ := exists_run_of_normalize h
  obtain ⟨blocks', hrun', -, hentries'⟩ := exists_run_of_normalize h'
  have hmade : Matches σ (madeRules blocks) (madeRules blocks') := by
    rw [newNames_eq named h hrun, newNames_eq named h' hrun', List.map_map] at hmap
    exact hmap.symm
  have hname : ∀ r ∈ d.rules, σ r.name = r.name := fun r hr =>
    hkeep _ (named.keys_eq ▸ List.mem_map_of_mem hr)
  have hfix : ∀ r ∈ d.rules, Fixes σ r.symbols := fun r hr k hk =>
    hkeep k (closed k (mem_symbols_iff.mpr ⟨r, hr, hk⟩))
  have hrules := hrun.rename hrun' hname hfix hmade
  have hall : n'.entries = n.entries.map fun e => (σ e.1, e.2.rename σ) := by
    rw [hentries', hentries, hrules, List.map_map, List.map_map]
    rfl
  have hkeys : n.keys.map σ = n'.keys := by
    simp [keys, hall, Function.comp_def]
  exact ⟨exists_calls_of_newNames named h, exists_calls_of_newNames named h', hmap, hkeep,
    bijOn_of_map_eq hkeys n'.nodup_keys, hall⟩

/-- `a: 'y'* 'z'* | (a 'w')*`. -/
def crossing : Dictionary :=
  .ofList [("a", .ofBody "a" [[⟨.literal "y", .star⟩, ⟨.literal "z", .star⟩],
    [⟨.group ⟨false, false, [[.once (.nonTerminal "a"), .once (.literal "w")]]⟩, .star⟩]])]

/-- One name is synthesized in both runs, for `(a 'w')*` in the first and for `'z'*` in the second. -/
theorem normalize_rename_crossing :
    ∃ n n', crossing.Named ∧ crossing.Closed ∧ (crossing.normalize 1).1 = .ok n ∧
      (crossing.normalize 2).1 = .ok n' ∧
      n.keys = ["a", "a__lst_1__1", "a__lst_2__2", "a__lst_2__3", "a__lst_2__3__grp_1__4"] ∧
      n'.keys = ["a", "a__lst_1__2", "a__lst_2__3", "a__lst_2__4", "a__lst_2__4__grp_1__5"] ∧
      (crossing.newNames n).map (counterpart (crossing.newNames n) (crossing.newNames n')) =
        crossing.newNames n' ∧
      n'.entries = n.entries.map fun e =>
        (counterpart (crossing.newNames n) (crossing.newNames n') e.1,
          e.2.rename (counterpart (crossing.newNames n) (crossing.newNames n'))) := by
  have hrun : ∃ n, (crossing.normalize 1).1 = .ok n ∧
      n.keys = ["a", "a__lst_1__1", "a__lst_2__2", "a__lst_2__3", "a__lst_2__3__grp_1__4"] :=
    ⟨_, rfl, by decide⟩
  have hrun' : ∃ n, (crossing.normalize 2).1 = .ok n ∧
      n.keys = ["a", "a__lst_1__2", "a__lst_2__3", "a__lst_2__4", "a__lst_2__4__grp_1__5"] :=
    ⟨_, rfl, by decide⟩
  obtain ⟨n, hn, hkeys⟩ := hrun
  obtain ⟨n', hn', hkeys'⟩ := hrun'
  have named : crossing.Named := by decide
  have closed : crossing.Closed := by decide
  obtain ⟨-, -, hmap, -, -, hentries⟩ := normalize_rename named closed hn hn'
  exact ⟨n, n', named, closed, hn, hn', hkeys, hkeys', hmap, hentries⟩

end Dictionary

end GrammarForge
