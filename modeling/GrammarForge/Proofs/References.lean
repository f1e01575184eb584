import Mathlib.Data.List.Basic
import GrammarForge.Proofs.AliasRemoval
import GrammarForge.Proofs.SynthesizedNames

/-!
Which symbols a dictionary refers to after flattening, and after the removal of aliases. Flattening
keeps every plain symbol and adds references to the rules it makes. Removing aliases keeps exactly
the references that a rule other than an alias uses, be it through a chain of aliases.
-/

namespace GrammarForge

section Flattening

variable {x : Symbol}

theorem listRule_symbols (name : String) (m : Repeat) (s : Symbol) :
    x ∈ (listRule name m s).symbols ↔ x ∈ s.withInner ∨ x = .nonTerminal name := by
  unfold listRule
  split <;>
    simp [Rule.ofBody, Rule.symbols, Group.body, Production.symbolsList, Production.symbols_cons,
      Production.symbols, Symbol.withInner]

theorem groupRule_symbols (name : String) (optional : Bool) (ps : List Production) :
    (groupRule name optional ps).symbols = Production.symbolsList ps := by
  cases optional <;>
    simp [groupRule, Rule.ofBody, Rule.symbols, Group.body, Production.symbolsList,
      Production.symbols]

def OccursIn (x : Symbol) (rs : List Rule) : Prop := ∃ r ∈ rs, x ∈ r.symbols

def RefersTo (x : Symbol) (rs : List Rule) : Prop := ∃ r ∈ rs, x = .nonTerminal r.name

@[simp] theorem occursIn_nil : ¬ OccursIn x [] := by simp [OccursIn]

@[simp] theorem refersTo_nil : ¬ RefersTo x [] := by simp [RefersTo]

theorem occursIn_cons {r : Rule} {rs : List Rule} :
    OccursIn x (r :: rs) ↔ x ∈ r.symbols ∨ OccursIn x rs := List.exists_mem_cons_iff _ _ _

theorem refersTo_cons {r : Rule} {rs : List Rule} :
    RefersTo x (r :: rs) ↔ x = .nonTerminal r.name ∨ RefersTo x rs := List.exists_mem_cons_iff _ _ _

theorem occursIn_append {rs rs' : List Rule} :
    OccursIn x (rs ++ rs') ↔ OccursIn x rs ∨ OccursIn x rs' := by
  simp only [OccursIn, List.mem_append, or_and_right, exists_or]

theorem refersTo_append {rs rs' : List Rule} :
    RefersTo x (rs ++ rs') ↔ RefersTo x rs ∨ RefersTo x rs' := by
  simp only [RefersTo, List.mem_append, or_and_right, exists_or]

mutual

/-- The plain symbols in the flat form of a symbol and in the rules made for it are those of the
symbol and the names of these rules. -/
theorem Symbol.mem_flatten_iff (hx : x.isGroup = false) (owner : String) (position counter : Nat)
    (s : Symbol) :
    x ∈ (s.flatten owner position counter).value.withInner ∨
        OccursIn x (s.flatten owner position counter).rules ↔
      x ∈ s.withInner ∨ RefersTo x (s.flatten owner position counter).rules := by
  match s with
  | .terminal v => simp [Symbol.flatten]
  | .literal v => simp [Symbol.flatten]
  | .nonTerminal n => simp [Symbol.flatten]
  | .group ⟨o, i, ps⟩ =>
    have hne : x ≠ .group ⟨o, i, ps⟩ := by
      rintro rfl
      cases hx
    have inner := Production.mem_flattenList_iff hx
      ((if o then Origin.optionalGroup else .group).name owner position counter) 0 1 (counter + 1) ps
    simp only [Symbol.flatten, Symbol.withInner, List.mem_cons, List.not_mem_nil, or_false, hne,
      false_or, occursIn_cons, refersTo_cons, groupRule_symbols, inner]
    exact or_left_comm
termination_by structural s

theorem Production.mem_flattenList_iff (hx : x.isGroup = false) (owner : String)
    (stride position counter : Nat) (ps : List Production) :
    x ∈ Production.symbolsList (Production.flattenList owner stride position counter ps).value ∨
        OccursIn x (Production.flattenList owner stride position counter ps).rules ↔
      x ∈ Production.symbolsList ps ∨
        RefersTo x (Production.flattenList owner stride position counter ps).rules := by
  match ps with
  | [] => simp [Production.flattenList]
  | p :: ps =>
    have first := Production.mem_flatten_iff hx owner position counter p
    have rest := Production.mem_flattenList_iff hx owner stride (position + stride)
      (Production.flatten owner position counter p).counter ps
    simp only [Production.flattenList, Production.symbolsList, List.mem_append, occursIn_append,
      refersTo_append]
    rw [or_or_or_comm, first, rest, or_or_or_comm]
termination_by structural ps

theorem Production.mem_flatten_iff (hx : x.isGroup = false) (owner : String)
    (position counter : Nat) (p : Production) :
    x ∈ Production.symbols (Production.flatten owner position counter p).value ∨
        OccursIn x (Production.flatten owner position counter p).rules ↔
      x ∈ Production.symbols p ∨
        RefersTo x (Production.flatten owner position counter p).rules := by
  match p with
  | [] => simp [Production.flatten]
  | ⟨s, m⟩ :: p =>
    by_cases hm : m = .once
    · have first := Symbol.mem_flatten_iff hx owner position counter s
      have rest := Production.mem_flatten_iff hx owner
        (if s.isGroup then position + 1 else position)
        (s.flatten owner position counter).counter p
      simp only [Production.flatten, hm, if_true, Production.symbols_cons, Component.symbol_once,
        List.mem_append, occursIn_append, refersTo_append]
      rw [or_or_or_comm, first, rest, or_or_or_comm]
    · have element := Symbol.mem_flatten_iff hx (Origin.list.name owner position counter) 1
        (counter + 1) s
      have rest := Production.mem_flatten_iff hx owner (position + 1)
        (s.flatten (Origin.list.name owner position counter) 1 (counter + 1)).counter p
      have hname (m : Repeat) (e : Symbol) : (listRule (Origin.list.name owner position counter) m
        e).name = Origin.list.name owner position counter := rfl
      -- The name of the list stands in the flat form and is that of a made rule.
      simp only [Production.flatten, hm, if_false, Production.symbols_cons, Component.symbol_once,
        Symbol.withInner, List.mem_append, List.mem_cons, List.not_mem_nil, or_false,
        occursIn_cons, occursIn_append, refersTo_cons, refersTo_append, listRule_symbols, hname]
      grind
termination_by structural p

end

theorem Rule.occursIn_normalize_iff {r : Rule} {rs : List Rule} {counter next : Nat}
    (hx : x.isGroup = false) (h : r.normalize counter = .ok (rs, next)) :
    OccursIn x rs ↔ x ∈ r.symbols ∨ RefersTo x rs.tail := by
  obtain ⟨g, hg, rfl, -⟩ := Rule.normalize_eq_ok_iff.mp h
  have hbody := Production.mem_flattenList_iff hx r.name 1 1 counter g.productions
  rw [occursIn_cons, Rule.symbols_of_group? hg, List.tail_cons, ← hbody]
  simp [Rule.symbols]

theorem Flattens.occursIn_iff {counter last : Nat} {rs : List Rule}
    {blocks : List (Rule × List Rule)} (hx : x.isGroup = false)
    (h : Flattens counter rs blocks last) :
    OccursIn x (runRules blocks) ↔ OccursIn x rs ∨ RefersTo x (madeRules blocks) := by
  induction h with
  | nil => simp [runRules, madeRules]
  | @cons _ _ _ r head rs made blocks hr _ ih =>
    have hblock := Rule.occursIn_normalize_iff hx hr
    have hrun : runRules ((head, made) :: blocks) = (head :: made) ++ runRules blocks := rfl
    have hmade : madeRules ((head, made) :: blocks) = made ++ madeRules blocks := rfl
    rw [hrun, hmade, occursIn_append, hblock, ih, List.tail_cons, occursIn_cons, refersTo_append]
    exact or_or_or_comm

end Flattening

namespace Dictionary

variable {d n : Dictionary} {x : Symbol} {counter : Nat} {name k m : String} {target : Symbol}

theorem mem_symbols_iff : x ∈ d.symbols ↔ OccursIn x d.rules := List.mem_flatMap

theorem mem_symbols_of_normalize (h : (d.normalize counter).1 = .ok n) (hx : x.isGroup = false)
    (hmem : x ∈ n.symbols) : x ∈ d.symbols ∨ ∃ k ∈ n.keys, x = .nonTerminal k := by
  obtain ⟨blocks, hrun, -, hentries⟩ := exists_run_of_normalize h
  rw [mem_symbols_iff, rules_of_entries hentries, hrun.occursIn_iff hx] at hmem
  refine hmem.imp mem_symbols_iff.mpr ?_
  rintro ⟨r, hr, rfl⟩
  refine ⟨r.name, ?_, rfl⟩
  rw [keys_of_entries hentries, ← hrun.names_perm.mem_iff]
  exact List.mem_append_right _ (List.mem_map_of_mem hr)

theorem keys_subset_normalize (named : d.Named) (h : (d.normalize counter).1 = .ok n)
    (hk : k ∈ d.keys) : k ∈ n.keys := by
  obtain ⟨r, hr⟩ := mem_keys_iff.mp hk
  obtain ⟨_, _, head, _, _, hhead, _⟩ := (flatFormOf_normalize named h).block hr
  exact mem_keys_iff.mpr ⟨head, hhead⟩

/-- Flattening leaves no reference without a rule. -/
theorem Closed.normalize (closed : d.Closed) (named : d.Named)
    (h : (d.normalize counter).1 = .ok n) : n.Closed := by
  intro k hk
  rcases mem_symbols_of_normalize h rfl hk with hold | ⟨k', hk', hname⟩
  · exact keys_subset_normalize named h (closed k hold)
  · exact Symbol.nonTerminal.inj hname ▸ hk'

theorem mem_symbols_of_aliasTarget? (h : d.aliasTarget? name = some target) :
    target ∈ d.symbols := by
  obtain ⟨r, hr, ht⟩ := Option.bind_eq_some_iff.mp h
  obtain ⟨hg, hplain⟩ := Rule.aliasTarget?_eq_some_iff.mp ht
  refine mem_symbols_iff.mpr ⟨r, mem_rules_iff.mpr ⟨name, hr⟩, ?_⟩
  simp [Rule.symbols, hg, Group.body, Production.symbolsList, Production.symbols_cons,
    Symbol.withInner_of_isGroup hplain]

theorem mem_symbols_of_inlineAlias (named : d.Named) (ht : d.aliasTarget? name = some target)
    (hx : x.isGroup = false)
    (hmem : x ∈ (d.inlineAlias name target).symbols) : x ∈ d.symbols := by
  have hplain : ∀ k, (substitution name target k).isGroup = false :=
    isGroup_substitution (isGroup_of_aliasTarget? ht)
  obtain ⟨r, hr, hxr⟩ := mem_symbols_iff.mp hmem
  obtain ⟨old, hold, -, rfl⟩ := (mem_rules_inlineAlias_iff named).mp hr
  rw [Rule.symbols_mapReferences hplain] at hxr
  obtain ⟨y, hy, rfl⟩ := List.mem_map.mp hxr
  have hyd : y ∈ d.symbols := mem_symbols_iff.mpr ⟨old, hold, hy⟩
  match y with
  | .terminal v => exact hyd
  | .literal v => exact hyd
  | .group ⟨o, i, ps⟩ => cases hx
  | .nonTerminal k =>
    by_cases hk : k = name
    · have hsym : (Symbol.nonTerminal k).mapReferences (substitution name target) = target := by
        simp [Symbol.mapReferences, substitution, hk]
      rw [hsym]
      exact mem_symbols_of_aliasTarget? ht
    · have hsym : (Symbol.nonTerminal k).mapReferences (substitution name target) =
          .nonTerminal k := by
        simp [Symbol.mapReferences, substitution, hk]
      rwa [hsym]

theorem mem_symbols_of_reduceAll {pending : List String} (named : d.Named)
    (hx : x.isGroup = false) (hmem : x ∈ (d.reduceAll pending).1.symbols) : x ∈ d.symbols := by
  let P : Dictionary → Prop := fun e => e.Named ∧ (x ∈ e.symbols → x ∈ d.symbols)
  have step : ∀ e name target, name ∈ pending → e.aliasTarget? name = some target →
      target ≠ .nonTerminal name → P e → P (e.inlineAlias name target) := by
    rintro e name target - ht - ⟨he, hback⟩
    exact ⟨he.inlineAlias, fun h => hback (mem_symbols_of_inlineAlias he ht hx h)⟩
  exact (reduceAll_induction (P := P) step ⟨named, id⟩).2 hmem

/-- A name that a rule other than an alias refers to, at once or through a chain of aliases. -/
inductive Uses (d : Dictionary) : String → Prop where
  | direct {r : Rule} {k : String} :
      r ∈ d.rules → r.aliasTarget? = none → Symbol.nonTerminal k ∈ r.symbols → Uses d k
  | through {k m : String} : Uses d k → d.aliasTarget? k = some (.nonTerminal m) → Uses d m

namespace Uses

theorem mem_symbols (h : d.Uses k) : Symbol.nonTerminal k ∈ d.symbols := by
  cases h with
  | direct hr _ hk => exact mem_symbols_iff.mpr ⟨_, hr, hk⟩
  | through _ ha => exact mem_symbols_of_aliasTarget? ha

section Step

variable (named : d.Named) (ht : d.aliasTarget? name = some target)
  (hne : target ≠ .nonTerminal name)
include named ht hne

theorem of_inlineAlias (h : (d.inlineAlias name target).Uses m) : d.Uses m ∧ m ≠ name := by
  have hplain : ∀ k, (substitution name target k).isGroup = false :=
    isGroup_substitution (isGroup_of_aliasTarget? ht)
  -- A reference to the alias is used with its target, any other one as it is.
  have back : ∀ {k m}, d.Uses k → substitution name target k = .nonTerminal m → d.Uses m := by
    intro k m hk hm
    by_cases hkn : k = name
    · have htarget : target = .nonTerminal m := by simpa [substitution, hkn] using hm
      exact .through (hkn ▸ hk) (htarget ▸ ht)
    · have hkm : k = m := by simpa [substitution, hkn] using hm
      exact hkm ▸ hk
  induction h with
  | direct hr ha hk =>
    obtain ⟨old, hold, -, rfl⟩ := (mem_rules_inlineAlias_iff named).mp hr
    obtain ⟨k, hk, hm⟩ := (Rule.nonTerminal_mem_mapReferences_iff hplain).mp hk
    rw [Rule.aliasTarget?_mapReferences hplain, Option.map_eq_none_iff] at ha
    exact ⟨back (.direct hold ha hk) hm, ne_of_substitution_eq hne hm⟩
  | through _ ha ih =>
    obtain ⟨hk, hkn⟩ := ih
    rw [aliasTarget?_inlineAlias named (isGroup_of_aliasTarget? ht), if_neg hkn] at ha
    obtain ⟨t, hkt, hm⟩ := Option.map_eq_some_iff.mp ha
    cases t with
    | nonTerminal k' => exact ⟨back (.through hk hkt) hm, ne_of_substitution_eq hne hm⟩
    | group g =>
      obtain ⟨o, i, ps⟩ := g
      cases hm
    | terminal v => cases hm
    | literal v => cases hm

theorem inlineAlias (h : d.Uses k) (hm : substitution name target k = .nonTerminal m) :
    (d.inlineAlias name target).Uses m := by
  have hplain : ∀ k, (substitution name target k).isGroup = false :=
    isGroup_substitution (isGroup_of_aliasTarget? ht)
  induction h generalizing m with
  | @direct r k hr ha hk =>
    have hrn : r.name ≠ name := by
      rintro rfl
      obtain ⟨key, hkey⟩ := mem_rules_iff.mp hr
      obtain rfl : r.name = key := named.name_eq hkey
      simp [aliasTarget?, hkey, ha] at ht
    refine .direct ((mem_rules_inlineAlias_iff named).mpr ⟨r, hr, hrn, rfl⟩) ?_ ?_
    · rw [Rule.aliasTarget?_mapReferences hplain, ha, Option.map_none]
    · exact (Rule.nonTerminal_mem_mapReferences_iff hplain).mpr ⟨k, hk, hm⟩
  | @through k k' _ ha ih =>
    by_cases hkn : k = name
    · -- The alias itself was used: its target takes its place, and is no reference to it.
      subst hkn
      have htarget : target = .nonTerminal k' := Option.some.inj (ht.symm.trans ha)
      have hk' : k' ≠ k := fun h => hne (h ▸ htarget)
      have hkm : k' = m := by simpa [substitution, hk'] using hm
      exact ih (by simpa [substitution, ← hkm] using htarget)
    · have huse := ih (m := k) (by simp [substitution, hkn])
      refine .through huse ?_
      rw [aliasTarget?_inlineAlias named (isGroup_of_aliasTarget? ht), if_neg hkn, ha]
      exact congrArg some hm

end Step

end Uses

/-- Where no alias is left, the references are the names that were used and were no aliases. -/
theorem nonTerminal_mem_symbols_reduceAll_iff {pending : List String} (named : d.Named)
    (hdone : ∀ k, (d.reduceAll pending).1.aliasTarget? k = none) :
    Symbol.nonTerminal k ∈ (d.reduceAll pending).1.symbols ↔
      d.Uses k ∧ d.aliasTarget? k = none := by
  let P : Dictionary → Prop := fun e => e.Named ∧
    ((e.Uses k ∧ e.aliasTarget? k = none) ↔ (d.Uses k ∧ d.aliasTarget? k = none))
  have step : ∀ e name target, name ∈ pending → e.aliasTarget? name = some target →
      target ≠ .nonTerminal name → P e → P (e.inlineAlias name target) := by
    rintro e name target - ht hne ⟨he, hiff⟩
    refine ⟨he.inlineAlias, ?_⟩
    rw [← hiff, aliasTarget?_inlineAlias he (isGroup_of_aliasTarget? ht)]
    constructor
    · rintro ⟨huse, hnone⟩
      obtain ⟨hold, hkn⟩ := huse.of_inlineAlias he ht hne
      exact ⟨hold, by simpa [hkn] using hnone⟩
    · rintro ⟨huse, hnone⟩
      have hkn : k ≠ name := by
        rintro rfl
        simp [hnone] at ht
      exact ⟨huse.inlineAlias he ht hne (by simp [substitution, hkn]), by simp [hkn, hnone]⟩
  obtain ⟨he, hiff⟩ := reduceAll_induction (P := P) step ⟨named, Iff.rfl⟩
  rw [← hiff]
  constructor
  · intro hk
    obtain ⟨r, hr, hkr⟩ := mem_symbols_iff.mp hk
    obtain ⟨key, hkey⟩ := mem_rules_iff.mp hr
    have hnone : r.aliasTarget? = none := by simpa [aliasTarget?, hkey] using hdone key
    exact ⟨.direct hr hnone hkr, hdone k⟩
  · exact fun h => h.1.mem_symbols

end Dictionary

end GrammarForge
