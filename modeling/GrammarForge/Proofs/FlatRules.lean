import GrammarForge.Proofs.AliasRemoval
import GrammarForge.Proofs.Normalization

/-!
Flat rules: alternatives of plain sequences, in which nothing is repeated and nothing is a group.
Flattening makes every rule flat and leaves flat rules as they are, and the removal of aliases keeps
rules flat.
-/

namespace GrammarForge

def Component.IsPlain (c : Component) : Prop := c.mark = .once ∧ c.symbol.isGroup = false

theorem Rule.group?_of_groups {r : Rule} {g : Group} (h : r.groups = [g]) : r.group? = some g := by
  rw [group?, h]

/-- A body of plain sequences, of which there is at least one. -/
structure Rule.IsFlat (r : Rule) : Prop where
  body : ∃ ps, r.groups = [Group.body ps] ∧ ps ≠ [] ∧ ∀ p ∈ ps, ∀ c ∈ p, Component.IsPlain c

/-- A group, if the symbol is one, has alternatives. -/
def Symbol.hasAlternatives : Symbol → Bool
  | .group g => !g.productions.isEmpty
  | _ => true

theorem Component.isPlain_once {s : Symbol} (hs : s.isGroup = false) : (once s).IsPlain := ⟨rfl, hs⟩

theorem Rule.isFlat_ofBody {name : String} {ps : List Production} (hne : ps ≠ [])
    (hps : ∀ p ∈ ps, ∀ c ∈ p, Component.IsPlain c) : (ofBody name ps).IsFlat := ⟨ps, rfl, hne, hps⟩

theorem listRule_isFlat {name : String} {m : Repeat} {element : Symbol}
    (h : element.isGroup = false) : (listRule name m element).IsFlat := by
  have helement : (Component.once element).IsPlain := Component.isPlain_once h
  have hname : (Component.once (.nonTerminal name)).IsPlain := Component.isPlain_once rfl
  refine Rule.isFlat_ofBody (by simp) ?_
  split <;> simp [helement, hname]

theorem groupRule_isFlat {name : String} {optional : Bool} {ps : List Production} (hne : ps ≠ [])
    (hps : ∀ p ∈ ps, ∀ c ∈ p, Component.IsPlain c) : (groupRule name optional ps).IsFlat := by
  cases optional with
  | false => exact Rule.isFlat_ofBody hne hps
  | true => exact Rule.isFlat_ofBody (by simp) (by simpa using hps)

theorem Production.length_value_flattenList (owner : String) (stride position counter : Nat)
    (ps : List Production) :
    (flattenList owner stride position counter ps).value.length = ps.length := by
  induction ps generalizing position counter with
  | nil => rfl
  | cons p ps ih => simp [flattenList, ih]

theorem Production.value_flattenList_ne_nil {owner : String} {stride position counter : Nat}
    {ps : List Production} (hps : ps ≠ []) :
    (flattenList owner stride position counter ps).value ≠ [] := by
  rw [← List.length_pos_iff, length_value_flattenList]
  exact List.length_pos_iff.mpr hps

mutual

/-- The flat form of a symbol is no group, and the rules made for it are flat. -/
theorem Symbol.flatten_isFlat (owner : String) (position counter : Nat) (s : Symbol)
    (hs : ∀ x ∈ s.withInner, x.hasAlternatives = true) :
    (s.flatten owner position counter).value.isGroup = false ∧
      ∀ r ∈ (s.flatten owner position counter).rules, r.IsFlat := by
  match s with
  | .terminal v => exact ⟨rfl, by simp [Symbol.flatten]⟩
  | .literal v => exact ⟨rfl, by simp [Symbol.flatten]⟩
  | .nonTerminal n => exact ⟨rfl, by simp [Symbol.flatten]⟩
  | .group ⟨o, i, ps⟩ =>
    simp only [Symbol.withInner, List.forall_mem_cons] at hs
    have hne : ps ≠ [] := by simpa [Symbol.hasAlternatives] using hs.1
    simp only [Symbol.flatten, List.forall_mem_cons]
    obtain ⟨hvalue, hrules⟩ := Production.flattenList_isFlat
      ((if o then Origin.optionalGroup else .group).name owner position counter) 0 1 (counter + 1)
      ps hs.2
    exact ⟨rfl, groupRule_isFlat (Production.value_flattenList_ne_nil hne) hvalue, hrules⟩
termination_by structural s

theorem Production.flattenList_isFlat (owner : String) (stride position counter : Nat)
    (ps : List Production) (hs : ∀ x ∈ Production.symbolsList ps, x.hasAlternatives = true) :
    (∀ p ∈ (Production.flattenList owner stride position counter ps).value, ∀ c ∈ p,
      Component.IsPlain c) ∧
      ∀ r ∈ (Production.flattenList owner stride position counter ps).rules, r.IsFlat := by
  match ps with
  | [] => exact ⟨by simp [Production.flattenList], by simp [Production.flattenList]⟩
  | p :: ps =>
    simp only [Production.symbolsList, List.forall_mem_append] at hs
    simp only [Production.flattenList, List.forall_mem_cons, List.forall_mem_append]
    obtain ⟨hp, hmade⟩ := Production.flatten_isFlat owner position counter p hs.1
    obtain ⟨hps, hmade'⟩ := Production.flattenList_isFlat owner stride (position + stride)
      (Production.flatten owner position counter p).counter ps hs.2
    exact ⟨⟨hp, hps⟩, hmade, hmade'⟩
termination_by structural ps

theorem Production.flatten_isFlat (owner : String) (position counter : Nat) (p : Production)
    (hs : ∀ x ∈ Production.symbols p, x.hasAlternatives = true) :
    (∀ c ∈ (Production.flatten owner position counter p).value, Component.IsPlain c) ∧
      ∀ r ∈ (Production.flatten owner position counter p).rules, r.IsFlat := by
  match p with
  | [] => exact ⟨by simp [Production.flatten], by simp [Production.flatten]⟩
  | ⟨s, m⟩ :: p =>
    simp only [Production.symbols, List.forall_mem_append] at hs
    by_cases hm : m = .once
    · simp only [Production.flatten, hm, if_true, List.forall_mem_cons, List.forall_mem_append]
      obtain ⟨hfirst, hmade⟩ := Symbol.flatten_isFlat owner position counter s hs.1
      obtain ⟨hrest, hmade'⟩ := Production.flatten_isFlat owner _ _ p hs.2
      exact ⟨⟨Component.isPlain_once hfirst, hrest⟩, hmade, hmade'⟩
    · simp only [Production.flatten, hm, if_false, List.forall_mem_cons, List.forall_mem_append]
      obtain ⟨helement, hmade⟩ := Symbol.flatten_isFlat
        (Origin.list.name owner position counter) 1 (counter + 1) s hs.1
      obtain ⟨hrest, hmade'⟩ := Production.flatten_isFlat owner _ _ p hs.2
      exact ⟨⟨Component.isPlain_once rfl, hrest⟩, listRule_isFlat helement, hmade, hmade'⟩
termination_by structural p

end

section Plain

variable {p : Production} {ps : List Production} {r : Rule} {counter : Nat}

theorem Symbol.flatten_of_isGroup {s : Symbol} (owner : String) (position counter : Nat)
    (hs : s.isGroup = false) : s.flatten owner position counter = ⟨s, [], counter⟩ := by
  cases s with
  | group g => cases hs
  | _ => rfl

theorem Production.flatten_of_isPlain (owner : String) (position counter : Nat)
    (hp : ∀ c ∈ p, Component.IsPlain c) :
    Production.flatten owner position counter p = ⟨p, [], counter⟩ := by
  induction p with
  | nil => rfl
  | cons c p ih =>
    obtain ⟨s, m⟩ := c
    obtain ⟨hc, hrest⟩ := List.forall_mem_cons.mp hp
    obtain ⟨rfl, hs⟩ : m = .once ∧ s.isGroup = false := hc
    simp [flatten, Symbol.flatten_of_isGroup owner position counter hs, hs, ih hrest, Component.once]

theorem Production.flattenList_of_isPlain (owner : String) (stride position counter : Nat)
    (hps : ∀ p ∈ ps, ∀ c ∈ p, Component.IsPlain c) :
    Production.flattenList owner stride position counter ps = ⟨ps, [], counter⟩ := by
  induction ps generalizing position with
  | nil => rfl
  | cons p ps ih =>
    obtain ⟨hp, hps⟩ := List.forall_mem_cons.mp hps
    simp [flattenList, flatten_of_isPlain owner position counter hp, ih _ hps]

/-- A flat rule is its own flat form, and no rule is made for it. -/
theorem Rule.IsFlat.normalize_eq (hr : r.IsFlat) (counter : Nat) :
    r.normalize counter = .ok ([r], counter) := by
  obtain ⟨name, groups⟩ := r
  obtain ⟨ps, rfl : groups = _, -, hps⟩ := hr
  refine Rule.normalize_eq_ok_iff.mpr ⟨_, rfl, ?_⟩
  have hflat := Production.flattenList_of_isPlain name 1 1 counter hps
  simp [Group.body, hflat]

theorem Flattens.of_isFlat {rs : List Rule} (hrs : ∀ r ∈ rs, r.IsFlat) :
    Flattens counter rs (rs.map fun r => (r, [])) counter := by
  induction rs with
  | nil => exact .nil counter
  | cons r rs ih =>
    obtain ⟨hr, hrs⟩ := List.forall_mem_cons.mp hrs
    exact .cons (hr.normalize_eq counter) (ih hrs)

end Plain

/-- A body with alternatives, in which every group has alternatives. -/
structure Rule.WellFormed (r : Rule) : Prop where
  body : ∃ ps, r.groups = [Group.body ps] ∧ ps ≠ []
  groups : ∀ x ∈ r.symbols, x.hasAlternatives = true

theorem Rule.WellFormed.isSome_group? {r : Rule} (h : r.WellFormed) : r.group?.isSome = true := by
  obtain ⟨ps, hg, -⟩ := h.body
  rw [Rule.group?_of_groups hg, Option.isSome_some]

theorem Rule.isFlat_of_normalize {r : Rule} {rs : List Rule} {counter next : Nat}
    (hr : r.WellFormed) (h : r.normalize counter = .ok (rs, next)) : ∀ s ∈ rs, s.IsFlat := by
  obtain ⟨ps, hg, hne⟩ := hr.body
  have hgroup : r.group? = some (Group.body ps) := Rule.group?_of_groups hg
  obtain ⟨g, hg', rfl, -⟩ := Rule.normalize_eq_ok_iff.mp h
  obtain rfl := Option.some.inj (hgroup.symm.trans hg')
  have hsyms : ∀ x ∈ Production.symbolsList ps, x.hasAlternatives = true := by
    simpa [Rule.symbols_of_group? hgroup, Group.body] using hr.groups
  obtain ⟨hvalue, hmade⟩ := Production.flattenList_isFlat r.name 1 1 counter ps hsyms
  exact List.forall_mem_cons.mpr
    ⟨⟨_, rfl, Production.value_flattenList_ne_nil hne, hvalue⟩, hmade⟩

theorem Flattens.isFlat {counter last : Nat} {rs : List Rule} {blocks : List (Rule × List Rule)}
    (h : Flattens counter rs blocks last) (hrs : ∀ r ∈ rs, r.WellFormed) :
    ∀ r ∈ runRules blocks, r.IsFlat := by
  induction h with
  | nil => simp [runRules]
  | cons hr _ ih =>
    obtain ⟨hwell, hrs⟩ := List.forall_mem_cons.mp hrs
    exact List.forall_mem_append.mpr ⟨Rule.isFlat_of_normalize hwell hr, ih hrs⟩

theorem Rule.IsFlat.mapReferences {f : String → Symbol} {r : Rule} (hr : r.IsFlat)
    (hf : ∀ n, (f n).isGroup = false) : (r.mapReferences f).IsFlat := by
  obtain ⟨ps, hg, hne, hps⟩ := hr
  refine ⟨Production.mapReferencesList f ps, by simp [Rule.mapReferences, hg]; rfl, ?_, ?_⟩
  · simpa [Production.mapReferencesList_eq_map] using hne
  · intro p hp c hc
    rw [Production.mapReferencesList_eq_map] at hp
    obtain ⟨q, hq, rfl⟩ := List.mem_map.mp hp
    rw [Production.mapReferences_eq_map] at hc
    obtain ⟨x, hx, rfl⟩ := List.mem_map.mp hc
    obtain ⟨hm, hs⟩ := hps q hq x hx
    exact ⟨hm, (Symbol.isGroup_mapReferences hf x.symbol).trans hs⟩

namespace Rule.IsFlat

variable {r : Rule}

theorem isGroup_of_mem_symbols (hr : r.IsFlat) {s : Symbol} (hs : s ∈ r.symbols) :
    s.isGroup = false := by
  have hplain : ∀ p : Production, (∀ c ∈ p, Component.IsPlain c) →
      ∀ x ∈ Production.symbols p, x.isGroup = false := by
    intro p hp
    induction p with
    | nil => simp [Production.symbols]
    | cons c p ih =>
      obtain ⟨hc, hp⟩ := List.forall_mem_cons.mp hp
      rw [Production.symbols_cons, Symbol.withInner_of_isGroup hc.2]
      exact List.forall_mem_cons.mpr ⟨hc.2, ih hp⟩
  obtain ⟨ps, hg, -, hps⟩ := hr
  have hgroup : r.group? = some (Group.body ps) := Rule.group?_of_groups hg
  rw [Rule.symbols_of_group? hgroup, Production.symbolsList_eq_flatMap] at hs
  obtain ⟨p, hp, hsp⟩ := List.mem_flatMap.mp hs
  exact hplain p (hps p hp) s hsp

theorem groups_ne_group (hr : r.IsFlat) {g : Group} : r.groups ≠ [.body [[.once (.group g)]]] := by
  intro h
  obtain ⟨ps, hg, -, hps⟩ := hr
  obtain rfl : ps = [[.once (.group g)]] := by simpa [Group.body] using hg.symm.trans h
  have hplain : (Component.once (.group g)).IsPlain := hps _ List.mem_cons_self _ List.mem_cons_self
  cases hplain.2

end Rule.IsFlat

namespace Dictionary

variable {d n : Dictionary}

def IsFlat (d : Dictionary) : Prop := ∀ r ∈ d.rules, r.IsFlat

/-- Flattening makes well-formed rules flat. -/
theorem isFlat_normalize {counter : Nat} (hd : ∀ r ∈ d.rules, r.WellFormed)
    (h : (d.normalize counter).1 = .ok n) : n.IsFlat := by
  obtain ⟨blocks, hrun, -, hentries⟩ := exists_run_of_normalize h
  rw [IsFlat, rules_of_entries hentries]
  exact hrun.isFlat hd

theorem IsFlat.normalize_eq (hd : d.IsFlat) (named : d.Named) (counter : Nat) :
    d.normalize counter = (.ok d, counter) := by
  refine normalizeInto_eq_ok_iff.mpr ⟨_, Flattens.of_isFlat hd, ?_⟩
  have hrun : runRules (d.rules.map fun r => (r, [])) = d.rules := by
    simp [runRules, List.flatMap_map]
  rw [hrun]
  refine declareAll_eq_ok_iff.mpr ⟨?_, by simpa [empty] using named.entries_eq⟩
  simpa [keys, empty, ← named.keys_eq] using d.nodup_keys

theorem IsFlat.inlineAlias {name : String} {target : Symbol} (hd : d.IsFlat) (named : d.Named)
    (ht : target.isGroup = false) : (d.inlineAlias name target).IsFlat := by
  intro r hr
  obtain ⟨old, hold, -, rfl⟩ := (mem_rules_inlineAlias_iff named).mp hr
  exact (hd old hold).mapReferences (isGroup_substitution ht)

/-- The removal of aliases keeps rules flat and under their own names, wherever it stops. -/
theorem IsFlat.reduceAll {pending : List String} (hd : d.IsFlat) (named : d.Named) :
    (d.reduceAll pending).1.IsFlat ∧ (d.reduceAll pending).1.Named := by
  refine reduceAll_induction (P := fun e => e.IsFlat ∧ e.Named) ?_ ⟨hd, named⟩
  rintro e name target - ht - ⟨he, henamed⟩
  exact ⟨he.inlineAlias henamed (isGroup_of_aliasTarget? ht), henamed.inlineAlias⟩

theorem reduce_eq (h : ∀ r ∈ d.rules, r.isAlias = false) : d.reduce = (d, none) := by
  have hnone : d.aliases = [] := by simpa [aliases] using h
  rw [reduce, hnone]
  rfl

end Dictionary

end GrammarForge
