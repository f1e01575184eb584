import GrammarForge.Proofs.Declaration
import GrammarForge.Proofs.Substitution

/-!
Removing aliases keeps what the remaining names derive, wherever the removal stops. A removed name
derives what the symbol at the end of its chain of aliases derives.
-/

namespace GrammarForge
namespace Dictionary

variable {d d' : Dictionary} {name : String} {target : Symbol}

theorem isGroup_substitution (ht : target.isGroup = false) (n : String) :
    (substitution name target n).isGroup = false := by
  unfold substitution
  split
  · exact ht
  · rfl

theorem isGroup_of_aliasTarget? (h : d.aliasTarget? name = some target) :
    target.isGroup = false := by
  obtain ⟨r, -, hr⟩ := Option.bind_eq_some_iff.mp h
  exact (Rule.aliasTarget?_eq_some_iff.mp hr).2

theorem derives_alias_iff (h : d.aliasTarget? name = some target) (w : List Letter) :
    Derives d (.symbol (.nonTerminal name)) w ↔ Derives d (.symbol target) w := by
  obtain ⟨r, hr, ht⟩ := Option.bind_eq_some_iff.mp h
  obtain ⟨hg, -⟩ := Rule.aliasTarget?_eq_some_iff.mp ht
  simp [Derives.body_iff hr hg, Derives.singleton_iff]

/-- The dictionary in the middle of a step: the references are rewritten and the alias is not yet
removed. -/
def rewriteAlias (d : Dictionary) (name : String) (target : Symbol) : Dictionary :=
  d.mapRules fun r => if r.name = name then r else r.mapReferences (substitution name target)

theorem inlineAlias_eq_erase : d.inlineAlias name target = (d.rewriteAlias name target).erase name :=
  rfl

theorem get?_rewriteAlias (hd : d.Named) (k : String) :
    (d.rewriteAlias name target).get? k =
      if k = name then d.get? k
      else (d.get? k).map (Rule.mapReferences (substitution name target)) := by
  rw [rewriteAlias, get?_mapRules]
  cases hr : d.get? k with
  | none => simp
  | some r =>
    simp only [Option.map_some, hd.name_eq hr]
    split <;> rfl

theorem get?_inlineAlias (hd : d.Named) (k : String) :
    (d.inlineAlias name target).get? k =
      if k = name then none
      else (d.get? k).map (Rule.mapReferences (substitution name target)) := by
  rw [inlineAlias_eq_erase, get?_erase, get?_rewriteAlias hd]
  split <;> rfl

theorem mem_rules_inlineAlias_iff (named : d.Named) {r : Rule} :
    r ∈ (d.inlineAlias name target).rules ↔
      ∃ old ∈ d.rules, old.name ≠ name ∧ old.mapReferences (substitution name target) = r := by
  rw [mem_rules_iff]
  constructor
  · rintro ⟨k, hk⟩
    rw [get?_inlineAlias named] at hk
    split at hk
    · cases hk
    · rename_i hne
      obtain ⟨old, hold, rfl⟩ := Option.map_eq_some_iff.mp hk
      exact ⟨old, mem_rules_iff.mpr ⟨k, hold⟩, named.name_eq hold ▸ hne, rfl⟩
  · rintro ⟨old, hold, hne, rfl⟩
    obtain ⟨k, hk⟩ := mem_rules_iff.mp hold
    have hkey : k ≠ name := named.name_eq hk ▸ hne
    refine ⟨k, ?_⟩
    rw [get?_inlineAlias named, if_neg hkey, hk, Option.map_some]

theorem named_iff : d.Named ↔ ∀ k r, d.get? k = some r → r.name = k := by
  refine ⟨fun hd k r => hd.name_eq, fun h e he => ?_⟩
  exact (h e.1 e.2 (get?_eq_some_iff.mpr he)).symm

theorem Named.inlineAlias (hd : d.Named) : (d.inlineAlias name target).Named := by
  rw [named_iff]
  intro k r hr
  rw [get?_inlineAlias hd] at hr
  split at hr
  · cases hr
  · obtain ⟨r', hr', rfl⟩ := Option.map_eq_some_iff.mp hr
    exact hd.name_eq (r := r') hr'

theorem aliasTarget?_inlineAlias (hd : d.Named) (ht : target.isGroup = false) (k : String) :
    (d.inlineAlias name target).aliasTarget? k =
      if k = name then none
      else (d.aliasTarget? k).map (Symbol.mapReferences (substitution name target)) := by
  rw [aliasTarget?, get?_inlineAlias hd]
  split
  · rfl
  · cases hr : d.get? k with
    | none => simp [aliasTarget?, hr]
    | some r =>
      simp [aliasTarget?, hr, Rule.aliasTarget?_mapReferences (isGroup_substitution ht)]

theorem derives_substitution_iff (h : d.aliasTarget? name = some target) (n : String)
    (w : List Letter) :
    Derives d (.symbol (substitution name target n)) w ↔
      Derives d (.symbol (.nonTerminal n)) w := by
  unfold substitution
  split
  · rename_i hn
    rw [hn, derives_alias_iff h]
  · rfl

theorem ne_of_substitution_eq (hne : target ≠ .nonTerminal name) {k n : String}
    (hn : substitution name target k = .nonTerminal n) : n ≠ name := by
  rintro rfl
  unfold substitution at hn
  split at hn
  · exact hne hn
  · rename_i hk
    exact hk (Symbol.nonTerminal.inj hn)

theorem mapReferences_substitution {s : Symbol} (hs : s.isGroup = false)
    (hn : s ≠ .nonTerminal name) : s.mapReferences (substitution name target) = s := by
  cases s with
  | nonTerminal n => exact if_neg fun h => hn (congrArg _ h)
  | group g => cases hs
  | _ => rfl

section Step

variable (hd : d.Named) (h : d.aliasTarget? name = some target)
include hd h

theorem derives_rewriteAlias_iff {φ : Phrase} {w : List Letter} :
    Derives (d.rewriteAlias name target) φ w ↔ Derives d φ w := by
  have h' : (d.rewriteAlias name target).aliasTarget? name = some target := by
    rw [aliasTarget?, get?_rewriteAlias hd, if_pos rfl]
    exact h
  constructor
  · refine Derives.of_bodies fun {k r g v} hr hg hv => ?_
    rw [get?_rewriteAlias hd] at hr
    split at hr
    · exact .reference hr hg hv
    · obtain ⟨r₀, hr₀, rfl⟩ := Option.map_eq_some_iff.mp hr
      rw [Rule.group?_mapReferences] at hg
      obtain ⟨g₀, hg₀, rfl⟩ := Option.map_eq_some_iff.mp hg
      exact .reference hr₀ hg₀
        ((g₀.derives_mapReferences (derives_substitution_iff h) v).mp hv)
  · refine Derives.of_bodies fun {k r g v} hr hg hv => ?_
    have hget : (d.rewriteAlias name target).get? k = _ := get?_rewriteAlias hd k
    rw [hr] at hget
    split at hget
    · exact .reference hget hg hv
    · have hg' := (Rule.group?_mapReferences r).trans
        (congrArg (Option.map (Group.mapReferences (substitution name target))) hg)
      exact .reference hget hg'
        ((g.derives_mapReferences (derives_substitution_iff h') v).mpr hv)

/-- One step of the removal keeps what every phrase derives that does not mention the alias. -/
theorem derives_inlineAlias_iff (hne : target ≠ .nonTerminal name) {φ : Phrase} {w : List Letter}
    (hφ : φ.Within (· ≠ name)) : Derives (d.inlineAlias name target) φ w ↔ Derives d φ w := by
  have confined : (d.rewriteAlias name target).Confines (· ≠ name) := by
    intro k r hk hr n hn
    rw [get?_rewriteAlias hd, if_neg hk] at hr
    obtain ⟨r₀, -, rfl⟩ := Option.map_eq_some_iff.mp hr
    have hplain : ∀ m, (substitution name target m).isGroup = false :=
      isGroup_substitution (isGroup_of_aliasTarget? h)
    obtain ⟨m, -, hm⟩ := (Rule.nonTerminal_mem_mapReferences_iff hplain).mp hn
    exact ne_of_substitution_eq hne hm
  have agree : ∀ k, k ≠ name →
      (d.inlineAlias name target).get? k = (d.rewriteAlias name target).get? k := by
    intro k hk
    rw [inlineAlias_eq_erase, get?_erase, if_neg hk]
  exact (Derives.confined_iff confined agree hφ).symm.trans (derives_rewriteAlias_iff hd h)

end Step

/-- What holds of a dictionary and is kept by every step of the removal holds wherever it stops. -/
theorem reduceAll_induction {P : Dictionary → Prop} {pending : List String}
    (step : ∀ d name target, name ∈ pending → d.aliasTarget? name = some target →
      target ≠ .nonTerminal name → P d → P (d.inlineAlias name target))
    (h : P d) : P (d.reduceAll pending).1 := by
  induction pending generalizing d with
  | nil => exact h
  | cons name pending ih =>
    have rest : ∀ {d}, P d → P (d.reduceAll pending).1 :=
      ih fun d name target hm => step d name target (List.mem_cons_of_mem _ hm)
    unfold reduceAll
    cases ht : d.aliasTarget? name with
    | none => exact rest h
    | some target =>
      cases hp : d.aliasProblem? pending name target with
      | some problem => simpa [hp] using h
      | none =>
        have hne : target ≠ .nonTerminal name := by
          rintro rfl
          simp [aliasProblem?] at hp
        simpa [hp] using rest (step d name target List.mem_cons_self ht hne h)

/-- The names that are left are old ones, and derive what they derived. -/
theorem derives_reduceAll {pending : List String} (hd : d.Named) {k : String}
    (hk : k ∈ (d.reduceAll pending).1.keys) :
    k ∈ d.keys ∧ ∀ w, (d.reduceAll pending).1.derives k w ↔ d.derives k w := by
  let P : Dictionary → Prop := fun e => e.Named ∧ ∀ k ∈ e.keys, k ∈ d.keys ∧
    ∀ w, e.derives k w ↔ d.derives k w
  have step : ∀ e name target, name ∈ pending → e.aliasTarget? name = some target →
      target ≠ .nonTerminal name → P e → P (e.inlineAlias name target) := by
    rintro e name target - ht hne ⟨he, hkeys⟩
    refine ⟨he.inlineAlias, fun k hk => ?_⟩
    obtain ⟨r, hr⟩ := mem_keys_iff.mp hk
    rw [get?_inlineAlias he] at hr
    split at hr
    · cases hr
    · rename_i hkn
      obtain ⟨r₀, hr₀, -⟩ := Option.map_eq_some_iff.mp hr
      obtain ⟨hkd, hold⟩ := hkeys k (mem_keys_iff.mpr ⟨r₀, hr₀⟩)
      have within : (Phrase.symbol (.nonTerminal k)).Within (· ≠ name) := by
        simpa [Phrase.Within, Phrase.symbols, Symbol.withInner] using hkn
      exact ⟨hkd, fun w => (derives_inlineAlias_iff he ht hne within).trans (hold w)⟩
  exact (reduceAll_induction (P := P) step ⟨hd, fun k hk => ⟨hk, fun w => Iff.rfl⟩⟩).2 k hk

/-- Following the targets of aliases leads from one symbol to another, which is no alias. -/
inductive Resolves (d : Dictionary) : Symbol → Symbol → Prop where
  | stop {s : Symbol} : (∀ n, s = .nonTerminal n → d.aliasTarget? n = none) → Resolves d s s
  | step {n : String} {t s : Symbol} :
      d.aliasTarget? n = some t → Resolves d t s → Resolves d (.nonTerminal n) s

namespace Resolves

variable {s t : Symbol}

theorem derives_iff (h : d.Resolves s t) (w : List Letter) :
    Derives d (.symbol s) w ↔ Derives d (.symbol t) w := by
  induction h with
  | stop => rfl
  | step ht _ ih => exact (derives_alias_iff ht w).trans ih

theorem isEnd (h : d.Resolves s t) (hs : s.isGroup = false) :
    t.isGroup = false ∧ ∀ n, t = .nonTerminal n → d.aliasTarget? n = none := by
  induction h with
  | stop hstop => exact ⟨hs, hstop⟩
  | step ht _ ih => exact ih (isGroup_of_aliasTarget? ht)

theorem of_inlineAlias (hd : d.Named) (ha : d.aliasTarget? name = some target)
    (hne : target ≠ .nonTerminal name) (h : (d.inlineAlias name target).Resolves s t)
    (hs : s.isGroup = false) (hsn : s ≠ .nonTerminal name) : d.Resolves s t := by
  have hplain := isGroup_of_aliasTarget? ha
  have hget (k : String) : (d.inlineAlias name target).aliasTarget? k = _ :=
    aliasTarget?_inlineAlias hd hplain k
  induction h with
  | stop hstop =>
    refine .stop fun n hn => ?_
    have hk : n ≠ name := fun hk => hsn (hk ▸ hn)
    simpa [hget, hk] using hstop n hn
  | @step n t' s' ht _ ih =>
    have hk : n ≠ name := fun hk => hsn (congrArg _ hk)
    rw [hget, if_neg hk] at ht
    obtain ⟨t, ht₀, rfl⟩ := Option.map_eq_some_iff.mp ht
    refine .step ht₀ ?_
    have htp := isGroup_of_aliasTarget? ht₀
    by_cases htn : t = .nonTerminal name
    · -- The target was the alias itself: its chain goes on through the removed rule.
      subst htn
      have hmap : (Symbol.nonTerminal name).mapReferences (substitution name target) = target := by
        simp [Symbol.mapReferences, substitution]
      rw [hmap] at ih
      exact .step ha (ih hplain hne)
    · rw [mapReferences_substitution htp htn] at ih
      exact ih htp htn

end Resolves

/-- Every chain of aliases ends, if no alias is left. -/
theorem exists_resolves_of_reduceAll {pending : List String} (hd : d.Named)
    (hdone : ∀ k, (d.reduceAll pending).1.aliasTarget? k = none) {s : Symbol}
    (hs : s.isGroup = false) : ∃ t, d.Resolves s t := by
  let P : Dictionary → Prop := fun e => e.Named ∧
    ∃ y, y.isGroup = false ∧ ∀ t, e.Resolves y t → d.Resolves s t
  have step : ∀ e name target, name ∈ pending → e.aliasTarget? name = some target →
      target ≠ .nonTerminal name → P e → P (e.inlineAlias name target) := by
    rintro e name target - ht hne ⟨he, y, hy, hback⟩
    have hplain := isGroup_of_aliasTarget? ht
    refine ⟨he.inlineAlias, ?_⟩
    by_cases hyn : y = .nonTerminal name
    · subst hyn
      exact ⟨target, hplain, fun t h => hback t (.step ht (h.of_inlineAlias he ht hne hplain hne))⟩
    · exact ⟨y, hy, fun t h => hback t (h.of_inlineAlias he ht hne hy hyn)⟩
  obtain ⟨-, y, -, hback⟩ := reduceAll_induction (P := P) step ⟨hd, s, hs, fun _ h => h⟩
  exact ⟨y, hback y (.stop fun n _ => hdone n)⟩

theorem aliasTarget?_reduceAll {pending : List String} (hd : d.Named)
    (hdone : (d.reduceAll pending).2 = none)
    (hpending : ∀ k t, d.aliasTarget? k = some t → k ∈ pending) (k : String) :
    (d.reduceAll pending).1.aliasTarget? k = none := by
  induction pending generalizing d with
  | nil =>
    rw [Option.eq_none_iff_forall_ne_some]
    intro t ht
    cases hpending k t ht
  | cons name pending ih =>
    unfold reduceAll at hdone ⊢
    cases ht : d.aliasTarget? name with
    | none =>
      simp only [ht] at hdone ⊢
      refine ih hd hdone fun k t hk => ?_
      rcases List.mem_cons.mp (hpending k t hk) with rfl | hm
      · simp [ht] at hk
      · exact hm
    | some target =>
      cases hp : d.aliasProblem? pending name target with
      | some problem => simp [ht, hp] at hdone
      | none =>
        simp only [ht, hp] at hdone ⊢
        refine ih hd.inlineAlias hdone fun k t hk => ?_
        rw [aliasTarget?_inlineAlias hd (isGroup_of_aliasTarget? ht)] at hk
        split at hk
        · cases hk
        · rename_i hkn
          obtain ⟨t₀, ht₀, -⟩ := Option.map_eq_some_iff.mp hk
          exact (List.mem_cons.mp (hpending k t₀ ht₀)).resolve_left hkn

theorem mem_aliases (hd : d.Named) (h : d.aliasTarget? name = some target) : name ∈ d.aliases := by
  obtain ⟨r, hr, ht⟩ := Option.bind_eq_some_iff.mp h
  have hmem : r ∈ d.rules.filter Rule.isAlias :=
    List.mem_filter.mpr ⟨List.mem_map_of_mem (get?_eq_some_iff.mp hr), by simp [Rule.isAlias, ht]⟩
  exact hd.name_eq hr ▸ List.mem_map_of_mem hmem

theorem mem_keys_reduceAll {pending : List String} (hd : d.Named) {k : String} (hk : k ∈ d.keys)
    (hn : d.aliasTarget? k = none) : k ∈ (d.reduceAll pending).1.keys := by
  let P : Dictionary → Prop := fun e => e.Named ∧ k ∈ e.keys ∧ e.aliasTarget? k = none
  have step : ∀ e name target, name ∈ pending → e.aliasTarget? name = some target →
      target ≠ .nonTerminal name → P e → P (e.inlineAlias name target) := by
    rintro e name target - ht - ⟨he, hk, hn⟩
    have hkn : k ≠ name := by
      rintro rfl
      simp [hn] at ht
    obtain ⟨r, hr⟩ := mem_keys_iff.mp hk
    refine ⟨he.inlineAlias, mem_keys_iff.mpr ?_, ?_⟩
    · rw [get?_inlineAlias he, if_neg hkn, hr]
      exact ⟨_, rfl⟩
    · rw [aliasTarget?_inlineAlias he (isGroup_of_aliasTarget? ht), if_neg hkn, hn, Option.map_none]
  exact (reduceAll_induction (P := P) step ⟨hd, hk, hn⟩).2.1

theorem derives_end_iff {pending : List String} (hd : d.Named) {s : Symbol}
    (hs : s.isGroup = false) (hend : ∀ n, s = .nonTerminal n → d.aliasTarget? n = none)
    (w : List Letter) :
    Derives d (.symbol s) w ↔ Derives (d.reduceAll pending).1 (.symbol s) w := by
  cases s with
  | terminal v => simp
  | literal v => simp
  | group g => cases hs
  | nonTerminal n =>
    by_cases hk : n ∈ (d.reduceAll pending).1.keys
    · exact ((derives_reduceAll hd hk).2 w).symm
    · have hkd : n ∉ d.keys := fun hm => hk (mem_keys_reduceAll hd hm (hend n rfl))
      simp [Derives.reference_iff, get?_eq_none_iff.mpr hk, get?_eq_none_iff.mpr hkd]

/-- Wherever the removal of aliases stops, the names that are left derive what they derived. If it
succeeds, a removed name derived what the symbol at the end of its chain of aliases derives now. -/
theorem derives_reduce (named : d.Named) :
    (∀ k ∈ d.reduce.1.keys, k ∈ d.keys ∧ ∀ w, d.reduce.1.derives k w ↔ d.derives k w) ∧
      (d.reduce.2 = none → ∀ k ∈ d.keys, k ∉ d.reduce.1.keys →
        ∃ s, d.Resolves (.nonTerminal k) s ∧
          ∀ w, d.derives k w ↔ Derives d.reduce.1 (.symbol s) w) := by
  refine ⟨fun k hk => derives_reduceAll named hk, fun hdone k _ _ => ?_⟩
  have hleft := aliasTarget?_reduceAll named hdone fun k t ht =>
    List.mem_eraseDups.mpr (mem_aliases named ht)
  obtain ⟨s, hres⟩ := exists_resolves_of_reduceAll named hleft (s := .nonTerminal k) rfl
  obtain ⟨hs, hend⟩ := hres.isEnd rfl
  exact ⟨s, hres, fun w => (hres.derives_iff w).trans (derives_end_iff named hs hend w)⟩

/-- `a: b`, `b: c`, `c: NAME (a 'x')* | d`, and `d: a`. -/
def chained : Dictionary :=
  .ofList [("a", .ofBody "a" [[.once (.nonTerminal "b")]]),
    ("b", .ofBody "b" [[.once (.nonTerminal "c")]]),
    ("c", .ofBody "c" [[.once (.terminal "NAME"),
        ⟨.group ⟨false, false, [[.once (.nonTerminal "a"), .once (.literal "x")]]⟩, .star⟩],
      [.once (.nonTerminal "d")]]),
    ("d", .ofBody "d" [[.once (.nonTerminal "a")]])]

theorem derives_reduce_chained :
    chained.Named ∧ chained.reduce.2 = none ∧ chained.reduce.1.keys = ["c"] ∧
      (∀ w, chained.reduce.1.derives "c" w ↔ chained.derives "c" w) ∧
      ∃ s, chained.Resolves (.nonTerminal "d") s ∧
        ∀ w, chained.derives "d" w ↔ Derives chained.reduce.1 (.symbol s) w := by
  have named : chained.Named := by decide
  have hdone : chained.reduce.2 = none := by decide
  obtain ⟨hleft, hremoved⟩ := derives_reduce named
  exact ⟨named, hdone, by decide, (hleft "c" (by decide)).2,
    hremoved hdone "d" (by decide) (by decide)⟩

end Dictionary

end GrammarForge
