import GrammarForge.Proofs.AliasRemoval
import Mathlib.Data.List.Nodup
import Mathlib.Data.List.Perm.Subperm
import Mathlib.Logic.Relation

/-!
Cycles of aliases. The removal fails exactly where following aliases leads back to one of them, and
then at the first alias that lies on a cycle. Removing an alias that lies on none leaves every cycle
as it is, so the cycles that the removal meets are those of the dictionary it started from.
-/

namespace GrammarForge
namespace Dictionary

variable {d e : Dictionary} {a b c k m name via : String} {target : Symbol}
  {path pending rest : List String}

/-- The alias `a` stands for a reference to `b`. -/
def PointsTo (d : Dictionary) (a b : String) : Prop := d.aliasTarget? a = some (.nonTerminal b)

instance (d : Dictionary) (a b : String) : Decidable (d.PointsTo a b) :=
  inferInstanceAs (Decidable (_ = _))

/-- Following aliases leads from the name back to it. -/
def OnCycle (d : Dictionary) (a : String) : Prop := Relation.TransGen d.PointsTo a a

theorem PointsTo.eq (h : d.PointsTo a b) (h' : d.PointsTo a c) : b = c :=
  Symbol.nonTerminal.inj (Option.some.inj (h.symm.trans h'))

theorem OnCycle.exists_pointsTo (h : d.OnCycle a) : ∃ b, d.PointsTo a b :=
  (Relation.TransGen.head'_iff.mp h).imp fun _ => And.left

theorem OnCycle.of_pointsTo (h : d.OnCycle a) (hb : d.PointsTo a b) : d.OnCycle b := by
  obtain ⟨c, hc, hback⟩ := Relation.TransGen.head'_iff.mp h
  obtain rfl := hb.eq hc
  exact Relation.TransGen.tail' hback hb

section Walk

/-- The aliases on a way from `a` to `b`, `a` first and `b` left out. -/
inductive Leads (d : Dictionary) (b : String) : String → List String → Prop where
  | last {a : String} : d.PointsTo a b → Leads d b a [a]
  | cons {a c : String} {path : List String} :
    d.PointsTo a c → Leads d b c path → Leads d b a (a :: path)

namespace Leads

theorem exists_suffix (h : d.Leads b a path) (hc : c ∈ path) :
    ∃ later, d.Leads b c later ∧ later <:+ path := by
  induction h with
  | last hab =>
    obtain rfl := List.mem_singleton.mp hc
    exact ⟨_, .last hab, List.suffix_rfl⟩
  | cons hax h ih =>
    rcases List.mem_cons.mp hc with rfl | hc
    · exact ⟨_, .cons hax h, List.suffix_rfl⟩
    · obtain ⟨later, hlater, hsuffix⟩ := ih hc
      exact ⟨later, hlater, hsuffix.trans (List.suffix_cons _ _)⟩

/-- A way can be taken without passing an alias twice. -/
theorem exists_of_transGen (h : Relation.TransGen d.PointsTo a b) (hne : a ≠ b) :
    ∃ path, d.Leads b a path ∧ path.Nodup ∧ b ∉ path := by
  induction h using Relation.TransGen.head_induction_on with
  | single hab => exact ⟨_, .last hab, List.nodup_singleton _, by simpa using hne.symm⟩
  | @head a c hac hcb ih =>
    by_cases hcb : c = b
    · exact ⟨_, .last (hcb ▸ hac), List.nodup_singleton _, by simpa using hne.symm⟩
    · obtain ⟨path, hpath, hnodup, hb⟩ := ih hcb
      by_cases ha : a ∈ path
      · obtain ⟨later, hlater, hsuffix⟩ := hpath.exists_suffix ha
        exact ⟨later, hlater, hnodup.sublist hsuffix.sublist, fun h => hb (hsuffix.subset h)⟩
      · exact ⟨_, .cons hac hpath, List.nodup_cons.mpr ⟨ha, hnodup⟩, by simp [hne.symm, hb]⟩

theorem onCycle (h : d.Leads b a path) (ha : d.OnCycle a) : ∀ x ∈ path, d.OnCycle x := by
  induction h with
  | last => simpa using ha
  | cons hac _ ih => exact List.forall_mem_cons.mpr ⟨ha, ih (ha.of_pointsTo hac)⟩

end Leads

theorem leadsBack_succ_iff {steps : Nat} : d.leadsBack pending name (steps + 1) a = true ↔
    a ∈ pending ∧ ∃ next, d.PointsTo a next ∧
      (next = name ∨ d.leadsBack pending name steps next = true) := by
  rw [leadsBack]
  unfold PointsTo
  by_cases ha : a ∈ pending
  · rw [if_pos (by simpa using ha)]
    cases ht : d.aliasTarget? a with
    | none => simp
    | some t => cases t <;> simp [ha]
  · rw [if_neg (by simpa using ha)]
    simp [ha]

/-- The walk reports only ways that are there. -/
theorem transGen_of_leadsBack {steps : Nat} (h : d.leadsBack pending name steps a = true) :
    Relation.TransGen d.PointsTo a name := by
  induction steps generalizing a with
  | zero => cases h
  | succ steps ih =>
    obtain ⟨-, next, hnext, rfl | hback⟩ := leadsBack_succ_iff.mp h
    · exact .single hnext
    · exact .head hnext (ih hback)

/-- The walk finds every way that is not longer and passes only aliases that wait. -/
theorem leadsBack_of_leads {steps : Nat} (h : d.Leads name a path)
    (hpath : ∀ x ∈ path, x ∈ pending) (hsteps : path.length ≤ steps) :
    d.leadsBack pending name steps a = true := by
  induction h generalizing steps with
  | last hname =>
    obtain ⟨steps, rfl⟩ := Nat.exists_eq_add_one_of_ne_zero (Nat.ne_of_gt hsteps)
    exact leadsBack_succ_iff.mpr ⟨hpath _ List.mem_cons_self, name, hname, .inl rfl⟩
  | cons hac _ ih =>
    obtain ⟨ha, hpath⟩ := List.forall_mem_cons.mp hpath
    obtain ⟨steps, rfl⟩ :=
      Nat.exists_eq_add_one_of_ne_zero (Nat.ne_of_gt (Nat.zero_lt_of_lt hsteps))
    exact leadsBack_succ_iff.mpr ⟨ha, _, hac, .inr (ih hpath (Nat.le_of_succ_le_succ hsteps))⟩

end Walk

/-- Rules under their own names, of which all that lie on cycles wait to be removed. -/
structure Awaits (d : Dictionary) (pending : List String) : Prop where
  named : d.Named
  mem_of_onCycle : ∀ k, d.OnCycle k → k ∈ pending

theorem Awaits.tail (h : d.Awaits (name :: pending)) (hname : ¬ d.OnCycle name) :
    d.Awaits pending where
  named := h.named
  mem_of_onCycle k hk :=
    (List.mem_cons.mp (h.mem_of_onCycle k hk)).resolve_left fun heq => hname (heq ▸ hk)

section Problem

/-- The limit of the walk is enough: it says whether an alias lies on a cycle. -/
theorem leadsBack_iff (h : d.Awaits (name :: pending)) (hvia : d.PointsTo name via)
    (hne : via ≠ name) :
    d.leadsBack pending name (pending.length + 1) via = true ↔ d.OnCycle name := by
  constructor
  · exact fun hback => .head hvia (transGen_of_leadsBack hback)
  · intro hname
    obtain ⟨next, hnext, hback⟩ := Relation.TransGen.head'_iff.mp hname
    obtain rfl := hvia.eq hnext
    have hway := (Relation.reflTransGen_iff_eq_or_transGen.mp hback).resolve_left hne.symm
    obtain ⟨path, hpath, hnodup, hout⟩ := Leads.exists_of_transGen hway hne
    have hmem : ∀ x ∈ path, x ∈ pending := by
      intro x hx
      have hx' := h.mem_of_onCycle x (hpath.onCycle (hname.of_pointsTo hvia) x hx)
      exact (List.mem_cons.mp hx').resolve_left fun heq => hout (heq ▸ hx)
    have hlength : path.length ≤ pending.length := (hnodup.subperm hmem).length_le
    exact leadsBack_of_leads hpath hmem (Nat.le_succ_of_le hlength)

def cycleProblem (name via : String) : Problem :=
  if via = name then .selfAlias name else .cyclicAlias name via

theorem aliasProblem?_of_onCycle (h : d.Awaits (name :: pending)) (hvia : d.PointsTo name via)
    (hname : d.OnCycle name) :
    d.aliasProblem? pending name (.nonTerminal via) = some (cycleProblem name via) := by
  unfold aliasProblem? cycleProblem
  by_cases heq : via = name
  · simp [heq]
  · simp [heq, (leadsBack_iff h hvia heq).mpr hname]

theorem aliasProblem?_eq_none_iff (h : d.Awaits (name :: pending))
    (ht : d.aliasTarget? name = some target) :
    d.aliasProblem? pending name target = none ↔ ¬ d.OnCycle name := by
  constructor
  · intro hnone hname
    obtain ⟨via, hvia⟩ := hname.exists_pointsTo
    obtain rfl : target = .nonTerminal via := Option.some.inj (ht.symm.trans hvia)
    simp [aliasProblem?_of_onCycle h hvia hname] at hnone
  · intro hname
    cases target with
    | nonTerminal via =>
      have hvia : d.PointsTo name via := ht
      have hne : via ≠ name := fun heq => hname (.single (heq ▸ hvia))
      have hback : d.leadsBack pending name (pending.length + 1) via ≠ true :=
        fun h' => hname ((leadsBack_iff h hvia hne).mp h')
      simp [aliasProblem?, hne, hback]
    | _ => rfl

end Problem

section Step

variable (named : d.Named) (ht : d.aliasTarget? name = some target)
include named ht

theorem transGen_of_pointsTo_inlineAlias (h : (d.inlineAlias name target).PointsTo a b) :
    Relation.TransGen d.PointsTo a b := by
  unfold PointsTo at h
  rw [aliasTarget?_inlineAlias named (isGroup_of_aliasTarget? ht)] at h
  split at h
  · cases h
  · obtain ⟨t, hat, hb⟩ := Option.map_eq_some_iff.mp h
    by_cases htn : t = .nonTerminal name
    · -- The way goes through the removed alias.
      subst htn
      obtain rfl : target = .nonTerminal b := by
        simpa [Symbol.mapReferences, substitution] using hb
      exact .head hat (.single ht)
    · obtain rfl : t = .nonTerminal b :=
        (mapReferences_substitution (isGroup_of_aliasTarget? hat) htn).symm.trans hb
      exact .single hat

variable (hname : ¬ d.OnCycle name)
include hname

theorem pointsTo_inlineAlias (ha : d.OnCycle a) (h : d.PointsTo a b) :
    (d.inlineAlias name target).PointsTo a b := by
  have hane : a ≠ name := fun heq => hname (heq ▸ ha)
  have hbne : b ≠ name := fun heq => hname (heq ▸ ha.of_pointsTo h)
  unfold PointsTo at h ⊢
  rw [aliasTarget?_inlineAlias named (isGroup_of_aliasTarget? ht), if_neg hane, h]
  exact congrArg some (mapReferences_substitution rfl (by simpa using hbne))

/-- Removing an alias that lies on no cycle leaves all cycles, and makes none. -/
theorem onCycle_inlineAlias_iff : (d.inlineAlias name target).OnCycle k ↔ d.OnCycle k := by
  constructor
  · exact fun h => h.lift' id fun _ _ => transGen_of_pointsTo_inlineAlias named ht
  · intro h
    have along : ∀ m, Relation.TransGen d.PointsTo k m →
        d.OnCycle m ∧ Relation.TransGen (d.inlineAlias name target).PointsTo k m := by
      intro m hm
      induction hm with
      | single hkm =>
        exact ⟨h.of_pointsTo hkm, .single (pointsTo_inlineAlias named ht hname h hkm)⟩
      | tail _ hmn ih =>
        obtain ⟨hm, hway⟩ := ih
        exact ⟨hm.of_pointsTo hmn, .tail hway (pointsTo_inlineAlias named ht hname hm hmn)⟩
    exact (along k h).2

theorem Awaits.inlineAlias (h : d.Awaits (name :: pending)) :
    (d.inlineAlias name target).Awaits pending where
  named := named.inlineAlias
  mem_of_onCycle k hk :=
    (h.tail hname).mem_of_onCycle k ((onCycle_inlineAlias_iff named ht hname).mp hk)

end Step

/-- The removal comes from the aliases that wait in a dictionary to those that are left in a later
one. -/
inductive Removes : Dictionary → List String → Dictionary → List String → Prop where
  | refl (d : Dictionary) (pending : List String) : Removes d pending d pending
  | pass {d e : Dictionary} {name : String} {pending rest : List String} :
    d.aliasTarget? name = none → Removes d pending e rest → Removes d (name :: pending) e rest
  | inline {d e : Dictionary} {name : String} {target : Symbol} {pending rest : List String} :
    d.aliasTarget? name = some target → d.aliasProblem? pending name target = none →
    Removes (d.inlineAlias name target) pending e rest → Removes d (name :: pending) e rest

structure SameCycles (d e : Dictionary) : Prop where
  onCycle_iff : ∀ k, e.OnCycle k ↔ d.OnCycle k
  pointsTo : ∀ k m, d.OnCycle k → d.PointsTo k m → e.PointsTo k m

namespace Removes

theorem reduceAll_eq (h : d.Removes pending e rest) : d.reduceAll pending = e.reduceAll rest := by
  induction h with
  | refl => rfl
  | pass ht _ ih => rw [reduceAll, ht]; exact ih
  | inline ht hp _ ih => rw [reduceAll, ht]; simpa only [hp] using ih

theorem sameCycles (h : d.Removes pending e rest) (hd : d.Awaits pending) :
    e.Awaits rest ∧ d.SameCycles e := by
  induction h with
  | refl => exact ⟨hd, fun _ => Iff.rfl, fun _ _ _ hkm => hkm⟩
  | @pass d e name pending rest ht _ ih =>
    have hname : ¬ d.OnCycle name := by
      intro h
      obtain ⟨via, hvia⟩ := h.exists_pointsTo
      cases ht.symm.trans hvia
    exact ih (hd.tail hname)
  | @inline d e name target pending rest ht hp _ ih =>
    have hname := (aliasProblem?_eq_none_iff hd ht).mp hp
    obtain ⟨he, hsame⟩ := ih (hd.inlineAlias hd.named ht hname)
    have hiff := fun k => onCycle_inlineAlias_iff (k := k) hd.named ht hname
    exact ⟨he, fun k => (hsame.onCycle_iff k).trans (hiff k), fun k m hk hkm =>
      hsame.pointsTo k m ((hiff k).mpr hk) (pointsTo_inlineAlias hd.named ht hname hk hkm)⟩

theorem exists_of_not_onCycle {before : List String} (hd : d.Awaits (before ++ rest))
    (h : ∀ x ∈ before, ¬ d.OnCycle x) : ∃ e, d.Removes (before ++ rest) e rest := by
  induction before generalizing d with
  | nil => exact ⟨d, .refl d rest⟩
  | cons name before ih =>
    obtain ⟨hname, hbefore⟩ := List.forall_mem_cons.mp h
    cases ht : d.aliasTarget? name with
    | none =>
      obtain ⟨e, he⟩ := ih (hd.tail hname) hbefore
      exact ⟨e, .pass ht he⟩
    | some target =>
      have hp := (aliasProblem?_eq_none_iff hd ht).mpr hname
      obtain ⟨e, he⟩ := ih (hd.inlineAlias hd.named ht hname)
        fun x hx hcycle => hbefore x hx ((onCycle_inlineAlias_iff hd.named ht hname).mp hcycle)
      exact ⟨e, .inline ht hp he⟩

end Removes

section Reduce

theorem nodup_aliases (named : d.Named) : d.aliases.Nodup := by
  have hkeys : (d.rules.map Rule.name).Nodup := named.keys_eq ▸ d.nodup_keys
  exact hkeys.sublist (List.filter_sublist.map Rule.name)

theorem eraseDups_eq_self {names : List String} (h : names.Nodup) : names.eraseDups = names := by
  induction names with
  | nil => rfl
  | cons name names ih =>
    obtain ⟨hname, hnames⟩ := List.nodup_cons.mp h
    have hfilter : names.filter (fun n => !n == name) = names :=
      List.filter_eq_self.mpr fun n hn => by simpa using fun heq : n = name => hname (heq ▸ hn)
    rw [List.eraseDups_cons, hfilter, ih hnames]

theorem reduce_eq_reduceAll (named : d.Named) : d.reduce = d.reduceAll d.aliases := by
  rw [reduce, eraseDups_eq_self (nodup_aliases named)]

theorem awaits_aliases (named : d.Named) : d.Awaits d.aliases where
  named := named
  mem_of_onCycle _ hk := by
    obtain ⟨via, hvia⟩ := hk.exists_pointsTo
    exact mem_aliases named hvia

theorem reduce_problem_of_acyclic (named : d.Named) (h : ∀ a, ¬ d.OnCycle a) :
    d.reduce.2 = none := by
  have hstart : d.Awaits (d.aliases ++ []) := by simpa using awaits_aliases named
  obtain ⟨e, he⟩ := Removes.exists_of_not_onCycle hstart fun x _ => h x
  rw [reduce_eq_reduceAll named, ← List.append_nil d.aliases, he.reduceAll_eq]
  rfl

/-- The removal stops at the first alias that lies on a cycle. -/
theorem reduce_problem_of_onCycle (named : d.Named) {before after : List String}
    (hsplit : d.aliases = before ++ a :: after) (hbefore : ∀ x ∈ before, ¬ d.OnCycle x)
    (ha : d.OnCycle a) (hab : d.PointsTo a b) : d.reduce.2 = some (cycleProblem a b) := by
  have hstart : d.Awaits (before ++ a :: after) := hsplit ▸ awaits_aliases named
  obtain ⟨e, he⟩ := Removes.exists_of_not_onCycle hstart hbefore
  obtain ⟨hwait, hsame⟩ := he.sameCycles hstart
  have hpoint : e.PointsTo a b := hsame.pointsTo a b ha hab
  have hproblem := aliasProblem?_of_onCycle hwait hpoint ((hsame.onCycle_iff a).mpr ha)
  have htarget : e.aliasTarget? a = some (.nonTerminal b) := hpoint
  rw [reduce_eq_reduceAll named, hsplit, he.reduceAll_eq, reduceAll, htarget]
  simp only [hproblem]

theorem exists_first_onCycle (named : d.Named) (h : ∃ a, d.OnCycle a) :
    ∃ before a after, d.aliases = before ++ a :: after ∧ (∀ x ∈ before, ¬ d.OnCycle x) ∧
      d.OnCycle a := by
  classical
  obtain ⟨k, hk⟩ := h
  have hsome : (d.aliases.find? fun x => d.OnCycle x).isSome :=
    List.find?_isSome.mpr ⟨k, (awaits_aliases named).mem_of_onCycle k hk, by simpa using hk⟩
  obtain ⟨a, ha⟩ := Option.isSome_iff_exists.mp hsome
  obtain ⟨hcycle, before, after, hsplit, hbefore⟩ := List.find?_eq_some_iff_append.mp ha
  exact ⟨before, a, after, hsplit, by simpa using hbefore, by simpa using hcycle⟩

theorem reduce_problem_eq_none_iff (named : d.Named) :
    d.reduce.2 = none ↔ ∀ a, ¬ d.OnCycle a := by
  refine ⟨fun hnone k hk => ?_, reduce_problem_of_acyclic named⟩
  obtain ⟨before, a, after, hsplit, hbefore, ha⟩ := exists_first_onCycle named ⟨k, hk⟩
  obtain ⟨b, hab⟩ := ha.exists_pointsTo
  cases hnone.symm.trans (reduce_problem_of_onCycle named hsplit hbefore ha hab)

/-- The removal of aliases succeeds exactly where none lies on a cycle. Otherwise it stops at the
first one that does, whatever leads into its cycle from aliases in front of it. The walk by which the
removal decides so finds a cycle at a step if and only if there is one, and it is one of the
dictionary that the removal started from. -/
theorem reduce_problem (named : d.Named) :
    (d.reduce.2 = none ↔ ∀ a, ¬ d.OnCycle a) ∧
      ((∃ a, d.OnCycle a) → ∃ before a after b, d.aliases = before ++ a :: after ∧
        (∀ x ∈ before, ¬ d.OnCycle x) ∧ d.OnCycle a ∧ d.PointsTo a b ∧
        d.reduce.2 = some (if b = a then .selfAlias a else .cyclicAlias a b)) ∧
      ∀ e name pending via, d.Removes d.aliases e (name :: pending) → e.PointsTo name via →
        via ≠ name → (e.leadsBack pending name (pending.length + 1) via = true ↔ e.OnCycle name) ∧
          (e.OnCycle name ↔ d.OnCycle name) := by
  refine ⟨reduce_problem_eq_none_iff named, fun h => ?_, fun e name pending via hrun hvia hne => ?_⟩
  · obtain ⟨before, a, after, hsplit, hbefore, ha⟩ := exists_first_onCycle named h
    obtain ⟨b, hab⟩ := ha.exists_pointsTo
    exact ⟨before, a, after, b, hsplit, hbefore, ha, hab,
      reduce_problem_of_onCycle named hsplit hbefore ha hab⟩
  · obtain ⟨hwait, hsame⟩ := hrun.sameCycles (awaits_aliases named)
    exact ⟨leadsBack_iff hwait hvia hne, hsame.onCycle_iff name⟩

/-- `x: a`, `a: b`, `s: x b`, `b: c`, and `c: a`. -/
def circular : Dictionary :=
  .ofList [("x", .ofBody "x" [[.once (.nonTerminal "a")]]),
    ("a", .ofBody "a" [[.once (.nonTerminal "b")]]),
    ("s", .ofBody "s" [[.once (.nonTerminal "x"), .once (.nonTerminal "b")]]),
    ("b", .ofBody "b" [[.once (.nonTerminal "c")]]),
    ("c", .ofBody "c" [[.once (.nonTerminal "a")]])]

/-- `x` leads into the cycle of `a`, `b` and `c`, and is removed first. -/
theorem reduce_problem_circular :
    circular.Named ∧ circular.aliases = ["x", "a", "b", "c"] ∧ circular.OnCycle "a" ∧
      circular.reduce.2 = some (.cyclicAlias "a" "b") ∧
      (∃ before a after b, circular.aliases = before ++ a :: after ∧
        (∀ x ∈ before, ¬ circular.OnCycle x) ∧ circular.OnCycle a ∧ circular.PointsTo a b ∧
        circular.reduce.2 = some (if b = a then .selfAlias a else .cyclicAlias a b)) ∧
      ((circular.inlineAlias "x" (.nonTerminal "a")).leadsBack ["b", "c"] "a" 3 "b" = true ↔
        (circular.inlineAlias "x" (.nonTerminal "a")).OnCycle "a") := by
  have named : circular.Named := by decide
  have hx : circular.aliasTarget? "x" = some (.nonTerminal "a") := by decide
  have hab : circular.PointsTo "a" "b" := by decide
  have hbc : circular.PointsTo "b" "c" := by decide
  have hca : circular.PointsTo "c" "a" := by decide
  have hrun : circular.Removes circular.aliases (circular.inlineAlias "x" (.nonTerminal "a"))
      ["a", "b", "c"] := .inline hx (by decide) (.refl _ _)
  have hvia : (circular.inlineAlias "x" (.nonTerminal "a")).PointsTo "a" "b" := by
    decide
  have ha : circular.OnCycle "a" := .tail (.tail (.single hab) hbc) hca
  obtain ⟨-, hfirst, hwalk⟩ := reduce_problem named
  exact ⟨named, by decide, ha, by decide, hfirst ⟨"a", ha⟩, (hwalk _ _ _ _ hrun hvia (by decide)).1⟩

end Reduce

end Dictionary
end GrammarForge
