import GrammarForge.Proofs.AliasCycles
import GrammarForge.Proofs.Canonical

/-!
The removal of aliases as one substitution. Rewriting the references to one alias after the other
adds up to rewriting every reference at once, to the symbol at the end of its chain of aliases.
-/

namespace GrammarForge

/-- Two parts of rules that differ in their references only: where one of them refers to `n`, the
other has what `f` gives for `n`. -/
inductive BodyPart.Replaced (f : String → Symbol) : BodyPart → BodyPart → Prop where
  | terminal (v : String) : Replaced f (.symbol (.terminal v)) (.symbol (.terminal v))
  | literal (v : String) : Replaced f (.symbol (.literal v)) (.symbol (.literal v))
  | reference (n : String) : Replaced f (.symbol (.nonTerminal n)) (.symbol (f n))
  | group {o i : Bool} {ps qs : List Production} :
      Replaced f (.alternatives ps) (.alternatives qs) →
      Replaced f (.symbol (.group ⟨o, i, ps⟩)) (.symbol (.group ⟨o, i, qs⟩))
  | component {s t : Symbol} {m : Repeat} :
      Replaced f (.symbol s) (.symbol t) → Replaced f (.component ⟨s, m⟩) (.component ⟨t, m⟩)
  | nil : Replaced f (.sequence []) (.sequence [])
  | cons {c e : Component} {p q : Production} :
      Replaced f (.component c) (.component e) → Replaced f (.sequence p) (.sequence q) →
      Replaced f (.sequence (c :: p)) (.sequence (e :: q))
  | noAlternative : Replaced f (.alternatives []) (.alternatives [])
  | alternative {p q : Production} {ps qs : List Production} :
      Replaced f (.sequence p) (.sequence q) → Replaced f (.alternatives ps) (.alternatives qs) →
      Replaced f (.alternatives (p :: ps)) (.alternatives (q :: qs))

structure Rule.Replaced (f : String → Symbol) (r r' : Rule) : Prop where
  name : r'.name = r.name
  groups : List.Forall₂
    (fun g g' => BodyPart.Replaced f (.symbol (.group g)) (.symbol (.group g'))) r.groups r'.groups

def BodyPart.mapReferences (f : String → Symbol) : BodyPart → BodyPart
  | .alternatives ps => .alternatives (Production.mapReferencesList f ps)
  | .sequence p => .sequence (Production.mapReferences f p)
  | .component c => .component ⟨c.symbol.mapReferences f, c.mark⟩
  | .symbol s => .symbol (s.mapReferences f)

section Replaced

variable {f : String → Symbol}

mutual

theorem Symbol.replaced_mapReferences (s : Symbol) :
    BodyPart.Replaced f (.symbol s) (.symbol (s.mapReferences f)) := by
  match s with
  | .terminal v => exact .terminal v
  | .literal v => exact .literal v
  | .nonTerminal n => exact .reference n
  | .group ⟨o, i, ps⟩ => exact .group (Production.replaced_mapReferencesList ps)
termination_by structural s

theorem Production.replaced_mapReferencesList (ps : List Production) :
    BodyPart.Replaced f (.alternatives ps) (.alternatives (Production.mapReferencesList f ps)) := by
  match ps with
  | [] => exact .noAlternative
  | p :: ps =>
    exact .alternative (Production.replaced_mapReferences p)
      (Production.replaced_mapReferencesList ps)
termination_by structural ps

theorem Production.replaced_mapReferences (p : Production) :
    BodyPart.Replaced f (.sequence p) (.sequence (Production.mapReferences f p)) := by
  match p with
  | [] => exact .nil
  | ⟨s, m⟩ :: p =>
    exact .cons (.component (Symbol.replaced_mapReferences s))
      (Production.replaced_mapReferences p)
termination_by structural p

end

theorem BodyPart.Replaced.eq_mapReferences {x y : BodyPart} (h : x.Replaced f y) :
    x.mapReferences f = y := by
  induction h with
  | terminal | literal | reference | nil | noAlternative => rfl
  | group _ ih =>
    have hps := BodyPart.alternatives.inj ih
    simp only [BodyPart.mapReferences, Symbol.mapReferences, hps]
  | component _ ih =>
    have hs := BodyPart.symbol.inj ih
    simp only [BodyPart.mapReferences, hs]
  | @cons c e p q _ _ ihc ihp =>
    obtain ⟨s, m⟩ := c
    have hc := BodyPart.component.inj ihc
    have hp := BodyPart.sequence.inj ihp
    simp only [BodyPart.mapReferences, Production.mapReferences, hc, hp]
  | alternative _ _ ihp ihps =>
    have hp := BodyPart.sequence.inj ihp
    have hps := BodyPart.alternatives.inj ihps
    simp only [BodyPart.mapReferences, Production.mapReferencesList, hp, hps]

theorem Group.replaced_iff {g g' : Group} :
    BodyPart.Replaced f (.symbol (.group g)) (.symbol (.group g')) ↔ g.mapReferences f = g' := by
  have hg : (Symbol.group g).mapReferences f = .group (g.mapReferences f) := by
    cases g
    rfl
  constructor
  · intro h
    exact Symbol.group.inj (hg.symm.trans (BodyPart.symbol.inj h.eq_mapReferences))
  · rintro rfl
    exact hg ▸ Symbol.replaced_mapReferences (.group g)

/-- Rewriting references replaces them and leaves everything else as it is. -/
theorem Rule.replaced_iff {r r' : Rule} : r.Replaced f r' ↔ r.mapReferences f = r' := by
  have hgroups : List.Forall₂ (fun g g' => Group.mapReferences f g = g') r.groups r'.groups ↔
      r.groups.map (Group.mapReferences f) = r'.groups := by
    rw [← List.forall₂_eq_eq_eq, List.forall₂_map_left_iff]
  obtain ⟨name, groups⟩ := r
  obtain ⟨name', groups'⟩ := r'
  constructor
  · rintro ⟨rfl, h⟩
    simp only [Group.replaced_iff] at h
    simp only [mapReferences, hgroups.mp h]
  · intro h
    obtain ⟨hname, h⟩ := Rule.mk.inj h
    exact ⟨hname.symm, by simpa only [Group.replaced_iff] using hgroups.mpr h⟩

end Replaced

mutual

/-- Rewriting references and then those in the result is rewriting them once. -/
theorem Symbol.mapReferences_mapReferences (f g : String → Symbol) (s : Symbol) :
    (s.mapReferences f).mapReferences g = s.mapReferences fun n => (f n).mapReferences g := by
  match s with
  | .terminal v => rfl
  | .literal v => rfl
  | .nonTerminal n => rfl
  | .group ⟨o, i, ps⟩ =>
    simp only [Symbol.mapReferences, Production.mapReferencesList_mapReferencesList f g ps]
termination_by structural s

theorem Production.mapReferencesList_mapReferencesList (f g : String → Symbol)
    (ps : List Production) :
    Production.mapReferencesList g (Production.mapReferencesList f ps) =
      Production.mapReferencesList (fun n => (f n).mapReferences g) ps := by
  match ps with
  | [] => rfl
  | p :: ps =>
    simp only [Production.mapReferencesList, Production.mapReferences_mapReferences f g p,
      Production.mapReferencesList_mapReferencesList f g ps]
termination_by structural ps

theorem Production.mapReferences_mapReferences (f g : String → Symbol) (p : Production) :
    Production.mapReferences g (Production.mapReferences f p) =
      Production.mapReferences (fun n => (f n).mapReferences g) p := by
  match p with
  | [] => rfl
  | ⟨s, m⟩ :: p =>
    simp only [Production.mapReferences, Symbol.mapReferences_mapReferences f g s,
      Production.mapReferences_mapReferences f g p]
termination_by structural p

end

mutual

theorem Symbol.mapReferences_nonTerminal (s : Symbol) : s.mapReferences .nonTerminal = s := by
  match s with
  | .terminal v => rfl
  | .literal v => rfl
  | .nonTerminal n => rfl
  | .group ⟨o, i, ps⟩ =>
    simp only [Symbol.mapReferences, Production.mapReferencesList_nonTerminal ps]
termination_by structural s

theorem Production.mapReferencesList_nonTerminal (ps : List Production) :
    Production.mapReferencesList .nonTerminal ps = ps := by
  match ps with
  | [] => rfl
  | p :: ps =>
    simp only [Production.mapReferencesList, Production.mapReferences_nonTerminal p,
      Production.mapReferencesList_nonTerminal ps]
termination_by structural ps

theorem Production.mapReferences_nonTerminal (p : Production) :
    Production.mapReferences .nonTerminal p = p := by
  match p with
  | [] => rfl
  | ⟨s, m⟩ :: p =>
    simp only [Production.mapReferences, Symbol.mapReferences_nonTerminal s,
      Production.mapReferences_nonTerminal p]
termination_by structural p

end

theorem Rule.mapReferences_mapReferences (f g : String → Symbol) (r : Rule) :
    (r.mapReferences f).mapReferences g = r.mapReferences fun n => (f n).mapReferences g := by
  simp [Rule.mapReferences, Group.mapReferences, Production.mapReferencesList_mapReferencesList]

theorem Rule.mapReferences_nonTerminal (r : Rule) : r.mapReferences .nonTerminal = r := by
  have hgroup : Group.mapReferences .nonTerminal = id := by
    funext ⟨o, i, ps⟩
    simp [Group.mapReferences, Production.mapReferencesList_nonTerminal]
  obtain ⟨name, groups⟩ := r
  simp [Rule.mapReferences, hgroup]

namespace Dictionary

variable {d e : Dictionary} {f : String → Symbol} {name : String} {s t t' target : Symbol}
  {removed : List String}

namespace Resolves

theorem unique (h : d.Resolves s t) (h' : d.Resolves s t') : t = t' := by
  induction h with
  | stop hstop =>
    cases h' with
    | stop => rfl
    | step ha _ => simp [hstop _ rfl] at ha
  | step ha _ ih =>
    cases h' with
    | stop hstop => simp [hstop _ rfl] at ha
    | step ha' h' =>
      obtain rfl := Option.some.inj (ha.symm.trans ha')
      exact ih h'

theorem congr (h : d.Resolves s t) (hde : ∀ k, e.aliasTarget? k = d.aliasTarget? k) :
    e.Resolves s t := by
  induction h with
  | stop hstop => exact .stop fun n hn => (hde n).trans (hstop n hn)
  | step ha _ ih => exact .step ((hde _).trans ha) ih

end Resolves

theorem entries_inlineAlias (named : d.Named) : (d.inlineAlias name target).entries =
    (d.entries.filter fun x => x.1 != name).map fun x =>
      (x.1, x.2.mapReferences (substitution name target)) := by
  simp only [inlineAlias, erase, mapRules, List.filter_map]
  refine List.map_congr_left fun x hx => ?_
  obtain ⟨hmem, hne⟩ := List.mem_filter.mp hx
  have hname : x.2.name ≠ name := named x hmem ▸ by simpa using hne
  rw [if_neg hname]

/-- `e` holds the rules of `d` without the removed aliases, with each reference `n` rewritten to
`f n`. What is left of a chain of aliases ends where the chain ended. -/
structure Contracts (d e : Dictionary) (removed : List String) (f : String → Symbol) : Prop where
  entries : e.entries = (d.entries.filter fun x => ! removed.contains x.1).map fun x =>
    (x.1, x.2.mapReferences f)
  plain : ∀ n, (f n).isGroup = false
  wasAlias : ∀ k ∈ removed, d.aliasTarget? k ≠ none
  resolves : ∀ n t, e.Resolves (f n) t → d.Resolves (.nonTerminal n) t

namespace Contracts

theorem refl (d : Dictionary) : d.Contracts d [] .nonTerminal where
  entries := by simp [Rule.mapReferences_nonTerminal]
  plain _ := rfl
  wasAlias := by simp
  resolves _ _ h := h

theorem aliasTarget?_ne_none (h : d.Contracts e removed f)
    (ht : e.aliasTarget? name = some target) : d.aliasTarget? name ≠ none := by
  obtain ⟨r, hr, hrt⟩ := Option.bind_eq_some_iff.mp ht
  rw [get?_eq_some_iff, h.entries] at hr
  obtain ⟨⟨k, old⟩, hold, heq⟩ := List.mem_map.mp hr
  obtain ⟨rfl, rfl⟩ := Prod.mk.inj heq
  rw [Rule.aliasTarget?_mapReferences h.plain] at hrt
  obtain ⟨s, hs, -⟩ := Option.map_eq_some_iff.mp hrt
  have hget : d.get? k = some old := get?_eq_some_iff.mpr (List.mem_filter.mp hold).1
  simp [aliasTarget?, hget, hs]

/-- A step of the removal puts its substitution behind those made before. -/
theorem inlineAlias (h : d.Contracts e removed f) (named : e.Named)
    (ht : e.aliasTarget? name = some target) (hne : target ≠ .nonTerminal name) :
    d.Contracts (e.inlineAlias name target) (name :: removed)
      fun n => (f n).mapReferences (substitution name target) where
  entries := by
    have hleft : (fun x : String × Rule => x.1 != name && ! removed.contains x.1) =
        fun x => ! (name :: removed).contains x.1 := by
      funext x
      rw [List.contains_cons, Bool.not_or, bne]
    rw [entries_inlineAlias named, h.entries, List.filter_map, List.map_map, List.filter_filter,
      ← hleft]
    simp [Function.comp_def, Rule.mapReferences_mapReferences]
  plain n := by
    have hplain : ∀ m, (substitution name target m).isGroup = false :=
      isGroup_substitution (isGroup_of_aliasTarget? ht)
    exact (Symbol.isGroup_mapReferences hplain _).trans (h.plain n)
  wasAlias := List.forall_mem_cons.mpr ⟨h.aliasTarget?_ne_none ht, h.wasAlias⟩
  resolves n t hres := by
    have htarget := isGroup_of_aliasTarget? ht
    refine h.resolves n t ?_
    by_cases hn : f n = .nonTerminal name
    · -- The reference was one to the alias: its chain goes on through the removed rule.
      have hmap : (f n).mapReferences (substitution name target) = target := by
        simp [hn, Symbol.mapReferences, substitution]
      rw [hmap] at hres
      rw [hn]
      exact .step ht (hres.of_inlineAlias named ht hne htarget hne)
    · rw [mapReferences_substitution (h.plain n) hn] at hres
      exact hres.of_inlineAlias named ht hne (h.plain n) hn

theorem reduceAll (named : d.Named) (pending : List String) :
    ∃ removed f, d.Contracts (d.reduceAll pending).1 removed f := by
  let P : Dictionary → Prop := fun e => e.Named ∧ ∃ removed f, d.Contracts e removed f
  have step : ∀ e name target, name ∈ pending → e.aliasTarget? name = some target →
      target ≠ .nonTerminal name → P e → P (e.inlineAlias name target) := by
    rintro e name target - ht hne ⟨he, removed, f, h⟩
    exact ⟨he.inlineAlias, _, _, h.inlineAlias he ht hne⟩
  exact (reduceAll_induction (P := P) step ⟨named, _, _, refl d⟩).2

section Done

variable (h : d.Contracts e removed f) (hdone : ∀ k, e.aliasTarget? k = none)
include h hdone

theorem resolves_of_done (n : String) : d.Resolves (.nonTerminal n) (f n) :=
  h.resolves n (f n) (.stop fun m _ => hdone m)

theorem contains_removed_of_done {x : String × Rule} (hx : x ∈ d.entries) :
    removed.contains x.1 = x.2.isAlias := by
  have hget : d.get? x.1 = some x.2 := get?_eq_some_iff.mpr hx
  by_cases hr : x.1 ∈ removed
  · have halias : x.2.aliasTarget? ≠ none := by
      simpa [aliasTarget?, hget] using h.wasAlias x.1 hr
    simp [hr, Rule.isAlias, Option.isSome_iff_ne_none, halias]
  · have hleft : (x.1, x.2.mapReferences f) ∈ e.entries := by
      rw [h.entries]
      exact List.mem_map.mpr ⟨x, List.mem_filter.mpr ⟨hx, by simpa using hr⟩, rfl⟩
    have hnone : (x.2.mapReferences f).aliasTarget? = none := by
      simpa [aliasTarget?, get?_eq_some_iff.mpr hleft] using hdone x.1
    rw [Rule.aliasTarget?_mapReferences h.plain, Option.map_eq_none_iff] at hnone
    simp [hr, Rule.isAlias, hnone]

end Done

end Contracts

section Reorder

variable (h : e.entries.Perm d.entries)
include h

theorem aliasTarget?_of_perm (k : String) : e.aliasTarget? k = d.aliasTarget? k := by
  have hget : e.get? k = d.get? k :=
    Option.ext fun r => get?_eq_some_iff.trans (h.mem_iff.trans get?_eq_some_iff.symm)
  rw [aliasTarget?, aliasTarget?, hget]

theorem onCycle_iff_of_perm (k : String) : e.OnCycle k ↔ d.OnCycle k := by
  have hpoints : e.PointsTo = d.PointsTo := by
    funext a b
    rw [PointsTo, PointsTo, aliasTarget?_of_perm h]
  rw [OnCycle, OnCycle, hpoints]

end Reorder

theorem exists_resolve_of_reduce (named : d.Named) (h : d.reduce.2 = none) :
    ∃ resolve : String → Symbol, (∀ n, d.Resolves (.nonTerminal n) (resolve n)) ∧
      d.reduce.1.entries = (d.entries.filter fun x => ! x.2.isAlias).map fun x =>
        (x.1, x.2.mapReferences resolve) := by
  have hdone := aliasTarget?_of_reduce named (Prod.ext rfl h : d.reduce = (d.reduce.1, none))
  obtain ⟨removed, f, hf⟩ : ∃ removed f, d.Contracts d.reduce.1 removed f :=
    Contracts.reduceAll named d.aliases.eraseDups
  refine ⟨f, hf.resolves_of_done hdone, ?_⟩
  have hfilter : (d.entries.filter fun x => ! removed.contains x.1) =
      d.entries.filter fun x => ! x.2.isAlias :=
    List.filter_congr fun x hx => by rw [hf.contains_removed_of_done hdone hx]
  rw [hf.entries, hfilter]

/-- The removal of aliases is one substitution. Where it succeeds, exactly the rules are left that
are no aliases, in their order, with every reference replaced by the symbol where its chain of
aliases ends and nothing else changed. In whatever order the rules are declared, the same rules come
out. -/
theorem reduce_eq_substitution (named : d.Named) (h : d.reduce.2 = none) :
    ∃ resolve : String → Symbol,
      (∀ n, d.Resolves (.nonTerminal n) (resolve n) ∧
        ∀ t, d.Resolves (.nonTerminal n) t → t = resolve n) ∧
      (d.reduce.1.entries = (d.entries.filter fun x => ! x.2.isAlias).map fun x =>
        (x.1, x.2.mapReferences resolve)) ∧
      List.Forall₂ (fun x y => y.1 = x.1 ∧ x.2.Replaced resolve y.2)
        (d.entries.filter fun x => ! x.2.isAlias) d.reduce.1.entries ∧
      (∀ r ∈ d.reduce.1.rules, r.isAlias = false) ∧
      ∀ e : Dictionary, e.entries.Perm d.entries →
        e.reduce.2 = none ∧ e.reduce.1.entries.Perm d.reduce.1.entries := by
  obtain ⟨resolve, hresolve, hentries⟩ := exists_resolve_of_reduce named h
  have hdone := aliasTarget?_of_reduce named (Prod.ext rfl h : d.reduce = (d.reduce.1, none))
  have hreplaced : List.Forall₂ (fun x y => y.1 = x.1 ∧ x.2.Replaced resolve y.2)
      (d.entries.filter fun x => ! x.2.isAlias) d.reduce.1.entries := by
    rw [hentries, List.forall₂_map_right_iff, List.forall₂_same]
    exact fun x _ => ⟨rfl, Rule.replaced_iff.mpr rfl⟩
  refine ⟨resolve, fun n => ⟨hresolve n, fun t ht => ht.unique (hresolve n)⟩, hentries, hreplaced,
    isAlias_eq_false hdone, fun e hperm => ?_⟩
  have henamed : e.Named := fun x hx => named x (hperm.mem_iff.mp hx)
  have hacyclic : ∀ a, ¬ e.OnCycle a := fun a ha =>
    (reduce_problem_eq_none_iff named).mp h a ((onCycle_iff_of_perm hperm a).mp ha)
  have he : e.reduce.2 = none := (reduce_problem_eq_none_iff henamed).mpr hacyclic
  obtain ⟨resolve', hresolve', hentries'⟩ := exists_resolve_of_reduce henamed he
  have hsame : resolve' = resolve := by
    funext n
    exact ((hresolve' n).congr fun k => (aliasTarget?_of_perm hperm k).symm).unique (hresolve n)
  refine ⟨he, ?_⟩
  rw [hentries, hentries', hsame]
  exact (hperm.filter _).map _

/-- `n: w`, `s: n ('x' q)* | 'y'`, `q: p`, and `w: NAME`. -/
def layered : Dictionary :=
  .ofList [("n", .ofBody "n" [[.once (.nonTerminal "w")]]),
    ("s", .ofBody "s" [[.once (.nonTerminal "n"),
        ⟨.group ⟨false, false, [[.once (.literal "x"), .once (.nonTerminal "q")]]⟩, .star⟩],
      [.once (.literal "y")]]),
    ("q", .ofBody "q" [[.once (.nonTerminal "p")]]),
    ("w", .ofBody "w" [[.once (.terminal "NAME")]])]

/-- One chain of aliases ends at a terminal, the other at a name without a rule. What is left is
`s: NAME ('x' p)* | 'y'`. -/
theorem reduce_eq_substitution_layered :
    layered.Named ∧ layered.reduce.2 = none ∧
      layered.reduce.1.entries = [("s", .ofBody "s" [[.once (.terminal "NAME"),
          ⟨.group ⟨false, false, [[.once (.literal "x"), .once (.nonTerminal "p")]]⟩, .star⟩],
        [.once (.literal "y")]])] ∧
      ∃ resolve : String → Symbol,
        resolve "n" = .terminal "NAME" ∧ resolve "q" = .nonTerminal "p" ∧
        (layered.reduce.1.entries = (layered.entries.filter fun x => ! x.2.isAlias).map fun x =>
          (x.1, x.2.mapReferences resolve)) ∧
        List.Forall₂ (fun x y => y.1 = x.1 ∧ x.2.Replaced resolve y.2)
          (layered.entries.filter fun x => ! x.2.isAlias) layered.reduce.1.entries ∧
        (ofList layered.entries.reverse).reduce.1.entries.Perm layered.reduce.1.entries := by
  have named : layered.Named := by decide
  have hdone : layered.reduce.2 = none := by decide
  obtain ⟨resolve, hresolve, hentries, hreplaced, -, hperm⟩ := reduce_eq_substitution named hdone
  have hnw : layered.aliasTarget? "n" = some (.nonTerminal "w") := by decide
  have hw : layered.aliasTarget? "w" = some (.terminal "NAME") := by decide
  have hq : layered.aliasTarget? "q" = some (.nonTerminal "p") := by decide
  have hp : layered.aliasTarget? "p" = none := by decide
  have hn : layered.Resolves (.nonTerminal "n") (.terminal "NAME") :=
    .step hnw (.step hw (.stop fun _ h => nomatch h))
  have hq : layered.Resolves (.nonTerminal "q") (.nonTerminal "p") :=
    .step hq (.stop fun _ h => Symbol.nonTerminal.inj h ▸ hp)
  exact ⟨named, hdone, by decide, resolve, ((hresolve "n").2 _ hn).symm,
    ((hresolve "q").2 _ hq).symm, hentries, hreplaced, (hperm _ (by decide)).2⟩

end Dictionary
end GrammarForge
