import Mathlib.Data.List.Basic
import GrammarForge.Proofs.Language
import GrammarForge.Rule.Alias

/-!
Rewriting references inside rules: what a rewritten rule derives, what it refers to, and when it is
an alias.
-/

namespace GrammarForge

section Substitution

variable {d : Dictionary} {f : String → Symbol}

mutual

/-- References may give way to symbols that derive the same texts. -/
theorem Symbol.derives_mapReferences
    (hf : ∀ n w, Derives d (.symbol (f n)) w ↔ Derives d (.symbol (.nonTerminal n)) w)
    (s : Symbol) (w : List Letter) :
    Derives d (.symbol (s.mapReferences f)) w ↔ Derives d (.symbol s) w := by
  match s with
  | .terminal v => exact Iff.rfl
  | .literal v => exact Iff.rfl
  | .nonTerminal n => exact hf n w
  | .group ⟨o, i, ps⟩ =>
    simp only [Symbol.mapReferences, Derives.group_iff,
      Production.derives_mapReferencesList hf ps w]
termination_by structural s

theorem Production.derives_mapReferencesList
    (hf : ∀ n w, Derives d (.symbol (f n)) w ↔ Derives d (.symbol (.nonTerminal n)) w)
    (ps : List Production) (w : List Letter) :
    (∃ p ∈ Production.mapReferencesList f ps, Derives d (.sequence p) w) ↔
      ∃ p ∈ ps, Derives d (.sequence p) w := by
  match ps with
  | [] => exact Iff.rfl
  | p :: ps =>
    simp only [Production.mapReferencesList, List.exists_mem_cons_iff,
      Production.derives_mapReferences hf p w, Production.derives_mapReferencesList hf ps w]
termination_by structural ps

theorem Production.derives_mapReferences
    (hf : ∀ n w, Derives d (.symbol (f n)) w ↔ Derives d (.symbol (.nonTerminal n)) w)
    (p : Production) (w : List Letter) :
    Derives d (.sequence (Production.mapReferences f p)) w ↔ Derives d (.sequence p) w := by
  match p with
  | [] => exact Iff.rfl
  | ⟨s, m⟩ :: p =>
    have first := fun u => Symbol.derives_mapReferences hf s u
    have rest := fun v => Production.derives_mapReferences hf p v
    simp only [Production.mapReferences, Derives.cons_iff, Derives.component_congr first, rest]
termination_by structural p

end

theorem Group.derives_mapReferences
    (hf : ∀ n w, Derives d (.symbol (f n)) w ↔ Derives d (.symbol (.nonTerminal n)) w)
    (g : Group) (w : List Letter) :
    Derives d (.symbol (.group (g.mapReferences f))) w ↔ Derives d (.symbol (.group g)) w := by
  obtain ⟨o, i, ps⟩ := g
  exact Symbol.derives_mapReferences hf (.group ⟨o, i, ps⟩) w

theorem Symbol.withInner_of_isGroup {s : Symbol} (hs : s.isGroup = false) : s.withInner = [s] := by
  cases s with
  | group g => cases hs
  | _ => rfl

mutual

/-- With plain symbols in place of references, the symbols are rewritten one by one. -/
theorem Symbol.withInner_mapReferences (hf : ∀ n, (f n).isGroup = false) (s : Symbol) :
    (s.mapReferences f).withInner = s.withInner.map (Symbol.mapReferences f) := by
  match s with
  | .terminal v => rfl
  | .literal v => rfl
  | .nonTerminal n => exact Symbol.withInner_of_isGroup (hf n)
  | .group ⟨o, i, ps⟩ =>
    simp only [Symbol.mapReferences, Symbol.withInner, List.map_cons,
      Production.symbolsList_mapReferencesList hf ps]
termination_by structural s

theorem Production.symbolsList_mapReferencesList (hf : ∀ n, (f n).isGroup = false)
    (ps : List Production) :
    Production.symbolsList (Production.mapReferencesList f ps) =
      (Production.symbolsList ps).map (Symbol.mapReferences f) := by
  match ps with
  | [] => rfl
  | p :: ps =>
    simp only [Production.mapReferencesList, Production.symbolsList, List.map_append,
      Production.symbols_mapReferences hf p, Production.symbolsList_mapReferencesList hf ps]
termination_by structural ps

theorem Production.symbols_mapReferences (hf : ∀ n, (f n).isGroup = false) (p : Production) :
    Production.symbols (Production.mapReferences f p) =
      (Production.symbols p).map (Symbol.mapReferences f) := by
  match p with
  | [] => rfl
  | ⟨s, m⟩ :: p =>
    simp only [Production.mapReferences, Production.symbols, List.map_append,
      Symbol.withInner_mapReferences hf s, Production.symbols_mapReferences hf p]
termination_by structural p

end

theorem Rule.symbols_mapReferences (hf : ∀ n, (f n).isGroup = false) (r : Rule) :
    (r.mapReferences f).symbols = r.symbols.map (Symbol.mapReferences f) := by
  simp [Rule.symbols, Rule.mapReferences, Group.mapReferences, List.flatMap_map, List.map_flatMap,
    Production.symbolsList_mapReferencesList hf]

theorem Rule.nonTerminal_mem_mapReferences_iff (hf : ∀ n, (f n).isGroup = false) {n : String}
    {r : Rule} :
    Symbol.nonTerminal n ∈ (r.mapReferences f).symbols ↔
      ∃ k, Symbol.nonTerminal k ∈ r.symbols ∧ f k = .nonTerminal n := by
  rw [Rule.symbols_mapReferences hf, List.mem_map]
  constructor
  · rintro ⟨s, hs, hn⟩
    match s with
    | .nonTerminal k => exact ⟨k, hs, hn⟩
    | .group ⟨o, i, ps⟩ => cases hn
    | .terminal v => cases hn
    | .literal v => cases hn
  · rintro ⟨k, hk, hn⟩
    exact ⟨_, hk, hn⟩

theorem Rule.group?_mapReferences (r : Rule) :
    (r.mapReferences f).group? = r.group?.map (Group.mapReferences f) := by
  obtain ⟨n, gs⟩ := r
  match gs with
  | [] => rfl
  | [_] => rfl
  | _ :: _ :: _ => rfl

end Substitution

theorem Rule.aliasTarget?_eq_some_iff {r : Rule} {s : Symbol} :
    r.aliasTarget? = some s ↔ r.groups = [Group.body [[.once s]]] ∧ s.isGroup = false := by
  constructor
  · intro h
    unfold Rule.aliasTarget? at h
    split at h
    · rename_i t hg
      cases ht : t.isGroup with
      | true => simp [ht] at h
      | false =>
        obtain rfl : t = s := by simpa [ht] using h
        exact ⟨hg, ht⟩
    · cases h
  · rintro ⟨hg, hs⟩
    simp [Rule.aliasTarget?, hg, Group.body, Component.once, hs]

theorem Symbol.isGroup_mapReferences {f : String → Symbol} (hf : ∀ n, (f n).isGroup = false)
    (s : Symbol) : (s.mapReferences f).isGroup = s.isGroup := by
  match s with
  | .terminal v => rfl
  | .literal v => rfl
  | .nonTerminal n => exact hf n
  | .group ⟨o, i, ps⟩ => rfl

theorem Production.mapReferencesList_eq_map (f : String → Symbol) (ps : List Production) :
    Production.mapReferencesList f ps = ps.map (Production.mapReferences f) := by
  induction ps with
  | nil => rfl
  | cons p ps ih => simp [Production.mapReferencesList, ih]

theorem Production.mapReferences_eq_map (f : String → Symbol) (p : Production) :
    Production.mapReferences f p = p.map fun c => ⟨c.symbol.mapReferences f, c.mark⟩ := by
  induction p with
  | nil => rfl
  | cons c p ih =>
    obtain ⟨s, m⟩ := c
    simp [Production.mapReferences, ih]

theorem Rule.groups_mapReferences_iff {f : String → Symbol} {r : Rule} {t : Symbol} :
    (r.mapReferences f).groups = [Group.body [[.once t]]] ↔
      ∃ s, r.groups = [Group.body [[.once s]]] ∧ s.mapReferences f = t := by
  constructor
  · intro h
    obtain ⟨⟨o, i, ps⟩, hg, hbody⟩ := List.map_eq_singleton_iff.mp h
    simp only [Group.mapReferences, Group.body, Group.mk.injEq, Production.mapReferencesList_eq_map,
      List.map_eq_singleton_iff, Production.mapReferences_eq_map] at hbody
    obtain ⟨rfl, rfl, p, rfl, ⟨s, m⟩, rfl, hc⟩ := hbody
    obtain ⟨rfl, rfl⟩ := Component.mk.inj hc
    exact ⟨s, hg, rfl⟩
  · rintro ⟨s, hg, rfl⟩
    simp [Rule.mapReferences, hg, Group.mapReferences, Group.body, Component.once,
      Production.mapReferencesList, Production.mapReferences]

/-- Rewriting references to plain symbols turns aliases into aliases and nothing else. -/
theorem Rule.aliasTarget?_mapReferences {f : String → Symbol} (hf : ∀ n, (f n).isGroup = false)
    (r : Rule) :
    (r.mapReferences f).aliasTarget? = r.aliasTarget?.map (Symbol.mapReferences f) := by
  ext t
  rw [aliasTarget?_eq_some_iff, groups_mapReferences_iff, Option.map_eq_some_iff]
  simp only [aliasTarget?_eq_some_iff]
  constructor
  · rintro ⟨⟨s, hg, rfl⟩, hs⟩
    exact ⟨s, ⟨hg, by rwa [Symbol.isGroup_mapReferences hf] at hs⟩, rfl⟩
  · rintro ⟨s, ⟨hg, hs⟩, rfl⟩
    exact ⟨⟨s, hg, rfl⟩, by rwa [Symbol.isGroup_mapReferences hf]⟩

end GrammarForge
