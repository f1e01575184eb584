import GrammarForge.Rule.Derivation

/-!
What a phrase derives, and how far it depends on the dictionary. Bodies may be exchanged for others
that derive the same texts, and rules that no reference leads to do not matter.
-/

namespace GrammarForge

theorem Symbol.withInner_group (g : Group) :
    (Symbol.group g).withInner = .group g :: Production.symbolsList g.productions := by
  cases g
  rfl

theorem Production.symbolsList_eq_flatMap (ps : List Production) :
    Production.symbolsList ps = ps.flatMap Production.symbols := by
  induction ps with
  | nil => rfl
  | cons p ps ih => simp [Production.symbolsList, ih]

theorem Production.symbols_cons (c : Component) (p : Production) :
    Production.symbols (c :: p) = c.symbol.withInner ++ Production.symbols p := by
  cases c
  rfl

theorem Rule.symbols_of_group? {r : Rule} {g : Group} (h : r.group? = some g) :
    r.symbols = Production.symbolsList g.productions := by
  obtain ⟨n, gs⟩ := r
  match gs, h with
  | [_], h =>
    cases h
    simp [Rule.symbols]

def Phrase.symbols : Phrase → List Symbol
  | .symbol s => s.withInner
  | .component c => c.symbol.withInner
  | .sequence p => Production.symbols p

/-- Every name referenced in the phrase is one of `S`. -/
def Phrase.Within (S : String → Prop) (φ : Phrase) : Prop :=
  ∀ n, Symbol.nonTerminal n ∈ φ.symbols → S n

/-- The rules for the names of `S` refer to names of `S` only. -/
def Dictionary.Confines (d : Dictionary) (S : String → Prop) : Prop :=
  ∀ {k r}, S k → d.get? k = some r → ∀ n, Symbol.nonTerminal n ∈ r.symbols → S n

/-- Every reference leads to a rule. -/
def Dictionary.Closed (d : Dictionary) : Prop :=
  ∀ n, Symbol.nonTerminal n ∈ d.symbols → n ∈ d.keys

instance (d : Dictionary) : Decidable d.Closed :=
  decidable_of_iff (∀ s ∈ d.symbols, ∀ n ∈ s.reference?, n ∈ d.keys) <| by
    refine ⟨fun h n hn => h _ hn n rfl, fun h s hs n hn => ?_⟩
    cases s with
    | nonTerminal m => exact Option.some.inj hn ▸ h m hs
    | _ => cases hn

namespace Derives

variable {d e : Dictionary} {φ : Phrase} {w : List Letter}

theorem reference_iff {n : String} :
    Derives d (.symbol (.nonTerminal n)) w ↔
      ∃ r g, d.get? n = some r ∧ r.group? = some g ∧ Derives d (.symbol (.group g)) w := by
  constructor
  · intro h
    cases h with
    | reference hr hg h => exact ⟨_, _, hr, hg, h⟩
  · rintro ⟨r, g, hr, hg, h⟩
    exact .reference hr hg h

@[simp] theorem component_once_iff {s : Symbol} :
    Derives d (.component (.once s)) w ↔ Derives d (.symbol s) w := once_iff

theorem singleton_iff {c : Component} :
    Derives d (.sequence [c]) w ↔ Derives d (.component c) w := by
  rw [cons_iff]
  constructor
  · rintro ⟨u, v, rfl, hu, hv⟩
    rw [nil_iff.mp hv, List.append_nil]
    exact hu
  · exact fun h => ⟨w, [], (List.append_nil w).symm, h, .nil⟩

theorem body_iff {k : String} {r : Rule} {ps : List Production} (hr : d.get? k = some r)
    (hg : r.groups = [Group.body ps]) :
    Derives d (.symbol (.nonTerminal k)) w ↔ ∃ p ∈ ps, Derives d (.sequence p) w := by
  have hbody : r.group? = some (Group.body ps) := by rw [Rule.group?, hg]
  rw [reference_iff]
  constructor
  · rintro ⟨r', g, hr', hg', hw⟩
    obtain rfl := Option.some.inj (hr.symm.trans hr')
    obtain rfl := Option.some.inj (hbody.symm.trans hg')
    simpa [group_iff, Group.body] using hw
  · rintro ⟨p, hp, hw⟩
    exact ⟨r, Group.body ps, hr, hbody, .alternative hp hw⟩

theorem star_induction {s : Symbol} {P : List Letter → Prop} (nil : P [])
    (more : ∀ {u v}, Derives d (.symbol s) u → P v → P (u ++ v))
    (h : Derives d (.component ⟨s, .star⟩) w) : P w := by
  generalize hφ : Phrase.component ⟨s, .star⟩ = φ at h
  induction h with
  | none t => exact nil
  | more hu hv _ ih =>
    cases hφ
    exact more hu (ih rfl)
  | _ => simp at hφ

theorem component_congr {s t : Symbol} {m : Repeat}
    (h : ∀ u, Derives d (.symbol s) u ↔ Derives d (.symbol t) u) :
    Derives d (.component ⟨s, m⟩) w ↔ Derives d (.component ⟨t, m⟩) w := by
  have star : ∀ {s t : Symbol}, (∀ u, Derives d (.symbol s) u → Derives d (.symbol t) u) → ∀ v,
      Derives d (.component ⟨s, .star⟩) v → Derives d (.component ⟨t, .star⟩) v :=
    fun h v hv => star_induction (.none _) (fun hu hv => .more (h _ hu) hv) hv
  cases m with
  | once => simpa using h w
  | star => exact ⟨star (fun u => (h u).mp) w, star (fun u => (h u).mpr) w⟩
  | plus =>
    simp only [plus_iff]
    constructor
    · rintro ⟨u, v, rfl, hu, hv⟩
      exact ⟨u, v, rfl, (h u).mp hu, star (fun u => (h u).mp) v hv⟩
    · rintro ⟨u, v, rfl, hu, hv⟩
      exact ⟨u, v, rfl, (h u).mpr hu, star (fun u => (h u).mpr) v hv⟩

/-- If every body of `d` derives in `e` only what its name derives in `e`, then `e` derives
whatever `d` does. -/
theorem of_bodies
    (bodies : ∀ {k r g v}, d.get? k = some r → r.group? = some g →
      Derives e (.symbol (.group g)) v → Derives e (.symbol (.nonTerminal k)) v)
    (h : Derives d φ w) : Derives e φ w := by
  induction h with
  | terminal v => exact .terminal v
  | literal v => exact .literal v
  | reference hr hg _ ih => exact bodies hr hg ih
  | omitted ho => exact .omitted ho
  | alternative hp _ ih => exact .alternative hp ih
  | once _ ih => exact .once ih
  | none s => exact .none s
  | more _ _ ihu ihv => exact .more ihu ihv
  | plus _ _ ihu ihv => exact .plus ihu ihv
  | nil => exact .nil
  | cons _ _ ihu ihv => exact .cons ihu ihv

/-- Rules outside a confined set of names do not matter for phrases within it. -/
theorem of_confined {S : String → Prop} (confined : d.Confines S)
    (agree : ∀ k, S k → e.get? k = d.get? k) (hφ : φ.Within S) (h : Derives d φ w) :
    Derives e φ w := by
  induction h with
  | terminal v => exact .terminal v
  | literal v => exact .literal v
  | @reference n r g w hr hg _ ih =>
    have hn : S n := hφ n (by simp [Phrase.symbols, Symbol.withInner])
    refine .reference (agree n hn ▸ hr) hg (ih fun k hk => confined hn hr k ?_)
    simpa [Phrase.symbols, Symbol.withInner_group, Rule.symbols_of_group? hg] using hk
  | omitted ho => exact .omitted ho
  | alternative hp _ ih =>
    refine .alternative hp (ih fun k hk => hφ k ?_)
    simp only [Phrase.symbols, Symbol.withInner_group, Production.symbolsList_eq_flatMap]
    exact List.mem_cons_of_mem _ (List.mem_flatMap.mpr ⟨_, hp, hk⟩)
  | once _ ih => exact .once (ih hφ)
  | none s => exact .none s
  | more _ _ ihu ihv => exact .more (ihu hφ) (ihv hφ)
  | plus _ _ ihu ihv => exact .plus (ihu hφ) (ihv hφ)
  | nil => exact .nil
  | @cons c p u v _ _ ihu ihv =>
    have hs : (Phrase.sequence (c :: p)).symbols = c.symbol.withInner ++ Production.symbols p :=
      Production.symbols_cons c p
    refine .cons (ihu fun k hk => hφ k ?_) (ihv fun k hk => hφ k ?_)
    · exact hs ▸ List.mem_append_left _ hk
    · exact hs ▸ List.mem_append_right _ hk

theorem confined_iff {S : String → Prop} (confined : d.Confines S)
    (agree : ∀ k, S k → e.get? k = d.get? k) (hφ : φ.Within S) :
    Derives d φ w ↔ Derives e φ w := by
  have back : e.Confines S := fun hk hr => confined hk (agree _ hk ▸ hr)
  exact ⟨of_confined confined agree hφ, of_confined back (fun k hk => (agree k hk).symm) hφ⟩

end Derives
end GrammarForge
