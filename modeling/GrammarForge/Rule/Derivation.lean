import GrammarForge.Rule.Dictionary

/-!
The texts that the rules of a dictionary derive. A group is the union of its alternatives, an
optional one may be left out, and a mark repeats what it stands behind.
-/

namespace GrammarForge

/-- One token of a derived text. A terminal and a literal of the same value differ. -/
inductive Letter where
  | terminal (value : String)
  | literal (value : String)
deriving DecidableEq, Repr

inductive Phrase where
  | symbol (s : Symbol)
  | component (c : Component)
  | sequence (p : Production)

/-- A phrase derives a text. A name that is no key derives nothing. -/
inductive Derives (d : Dictionary) : Phrase → List Letter → Prop where
  | terminal (v : String) : Derives d (.symbol (.terminal v)) [.terminal v]
  | literal (v : String) : Derives d (.symbol (.literal v)) [.literal v]
  | reference {n : String} {r : Rule} {g : Group} {w : List Letter} :
      d.get? n = some r → r.group? = some g → Derives d (.symbol (.group g)) w →
      Derives d (.symbol (.nonTerminal n)) w
  | omitted {g : Group} : g.optional = true → Derives d (.symbol (.group g)) []
  | alternative {g : Group} {p : Production} {w : List Letter} :
      p ∈ g.productions → Derives d (.sequence p) w → Derives d (.symbol (.group g)) w
  | once {s : Symbol} {w : List Letter} :
      Derives d (.symbol s) w → Derives d (.component ⟨s, .once⟩) w
  | none (s : Symbol) : Derives d (.component ⟨s, .star⟩) []
  | more {s : Symbol} {u v : List Letter} :
      Derives d (.symbol s) u → Derives d (.component ⟨s, .star⟩) v →
      Derives d (.component ⟨s, .star⟩) (u ++ v)
  | plus {s : Symbol} {u v : List Letter} :
      Derives d (.symbol s) u → Derives d (.component ⟨s, .star⟩) v →
      Derives d (.component ⟨s, .plus⟩) (u ++ v)
  | nil : Derives d (.sequence []) []
  | cons {c : Component} {p : Production} {u v : List Letter} :
      Derives d (.component c) u → Derives d (.sequence p) v →
      Derives d (.sequence (c :: p)) (u ++ v)

def Dictionary.derives (d : Dictionary) (name : String) (w : List Letter) : Prop :=
  Derives d (.symbol (.nonTerminal name)) w

namespace Derives

variable {d : Dictionary} {w : List Letter}

@[simp] theorem terminal_iff {v : String} :
    Derives d (.symbol (.terminal v)) w ↔ w = [.terminal v] := by
  constructor
  · intro h
    cases h
    rfl
  · rintro rfl
    exact .terminal v

@[simp] theorem literal_iff {v : String} :
    Derives d (.symbol (.literal v)) w ↔ w = [.literal v] := by
  constructor
  · intro h
    cases h
    rfl
  · rintro rfl
    exact .literal v

@[simp] theorem nil_iff : Derives d (.sequence []) w ↔ w = [] := by
  constructor
  · intro h
    cases h
    rfl
  · rintro rfl
    exact .nil

@[simp] theorem once_iff {s : Symbol} :
    Derives d (.component ⟨s, .once⟩) w ↔ Derives d (.symbol s) w := by
  constructor
  · intro h
    cases h with
    | once h => exact h
  · exact .once

theorem cons_iff {c : Component} {p : Production} :
    Derives d (.sequence (c :: p)) w ↔
      ∃ u v, w = u ++ v ∧ Derives d (.component c) u ∧ Derives d (.sequence p) v := by
  constructor
  · intro h
    cases h with
    | cons hu hv => exact ⟨_, _, rfl, hu, hv⟩
  · rintro ⟨u, v, rfl, hu, hv⟩
    exact .cons hu hv

theorem group_iff {g : Group} :
    Derives d (.symbol (.group g)) w ↔
      (g.optional = true ∧ w = []) ∨ ∃ p ∈ g.productions, Derives d (.sequence p) w := by
  constructor
  · intro h
    cases h with
    | omitted ho => exact .inl ⟨ho, rfl⟩
    | alternative hp h => exact .inr ⟨_, hp, h⟩
  · rintro (⟨ho, rfl⟩ | ⟨p, hp, h⟩)
    · exact .omitted ho
    · exact .alternative hp h

theorem plus_iff {s : Symbol} :
    Derives d (.component ⟨s, .plus⟩) w ↔
      ∃ u v, w = u ++ v ∧ Derives d (.symbol s) u ∧ Derives d (.component ⟨s, .star⟩) v := by
  constructor
  · intro h
    cases h with
    | plus hu hv => exact ⟨_, _, rfl, hu, hv⟩
  · rintro ⟨u, v, rfl, hu, hv⟩
    exact .plus hu hv

end Derives
end GrammarForge
