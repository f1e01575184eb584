import Mathlib.Data.List.Basic
import GrammarForge.Proofs.Language
import GrammarForge.Rule.Normal

/-!
A phrase and its flat form are interchangeable in every dictionary that holds the rules synthesized
for it.
-/

namespace GrammarForge

/-- The shortest repetition: one copy for a non-empty list, nothing for any other. -/
def Repeat.least (m : Repeat) (s : Symbol) : Production := if m = .plus then [.once s] else []

namespace Derives

variable {d : Dictionary} {s : Symbol} {m : Repeat} {w : List Letter}

theorem repeated_iff (hm : m ≠ .once) :
    Derives d (.component ⟨s, m⟩) w ↔ Derives d (.sequence (m.least s)) w ∨
      ∃ u v, w = u ++ v ∧ Derives d (.symbol s) u ∧ Derives d (.component ⟨s, m⟩) v := by
  cases m with
  | once => exact absurd rfl hm
  | star =>
    constructor
    · intro h
      cases h with
      | none => exact .inl .nil
      | more hu hv => exact .inr ⟨_, _, rfl, hu, hv⟩
    · rintro (h | ⟨u, v, rfl, hu, hv⟩)
      · rw [nil_iff.mp h]
        exact .none s
      · exact .more hu hv
  | plus =>
    constructor
    · intro h
      cases h with
      | @plus _ u v hu hv =>
        cases hv with
        | none => exact .inl (by simpa [Repeat.least, singleton_iff] using hu)
        | more hu' hv => exact .inr ⟨_, _, rfl, hu, .plus hu' hv⟩
    · rintro (h | ⟨u, v, rfl, hu, hv⟩)
      · have hw : Derives d (.symbol s) w := by simpa [Repeat.least, singleton_iff] using h
        simpa using Derives.plus hw (.none s)
      · obtain ⟨u', v', rfl, hu', hv'⟩ := plus_iff.mp hv
        exact .plus hu (.more hu' hv')

theorem repeated_induction {P : List Letter → Prop} (hm : m ≠ .once)
    (least : ∀ {u}, Derives d (.sequence (m.least s)) u → P u)
    (more : ∀ {u v}, Derives d (.symbol s) u → P v → P (u ++ v))
    (h : Derives d (.component ⟨s, m⟩) w) : P w := by
  cases m with
  | once => exact absurd rfl hm
  | star => exact star_induction (least .nil) more h
  | plus =>
    obtain ⟨u, v, rfl, hu, hv⟩ := plus_iff.mp h
    have first : ∀ {u}, Derives d (.symbol s) u → P u := fun hu =>
      least (by simpa [Repeat.least, singleton_iff] using hu)
    -- The first copy varies along the induction, since it is the copy in front of the list.
    have all : ∀ u, Derives d (.symbol s) u → P (u ++ v) :=
      star_induction (P := fun v => ∀ u, Derives d (.symbol s) u → P (u ++ v))
        (fun u hu => by simpa using first hu) (fun hu' ih u hu => more hu (ih _ hu')) hv
    exact all u hu

theorem listBody_iff {name : String} :
    (∃ p ∈ [m.least s, [.once s, .once (.nonTerminal name)]], Derives d (.sequence p) w) ↔
      Derives d (.sequence (m.least s)) w ∨
        ∃ u v, w = u ++ v ∧ Derives d (.symbol s) u ∧ Derives d (.symbol (.nonTerminal name)) v := by
  simp [cons_iff (p := [.once (.nonTerminal name)]), singleton_iff]

theorem listRule_of_repeated {name : String} (hm : m ≠ .once)
    (h : d.get? name = some (listRule name m s)) (hw : Derives d (.component ⟨s, m⟩) w) :
    Derives d (.symbol (.nonTerminal name)) w := by
  have step : ∀ {v}, Derives d (.sequence (m.least s)) v ∨ (∃ u v', v = u ++ v' ∧
      Derives d (.symbol s) u ∧ Derives d (.symbol (.nonTerminal name)) v') →
      Derives d (.symbol (.nonTerminal name)) v :=
    fun hv => (body_iff h rfl).mpr (listBody_iff.mpr hv)
  exact repeated_induction hm (fun hu => step (.inl hu))
    (fun hu hv => step (.inr ⟨_, _, rfl, hu, hv⟩)) hw

/-- The rule synthesized for a repetition derives the repetition. -/
theorem listRule_iff {name : String} (hm : m ≠ .once)
    (h : d.get? name = some (listRule name m s)) :
    Derives d (.symbol (.nonTerminal name)) w ↔ Derives d (.component ⟨s, m⟩) w := by
  refine ⟨fun hw => ?_, listRule_of_repeated hm h⟩
  -- With the repetition itself as the body of the name, nothing refers to the name from its body.
  let e := d.insert name (.ofBody name [[⟨s, m⟩]])
  have hself : e.get? name = some (.ofBody name [[⟨s, m⟩]]) := by simp [e, Dictionary.get?_insert]
  have hother : ∀ {k}, k ≠ name → e.get? k = d.get? k := fun hk => by
    simp [e, Dictionary.get?_insert, hk]
  have hname : ∀ {v}, Derives e (.symbol (.nonTerminal name)) v ↔
      Derives e (.component ⟨s, m⟩) v := by
    intro v
    simp [body_iff hself rfl, singleton_iff]
  have forth : Derives e (.symbol (.nonTerminal name)) w := by
    refine of_bodies (fun {k r g v} hr hg hv => ?_) hw
    by_cases hk : k = name
    · subst hk
      obtain rfl := Option.some.inj (h.symm.trans hr)
      obtain rfl := Option.some.inj hg
      have hv := (group_iff.mp hv).resolve_left (by simp [Group.body])
      rw [hname, repeated_iff hm]
      simpa only [hname] using listBody_iff.mp hv
    · exact .reference (hother hk ▸ hr) hg hv
  refine of_bodies (fun {k r g v} hr hg hv => ?_) (hname.mp forth)
  by_cases hk : k = name
  · subst hk
    obtain rfl := Option.some.inj (hself.symm.trans hr)
    obtain rfl := Option.some.inj hg
    have hv := (group_iff.mp hv).resolve_left (by simp [Group.body])
    exact listRule_of_repeated hm h (by simpa [Group.body, singleton_iff] using hv)
  · exact .reference (hother hk ▸ hr) hg hv

end Derives

def Dictionary.Defines (d : Dictionary) (rs : List Rule) : Prop :=
  ∀ r ∈ rs, d.get? r.name = some r

theorem Dictionary.defines_cons {d : Dictionary} {r : Rule} {rs : List Rule} :
    d.Defines (r :: rs) ↔ d.get? r.name = some r ∧ d.Defines rs := List.forall_mem_cons

theorem Dictionary.defines_append {d : Dictionary} {rs rs' : List Rule} :
    d.Defines (rs ++ rs') ↔ d.Defines rs ∧ d.Defines rs' := List.forall_mem_append

section Interchange

variable {d : Dictionary}

mutual

/-- A symbol and its flat form derive the same texts where the synthesized rules are defined. -/
theorem Symbol.derives_flatten (owner : String) (position counter : Nat) (s : Symbol)
    (hd : d.Defines (s.flatten owner position counter).rules) (w : List Letter) :
    Derives d (.symbol (s.flatten owner position counter).value) w ↔ Derives d (.symbol s) w := by
  match s with
  | .terminal v => exact Iff.rfl
  | .literal v => exact Iff.rfl
  | .nonTerminal n => exact Iff.rfl
  | .group ⟨o, i, ps⟩ =>
    simp only [Symbol.flatten, Dictionary.defines_cons] at hd ⊢
    have inner := Production.derives_flattenList _ 0 1 (counter + 1) ps hd.2 w
    rw [groupRule, Rule.ofBody] at hd
    rw [Derives.body_iff hd.1 rfl, Derives.group_iff, ← inner]
    cases o <;> simp
termination_by structural s

theorem Production.derives_flattenList (owner : String) (stride position counter : Nat)
    (ps : List Production)
    (hd : d.Defines (Production.flattenList owner stride position counter ps).rules)
    (w : List Letter) :
    (∃ p ∈ (Production.flattenList owner stride position counter ps).value,
      Derives d (.sequence p) w) ↔ ∃ p ∈ ps, Derives d (.sequence p) w := by
  match ps with
  | [] => exact Iff.rfl
  | p :: ps =>
    simp only [Production.flattenList, Dictionary.defines_append] at hd ⊢
    have first := Production.derives_flatten owner position counter p hd.1 w
    have rest := Production.derives_flattenList owner stride (position + stride) _ ps hd.2 w
    simp only [List.exists_mem_cons_iff, first, rest]
termination_by structural ps

theorem Production.derives_flatten (owner : String) (position counter : Nat) (p : Production)
    (hd : d.Defines (Production.flatten owner position counter p).rules) (w : List Letter) :
    Derives d (.sequence (Production.flatten owner position counter p).value) w ↔
      Derives d (.sequence p) w := by
  match p with
  | [] => exact Iff.rfl
  | ⟨s, m⟩ :: p =>
    by_cases hm : m = .once
    · subst hm
      simp only [Production.flatten, if_true, Dictionary.defines_append] at hd ⊢
      have first := Symbol.derives_flatten owner position counter s hd.1
      have rest := Production.derives_flatten owner _ _ p hd.2
      simp only [Derives.cons_iff, Derives.component_once_iff, Derives.once_iff, first, rest]
    · simp only [Production.flatten, hm, if_false, Dictionary.defines_cons,
        Dictionary.defines_append] at hd ⊢
      have element := Symbol.derives_flatten _ 1 (counter + 1) s hd.2.1
      have list : ∀ u, Derives d (.symbol (.nonTerminal (Origin.list.name owner position counter))) u ↔
          Derives d (.component ⟨s, m⟩) u :=
        fun u => (Derives.listRule_iff hm hd.1).trans (Derives.component_congr element)
      have rest := Production.derives_flatten owner _ _ p hd.2.2
      simp only [Derives.cons_iff, Derives.component_once_iff, list, rest]
termination_by structural p

end

end Interchange

end GrammarForge
