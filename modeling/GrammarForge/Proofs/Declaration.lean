import GrammarForge.Rule.Reader

/-!
Dictionaries in which every rule stands under its own name. Declaring rules one after the other
succeeds exactly when no name comes twice, and puts them at the end in their order.
-/

namespace GrammarForge
namespace Dictionary

variable {d d' : Dictionary} {k : String} {r : Rule}

theorem ext_entries (h : d.entries = d'.entries) : d = d' := by
  cases d
  cases d'
  subst h
  rfl

theorem get?_eq_some_iff : d.get? k = some r ↔ (k, r) ∈ d.entries := by
  have hn := d.nodup_keys
  simp only [get?]
  generalize d.entries = es at hn ⊢
  induction es with
  | nil => simp
  | cons e es ih =>
    obtain ⟨k', old⟩ := e
    simp only [List.map_cons, List.nodup_cons] at hn
    rw [lookup_cons, List.mem_cons]
    by_cases hk : k = k'
    · subst hk
      have hes : (k, r) ∉ es := fun hm => hn.1 (List.mem_map_of_mem hm)
      simp [hes, eq_comm]
    · simp [hk, ih hn.2]

theorem mem_keys_iff : k ∈ d.keys ↔ ∃ r, d.get? k = some r := by
  simp [keys, get?_eq_some_iff]

theorem mem_rules_iff : r ∈ d.rules ↔ ∃ k, d.get? k = some r := by
  simp [rules, get?_eq_some_iff]

theorem get?_eq_none_iff : d.get? k = none ↔ k ∉ d.keys := by
  rw [mem_keys_iff, Option.eq_none_iff_forall_ne_some, not_exists]

/-- Every rule stands under its own name. -/
def Named (d : Dictionary) : Prop := ∀ e ∈ d.entries, e.1 = e.2.name

instance (d : Dictionary) : Decidable d.Named :=
  inferInstanceAs (Decidable (∀ e ∈ d.entries, e.1 = e.2.name))

namespace Named

theorem name_eq (hd : d.Named) (h : d.get? k = some r) : r.name = k :=
  (hd _ (get?_eq_some_iff.mp h)).symm

theorem entries_eq (hd : d.Named) : d.entries = d.rules.map fun r => (r.name, r) := by
  rw [rules, List.map_map]
  refine ((List.map_congr_left fun e he => ?_).trans (List.map_id _)).symm
  exact Prod.ext (hd e he).symm rfl

theorem keys_eq (hd : d.Named) : d.keys = d.rules.map Rule.name := by
  simp only [keys, rules, List.map_map]
  exact List.map_congr_left hd

end Named

theorem named_of_entries {rs : List Rule} (h : d.entries = rs.map fun r => (r.name, r)) :
    d.Named := by
  intro e he
  rw [h] at he
  obtain ⟨r, -, rfl⟩ := List.mem_map.mp he
  rfl

theorem rules_of_entries {rs : List Rule} (h : d.entries = rs.map fun r => (r.name, r)) :
    d.rules = rs := by
  simp [rules, h, Function.comp_def]

theorem keys_of_entries {rs : List Rule} (h : d.entries = rs.map fun r => (r.name, r)) :
    d.keys = rs.map Rule.name := by
  simp [keys, h, Function.comp_def]

theorem declare_eq_ok_iff :
    d.declare r = .ok d' ↔ r.name ∉ d.keys ∧ d'.entries = d.entries ++ [(r.name, r)] := by
  unfold declare
  by_cases h : r.name ∈ d.keys
  · simp [contains_iff.mpr h, h]
  · have hi : (d.insert r.name r).entries = d.entries ++ [(r.name, r)] := insertEntry_eq_append h
    rw [if_neg fun hc => h (contains_iff.mp hc)]
    constructor
    · intro he
      cases he
      exact ⟨h, hi⟩
    · rintro ⟨-, he⟩
      exact congrArg Except.ok (ext_entries (hi.trans he.symm))

theorem declareAll_cons_eq_ok_iff {rs : List Rule} : d.declareAll (r :: rs) = .ok d' ↔
    ∃ d₁, d.declare r = .ok d₁ ∧ d₁.declareAll rs = .ok d' := by
  simp only [declareAll, List.foldlM_cons]
  cases d.declare r <;> simp [bind, Except.bind]

/-- Rules can be declared together exactly when their names are new and differ from each other. -/
theorem declareAll_eq_ok_iff {rs : List Rule} :
    d.declareAll rs = .ok d' ↔
      (d.keys ++ rs.map Rule.name).Nodup ∧ d'.entries = d.entries ++ rs.map fun r => (r.name, r) := by
  induction rs generalizing d with
  | nil =>
    have hd : d.keys.Nodup := d.nodup_keys
    simp only [declareAll, List.foldlM_nil, List.map_nil, List.append_nil, hd, true_and]
    constructor
    · intro h
      cases h
      rfl
    · exact fun h => congrArg Except.ok (ext_entries h.symm)
  | cons r rs ih =>
    have hsplit : (d.keys ++ (r :: rs).map Rule.name).Nodup ↔
        r.name ∉ d.keys ∧ (d.keys ++ [r.name] ++ rs.map Rule.name).Nodup := by
      rw [List.map_cons, List.append_assoc, List.singleton_append]
      refine ⟨fun h => ⟨fun hm => ?_, h⟩, And.right⟩
      exact (List.nodup_append.mp h).2.2 _ hm _ List.mem_cons_self rfl
    rw [declareAll_cons_eq_ok_iff, hsplit]
    constructor
    · rintro ⟨d₁, h₁, h₂⟩
      obtain ⟨hnew, he⟩ := declare_eq_ok_iff.mp h₁
      obtain ⟨hnodup, hd'⟩ := ih.mp h₂
      have hk : d₁.keys = d.keys ++ [r.name] := by simp [keys, he]
      refine ⟨⟨hnew, hk ▸ hnodup⟩, ?_⟩
      rw [hd', he]
      simp
    · rintro ⟨⟨hnew, hnodup⟩, hd'⟩
      have h₁ : d.declare r = .ok (d.insert r.name r) := by
        rw [declare, if_neg fun hc => hnew (contains_iff.mp hc)]
      obtain ⟨-, he⟩ := declare_eq_ok_iff.mp h₁
      have hk : (d.insert r.name r).keys = d.keys ++ [r.name] := by simp [keys, he]
      refine ⟨_, h₁, ih.mpr ⟨hk ▸ hnodup, ?_⟩⟩
      rw [hd', he]
      simp

end Dictionary
end GrammarForge
