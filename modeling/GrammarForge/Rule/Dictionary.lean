import GrammarForge.Rule.Basic

/-!
Rules by key, in the order in which the keys were first inserted.
-/

namespace GrammarForge

structure Dictionary where
  entries : List (String × Rule)
  nodup_keys : (entries.map Prod.fst).Nodup

namespace Dictionary

def empty : Dictionary := ⟨[], List.Pairwise.nil⟩

def keys (d : Dictionary) : List String := d.entries.map Prod.fst

def rules (d : Dictionary) : List Rule := d.entries.map Prod.snd

def size (d : Dictionary) : Nat := d.entries.length

def get? (d : Dictionary) (key : String) : Option Rule := d.entries.lookup key

def contains (d : Dictionary) (key : String) : Bool := d.keys.contains key

/-- Replace the rule under a key in its place, or put a new key at the end. -/
def insertEntry (key : String) (r : Rule) : List (String × Rule) → List (String × Rule)
  | [] => [(key, r)]
  | (k, old) :: rest =>
    if k = key then (k, r) :: rest else (k, old) :: insertEntry key r rest

theorem mem_keys_insertEntry {key k : String} {r : Rule} {es : List (String × Rule)} :
    k ∈ (insertEntry key r es).map Prod.fst ↔ k = key ∨ k ∈ es.map Prod.fst := by
  induction es with
  | nil => simp [insertEntry]
  | cons e es ih =>
    obtain ⟨k', old⟩ := e
    by_cases h : k' = key
    · simp only [insertEntry, h, if_true, List.map_cons, List.mem_cons]
      constructor
      · exact Or.inr
      · rintro (rfl | h)
        · exact Or.inl rfl
        · exact h
    · simp only [insertEntry, h, if_false, List.map_cons, List.mem_cons, ih]
      constructor
      · rintro (h | h | h) <;> simp [h]
      · rintro (h | h | h) <;> simp [h]

theorem nodup_insertEntry {key : String} {r : Rule} {es : List (String × Rule)}
    (h : (es.map Prod.fst).Nodup) : ((insertEntry key r es).map Prod.fst).Nodup := by
  induction es with
  | nil => simp [insertEntry]
  | cons e es ih =>
    obtain ⟨k, old⟩ := e
    simp only [List.map_cons, List.nodup_cons] at h
    by_cases hk : k = key
    · simpa [insertEntry, hk] using ⟨by simpa [hk] using h.1, h.2⟩
    · simp only [insertEntry, hk, if_false, List.map_cons, List.nodup_cons]
      exact ⟨fun hm => (mem_keys_insertEntry.mp hm).elim hk h.1, ih h.2⟩

def insert (d : Dictionary) (key : String) (r : Rule) : Dictionary :=
  ⟨insertEntry key r d.entries, nodup_insertEntry d.nodup_keys⟩

def erase (d : Dictionary) (key : String) : Dictionary :=
  ⟨d.entries.filter fun e => e.1 != key,
    d.nodup_keys.sublist (List.filter_sublist.map Prod.fst)⟩

def mapRules (d : Dictionary) (f : Rule → Rule) : Dictionary :=
  ⟨d.entries.map fun e => (e.1, f e.2), by
    have h := d.nodup_keys
    simpa [Function.comp_def] using h⟩

/-- Insert the pairs from left to right. -/
def ofList (es : List (String × Rule)) : Dictionary :=
  es.foldl (fun d e => d.insert e.1 e.2) empty

/-- Equality without regard to order. -/
def equiv (d e : Dictionary) : Bool :=
  d.size == e.size && d.entries.all fun (k, r) => e.get? k == some r

@[simp] theorem keys_mapRules (d : Dictionary) (f : Rule → Rule) :
    (d.mapRules f).keys = d.keys := by
  simp [mapRules, keys, Function.comp_def]

@[simp] theorem rules_mapRules (d : Dictionary) (f : Rule → Rule) :
    (d.mapRules f).rules = d.rules.map f := by
  simp [mapRules, rules, Function.comp_def]

theorem contains_iff {d : Dictionary} {key : String} : d.contains key = true ↔ key ∈ d.keys := by
  simp [contains]

theorem lookup_cons (k k' : String) (r : Rule) (es : List (String × Rule)) :
    List.lookup k ((k', r) :: es) = if k = k' then some r else List.lookup k es := by
  rw [List.lookup_cons]
  by_cases h : k = k'
  · simp [h]
  · simp [h, beq_eq_false_iff_ne.mpr h]

theorem lookup_insertEntry (key k : String) (r : Rule) (es : List (String × Rule)) :
    (insertEntry key r es).lookup k = if k = key then some r else es.lookup k := by
  induction es with
  | nil => simp only [insertEntry, lookup_cons]
  | cons e es ih =>
    obtain ⟨k', old⟩ := e
    by_cases hk : k' = key
    · subst hk
      by_cases h : k = k' <;> simp [insertEntry, lookup_cons, h]
    · by_cases h : k = k'
      · subst h
        simp [insertEntry, hk]
      · simp [insertEntry, hk, lookup_cons, h, ih]

theorem get?_insert (d : Dictionary) (key k : String) (r : Rule) :
    (d.insert key r).get? k = if k = key then some r else d.get? k :=
  lookup_insertEntry key k r d.entries

theorem get?_erase (d : Dictionary) (key k : String) :
    (d.erase key).get? k = if k = key then none else d.get? k := by
  simp only [get?, erase]
  induction d.entries with
  | nil => simp
  | cons e es ih =>
    obtain ⟨k', old⟩ := e
    by_cases hk : k' = key
    · subst hk
      by_cases h : k = k'
      · simp [h] at ih ⊢
        exact ih
      · simpa [lookup_cons, h] using ih
    · by_cases h : k = k'
      · subst h
        simp [hk]
      · simpa [hk, lookup_cons, h] using ih

theorem get?_mapRules (d : Dictionary) (f : Rule → Rule) (k : String) :
    (d.mapRules f).get? k = (d.get? k).map f := by
  simp only [get?, mapRules]
  induction d.entries with
  | nil => rfl
  | cons e es ih =>
    obtain ⟨k', old⟩ := e
    by_cases h : k = k' <;> simp [lookup_cons, h, ih]

theorem insertEntry_eq_append {key : String} {r : Rule} {es : List (String × Rule)}
    (h : key ∉ es.map Prod.fst) : insertEntry key r es = es ++ [(key, r)] := by
  induction es with
  | nil => rfl
  | cons e es ih =>
    obtain ⟨k, old⟩ := e
    simp only [List.map_cons, List.mem_cons, not_or] at h
    simp [insertEntry, Ne.symm h.1, ih h.2]

theorem keys_insert {d : Dictionary} {key : String} (r : Rule) (h : d.contains key = false) :
    (d.insert key r).keys = d.keys ++ [key] := by
  have hk : key ∉ d.entries.map Prod.fst := by simpa [contains, keys] using h
  simp [keys, insert, insertEntry_eq_append hk]

def symbols (d : Dictionary) : List Symbol := d.rules.flatMap Rule.symbols

end Dictionary
end GrammarForge
