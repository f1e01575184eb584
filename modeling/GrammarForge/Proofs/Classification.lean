import Mathlib.Data.List.Sort
import GrammarForge.Proofs.DistinctNames

/-!
Terminals parted into tokens. One pass over the terminals names each of them and gathers the names
by category. What it comes to can be told from the terminals alone: which words and operators there
are, which of them carry a text, and how many terminals are left to be numbered.
-/

namespace GrammarForge

open Text

section Sorting

variable {α : Type} (key : α → String) {xs ys : List α}

/-- A strictly increasing list is told by its members. -/
theorem Text.Increasing.eq_of_mem_iff {key : α → String} (hx : Increasing key xs)
    (hy : Increasing key ys) (h : ∀ x, x ∈ xs ↔ x ∈ ys) : xs = ys := by
  have : Std.Irrefl fun x y => Text.le (key x) (key y) = true ∧ key x ≠ key y :=
    ⟨fun _ hself => hself.2 rfl⟩
  have : Std.Antisymm fun x y => Text.le (key x) (key y) = true ∧ key x ≠ key y :=
    ⟨fun _ _ hxy hyx => absurd (le_antisymm hxy.1 hyx.1) hxy.2⟩
  exact List.Pairwise.eq_of_mem_iff hx hy h

theorem Text.increasing_mergeSort (h : (xs.map key).Nodup) :
    Increasing key (xs.mergeSort fun x y => Text.le (key x) (key y)) := by
  have hperm := List.mergeSort_perm xs fun x y => Text.le (key x) (key y)
  have hsorted : (xs.mergeSort fun x y => Text.le (key x) (key y)).Pairwise
      fun x y => Text.le (key x) (key y) = true :=
    List.pairwise_mergeSort (fun x y z => @Text.le_trans (key x) (key y) (key z))
      (fun x y => Text.le_total (key x) (key y)) xs
  exact hsorted.and (List.pairwise_map.mp ((hperm.map key).nodup_iff.mpr h))

theorem Text.mem_of_mem_insertNew {key : α → String} {x y : α} (h : y ∈ insertNew key x xs) :
    y = x ∨ y ∈ xs := by
  induction xs with
  | nil => simpa [insertNew] using h
  | cons z zs ih =>
    unfold insertNew at h
    split at h
    · exact .inr h
    · split at h
      · simpa using h
      · rcases List.mem_cons.mp h with rfl | h
        · exact .inr List.mem_cons_self
        · exact (ih h).imp_right (List.mem_cons_of_mem z)

theorem Text.mem_of_mem_sortedBy {key : α → String} {x : α} (h : x ∈ sortedBy key xs) : x ∈ xs := by
  induction xs with
  | nil => exact h
  | cons y ys ih =>
    rcases mem_of_mem_insertNew h with rfl | h
    · exact List.mem_cons_self
    · exact List.mem_cons_of_mem y (ih h)

end Sorting

theorem Token.Kind.payload_eq_some_iff {name type : String} :
    (ofLabel? name).bind payloadType? = some type ↔
      name ∈ ["NAME", "NUMBER", "STRING"] ∧ type = "string" := by
  constructor
  · intro h
    obtain ⟨k, hk, htype⟩ := Option.bind_eq_some_iff.mp h
    obtain rfl := label_of_ofLabel? hk
    cases k with
    | name | number | string => exact ⟨by decide, (Option.some.inj htype).symm⟩
    | _ => cases htype
  · rintro ⟨hname, rfl⟩
    simp only [List.mem_cons, List.not_mem_nil, or_false] at hname
    rcases hname with rfl | rfl | rfl <;> decide

theorem Token.Operator.ofSpelling?_eq_some_iff {value : String} {o : Operator} :
    ofSpelling? value = some o ↔ o.spelling = value :=
  ⟨spelling_of_ofSpelling?, fun h => h ▸ ofSpelling?_spelling o⟩

namespace Naming

open Token (Kind Operator)

variable {value name type : String}

theorem ofTerminal_eq_typed_iff : ofTerminal value = .typed name type ↔
    isIdentifier value = true ∧ upper value = name ∧
      name ∈ ["NAME", "NUMBER", "STRING"] ∧ type = "string" := by
  rw [← Kind.payload_eq_some_iff]
  cases hword : isIdentifier value with
  | true =>
    obtain ⟨hnone, hnamed⟩ | ⟨found, hpayload, htyped⟩ := ofTerminal_word hword
    · rw [hnamed]
      refine ⟨nofun, ?_⟩
      rintro ⟨-, rfl, hsome⟩
      cases hnone.symm.trans hsome
    · rw [htyped, typed.injEq]
      constructor
      · rintro ⟨rfl, rfl⟩
        exact ⟨rfl, rfl, hpayload⟩
      · rintro ⟨-, rfl, hsome⟩
        exact ⟨rfl, Option.some.inj (hpayload.symm.trans hsome)⟩
  | false =>
    obtain ⟨o, -, hnamed⟩ | ⟨-, hnameless⟩ := ofTerminal_other hword
    · simp [hnamed]
    · simp [hnameless]

theorem ofTerminal_eq_named_iff : ofTerminal value = .named name ↔
    isIdentifier value = true ∧ upper value = name ∧ name ∉ ["NAME", "NUMBER", "STRING"] ∨
      isIdentifier value = false ∧ ∃ o : Operator, o.spelling = value ∧ o.name = name := by
  cases hword : isIdentifier value with
  | true =>
    have hplain : name ∉ ["NAME", "NUMBER", "STRING"] ↔
        (Kind.ofLabel? name).bind Kind.payloadType? = none := by
      rw [Option.eq_none_iff_forall_ne_some]
      simp only [ne_eq, Kind.payload_eq_some_iff]
      exact ⟨fun h _ hsome => h hsome.1, fun h hname => h "string" ⟨hname, rfl⟩⟩
    rw [hplain]
    obtain ⟨hnone, hnamed⟩ | ⟨found, hpayload, htyped⟩ := ofTerminal_word hword
    · rw [hnamed, named.injEq]
      constructor
      · rintro rfl
        exact .inl ⟨rfl, rfl, hnone⟩
      · rintro (⟨-, hname, -⟩ | ⟨hfalse, -⟩)
        · exact hname
        · cases hfalse
    · rw [htyped]
      refine ⟨nofun, ?_⟩
      rintro (⟨-, rfl, hnone⟩ | ⟨hfalse, -⟩)
      · cases hnone.symm.trans hpayload
      · cases hfalse
  | false =>
    simp only [← Operator.ofSpelling?_eq_some_iff]
    obtain ⟨o, ho, hnamed⟩ | ⟨hnone, hnameless⟩ := ofTerminal_other hword
    · simp [hnamed, ho]
    · simp [hnameless, hnone]

theorem ofTerminal_eq_nameless_iff : ofTerminal value = .nameless ↔
    isIdentifier value = false ∧ Operator.ofSpelling? value = none := by
  cases hword : isIdentifier value with
  | true =>
    obtain ⟨-, hnamed⟩ | ⟨type, -, htyped⟩ := ofTerminal_word hword
    · simp [hnamed]
    · simp [htyped]
  | false =>
    obtain ⟨o, ho, hnamed⟩ | ⟨hnone, hnameless⟩ := ofTerminal_other hword
    · simp [hnamed, ho]
    · simp [hnameless, hnone]

theorem type_unique {value' type' : String} (h : ofTerminal value = .typed name type)
    (h' : ofTerminal value' = .typed name type') : type = type' :=
  Option.some.inj ((payload_of_typed h).symm.trans (payload_of_typed h'))

end Naming

/-- Add an item at the end, unless there is one with its key. -/
def Text.pushNew {α : Type} (key : α → String) (x : α) (xs : List α) : List α :=
  if key x ∈ xs.map key then xs else xs ++ [x]

section PushNew

variable {α : Type} (key : α → String) {x y : α} {xs : List α}

theorem Text.nodup_pushNew (h : (xs.map key).Nodup) : ((pushNew key x xs).map key).Nodup := by
  unfold pushNew
  split
  · exact h
  · rename_i hnew
    rw [List.map_append, List.map_singleton]
    simpa using h.concat hnew

theorem Text.mem_pushNew (hkey : ∀ y ∈ xs, key y = key x → y = x) :
    y ∈ pushNew key x xs ↔ y ∈ xs ∨ y = x := by
  unfold pushNew
  split
  · rename_i hold
    obtain ⟨z, hz, heq⟩ := List.mem_map.mp hold
    refine ⟨.inl, ?_⟩
    rintro (hy | rfl)
    · exact hy
    · exact hkey z hz heq ▸ hz
  · simp

end PushNew

/-- What the terminals read so far have come to: their names, and the tokens in the order of their
discovery. -/
structure Classification where
  names : List (String × String)
  tokens : Vocabulary
deriving DecidableEq, Repr

namespace Classification

def start : Classification := ⟨[], ⟨[], [], []⟩⟩

def step (c : Classification) (value : String) : Classification :=
  match Naming.ofTerminal value with
  | .named name =>
    ⟨c.names ++ [(value, name)], { c.tokens with named := pushNew id name c.tokens.named }⟩
  | .typed name type =>
    ⟨c.names ++ [(value, name)],
      { c.tokens with typed := pushNew Prod.fst (name, type) c.tokens.typed }⟩
  | .nameless =>
    let name := namelessName (c.tokens.nameless.length + 1)
    ⟨c.names ++ [(value, name)], { c.tokens with nameless := c.tokens.nameless ++ [name] }⟩

/-- Sort the names that are not numbered. No two pairs have the same name, so types never decide. -/
def sorted (c : Classification) : Classification where
  names := c.names
  tokens :=
    { c.tokens with
      named := c.tokens.named.mergeSort Text.le
      typed := c.tokens.typed.mergeSort fun p q => Text.le p.1 q.1 }

def ofTerminals (values : List String) : Classification := (values.foldl step start).sorted

end Classification

section NameTerminals

variable {values : List String} {value : String}

theorem nameTerminals_append (count : Nat) (values others : List String) :
    nameTerminals count (values ++ others) = nameTerminals count values ++
      nameTerminals (count + values.countP fun v => Naming.ofTerminal v = .nameless) others := by
  induction values generalizing count with
  | nil => rfl
  | cons value values ih =>
    rw [List.cons_append, nameTerminals, nameTerminals, List.countP_cons]
    split
    · rename_i h
      simp [h, ih]
    · rename_i h
      simp [h, ih]
    · rename_i h
      simp [h, ih, Nat.add_assoc, Nat.add_comm 1]

theorem map_fst_nameTerminals (count : Nat) (values : List String) :
    (nameTerminals count values).map Prod.fst = values := by
  induction values generalizing count with
  | nil => rfl
  | cons value values ih =>
    unfold nameTerminals
    split <;> simp [ih]

end NameTerminals

theorem Vocabulary.mem_typed_pair_iff {values : List String} {name type : String} :
    (name, type) ∈ (ofTerminals values).typed ↔
      ∃ v ∈ values, Naming.ofTerminal v = .typed name type := by
  have htype : ∀ n : Naming, ∀ found, n.typed? = some (name, found) ↔ n = .typed name found := by
    intro n found
    cases n <;> simp [Naming.typed?]
  have hsource : ∀ {found}, (name, found) ∈ (ofTerminals values).typed →
      ∃ v ∈ values, Naming.ofTerminal v = .typed name found := by
    intro found hmem
    obtain ⟨v, hv, htyped⟩ := List.mem_filterMap.mp (mem_of_mem_sortedBy hmem)
    exact ⟨v, hv, (htype _ found).mp htyped⟩
  refine ⟨hsource, ?_⟩
  rintro ⟨v, hv, htyped⟩
  obtain ⟨⟨_, found⟩, hmem, rfl⟩ := List.mem_map.mp (mem_typed_iff.mpr ⟨v, hv, type, htyped⟩)
  obtain ⟨w, -, htyped'⟩ := hsource hmem
  exact Naming.type_unique htyped htyped' ▸ hmem

namespace Classification

/-- What a pass knows after some terminals. -/
structure Gathers (values : List String) (c : Classification) : Prop where
  names : c.names = nameTerminals 0 values
  nodup_named : c.tokens.named.Nodup
  mem_named : ∀ name, name ∈ c.tokens.named ↔ ∃ v ∈ values, Naming.ofTerminal v = .named name
  nameless : c.tokens.nameless = (Vocabulary.ofTerminals values).nameless
  nodup_typed : (c.tokens.typed.map Prod.fst).Nodup
  mem_typed : ∀ name type, (name, type) ∈ c.tokens.typed ↔
    ∃ v ∈ values, Naming.ofTerminal v = .typed name type

variable {values : List String} {c : Classification}

theorem Gathers.start : Gathers [] start where
  names := rfl
  nodup_named := List.nodup_nil
  mem_named := by simp [Classification.start]
  nameless := rfl
  nodup_typed := List.nodup_nil
  mem_typed := by simp [Classification.start]

section Step

variable {value name type : String}

theorem step_named (h : Naming.ofTerminal value = .named name) :
    c.step value = ⟨c.names ++ [(value, name)],
      ⟨pushNew id name c.tokens.named, c.tokens.nameless, c.tokens.typed⟩⟩ := by
  rw [step, h]

theorem step_typed (h : Naming.ofTerminal value = .typed name type) :
    c.step value = ⟨c.names ++ [(value, name)],
      ⟨c.tokens.named, c.tokens.nameless, pushNew Prod.fst (name, type) c.tokens.typed⟩⟩ := by
  rw [step, h]

theorem step_nameless (h : Naming.ofTerminal value = .nameless) :
    c.step value = ⟨c.names ++ [(value, namelessName (c.tokens.nameless.length + 1))],
      ⟨c.tokens.named, c.tokens.nameless ++ [namelessName (c.tokens.nameless.length + 1)],
        c.tokens.typed⟩⟩ := by
  rw [step, h]

end Step

theorem exists_mem_concat {values : List String} {value : String} {P : String → Prop} :
    (∃ v ∈ values ++ [value], P v) ↔ (∃ v ∈ values, P v) ∨ P value := by
  simp [or_and_right, exists_or]

theorem nameless_concat (values : List String) (value : String) :
    (Vocabulary.ofTerminals (values ++ [value])).nameless =
      (Vocabulary.ofTerminals values).nameless ++ if Naming.ofTerminal value = .nameless then
        [namelessName ((Vocabulary.ofTerminals values).nameless.length + 1)] else [] := by
  by_cases h : Naming.ofTerminal value = .nameless
  · simp [Vocabulary.ofTerminals, h, List.range_succ]
  · simp [Vocabulary.ofTerminals, h]

theorem Gathers.step (h : Gathers values c) (value : String) :
    Gathers (values ++ [value]) (c.step value) := by
  have hnameless := nameless_concat values value
  cases hvalue : Naming.ofTerminal value with
  | named name =>
    rw [hvalue, if_neg nofun, List.append_nil] at hnameless
    rw [step_named hvalue]
    refine ⟨?_, ?_, fun other => ?_, h.nameless.trans hnameless.symm, h.nodup_typed,
      fun other type => ?_⟩
    · rw [nameTerminals_append]
      simp [h.names, nameTerminals, hvalue]
    · simpa using Text.nodup_pushNew id (by simpa using h.nodup_named)
    · rw [Text.mem_pushNew id fun _ _ => id, exists_mem_concat, h.mem_named, hvalue,
        Naming.named.injEq, eq_comm (a := other)]
    · rw [exists_mem_concat, h.mem_typed, hvalue]
      simp
  | typed name type =>
    rw [hvalue, if_neg nofun, List.append_nil] at hnameless
    rw [step_typed hvalue]
    refine ⟨?_, h.nodup_named, fun other => ?_, h.nameless.trans hnameless.symm,
      Text.nodup_pushNew Prod.fst h.nodup_typed, fun other found => ?_⟩
    · rw [nameTerminals_append]
      simp [h.names, nameTerminals, hvalue]
    · rw [exists_mem_concat, h.mem_named, hvalue]
      simp
    · have hkey : ∀ p ∈ c.tokens.typed, p.1 = name → p = (name, type) := by
        rintro ⟨_, found⟩ hmem rfl
        obtain ⟨w, -, htyped⟩ := (h.mem_typed _ _).mp hmem
        exact Prod.ext rfl (Naming.type_unique htyped hvalue)
      rw [Text.mem_pushNew Prod.fst hkey, exists_mem_concat, h.mem_typed, hvalue,
        Naming.typed.injEq, Prod.mk.injEq, eq_comm (a := other), eq_comm (a := found)]
  | nameless =>
    rw [hvalue, if_pos rfl] at hnameless
    rw [step_nameless hvalue]
    refine ⟨?_, h.nodup_named, fun other => ?_, ?_, h.nodup_typed, fun other type => ?_⟩
    · have hcount : c.tokens.nameless.length =
          values.countP fun v => Naming.ofTerminal v = .nameless := by
        simp [h.nameless, Vocabulary.ofTerminals]
      rw [nameTerminals_append, hcount]
      simp [h.names, nameTerminals, hvalue]
    · rw [exists_mem_concat, h.mem_named, hvalue]
      simp
    · rw [hnameless, ← h.nameless]
    · rw [exists_mem_concat, h.mem_typed, hvalue]
      simp

theorem Gathers.foldl (h : Gathers values c) (others : List String) :
    Gathers (values ++ others) (others.foldl Classification.step c) := by
  induction others generalizing values c with
  | nil => simpa using h
  | cons value others ih => simpa using ih (h.step value)

/-- The pass and the vocabulary come to the same. -/
theorem ofTerminals_eq (values : List String) :
    ofTerminals values = ⟨nameTerminals 0 values, .ofTerminals values⟩ := by
  have h : Gathers values (values.foldl step .start) := by
    simpa using Gathers.start.foldl values
  have hnamed : (values.foldl step .start).tokens.named.mergeSort Text.le =
      (Vocabulary.ofTerminals values).named := by
    refine (Text.increasing_mergeSort id (by simpa using h.nodup_named)).eq_of_mem_iff
      (Text.increasing_sortedBy id _) fun name => ?_
    rw [List.mem_mergeSort, h.mem_named]
    exact Vocabulary.mem_named_iff.symm
  have htyped : (values.foldl step .start).tokens.typed.mergeSort (fun p q => Text.le p.1 q.1) =
      (Vocabulary.ofTerminals values).typed := by
    refine (Text.increasing_mergeSort Prod.fst h.nodup_typed).eq_of_mem_iff
      (Text.increasing_sortedBy Prod.fst _) ?_
    rintro ⟨name, type⟩
    rw [List.mem_mergeSort, h.mem_typed]
    exact Vocabulary.mem_typed_pair_iff.symm
  have hnameless := h.nameless
  unfold ofTerminals sorted
  rw [hnamed, htyped, h.names]
  dsimp only
  rw [hnameless]

end Classification

namespace Naming

variable {value name name' : String}

theorem Owns.unique (h : Owns value name) (h' : Owns value name') : name = name' := by
  rcases h with h | ⟨type, h⟩ <;> rcases h' with h' | ⟨type', h'⟩ <;> cases h.symm.trans h'
  · rfl
  · rfl

theorem owns_operator {o : Token.Operator} : Owns o.spelling o.name :=
  .inl (ofTerminal_eq_named_iff.mpr (.inr ⟨by cases o <;> decide, o, rfl, rfl⟩))

theorem Owns.ne_nameless (h : Owns value name) : ofTerminal value ≠ .nameless := by
  rcases h with h | ⟨type, h⟩ <;> simp [h]

end Naming

def unspelled (values : List String) : List String :=
  values.filter fun value => !isIdentifier value && (Token.Operator.ofSpelling? value).isNone

/-- The names of terminals, and the tokens that they part into: words and operators, words that
carry a text, and the others by their number. -/
structure Partitions (values : List String) (names : List (String × String)) (tokens : Vocabulary) :
    Prop where
  total : names.map Prod.fst = values
  words : ∀ value ∈ values, isIdentifier value = true → names.lookup value = some (upper value)
  operators : ∀ o : Token.Operator, o.spelling ∈ values → names.lookup o.spelling = some o.name
  others : (unspelled values).map (names.lookup ·) = tokens.nameless.map some
  nameless : tokens.nameless =
    (List.range (unspelled values).length).map fun i => "TOKEN_" ++ toString (i + 1)
  named_increasing : Increasing id tokens.named
  mem_named : ∀ name, name ∈ tokens.named ↔
    (∃ value ∈ values, isIdentifier value = true ∧ upper value = name ∧
      name ∉ ["NAME", "NUMBER", "STRING"]) ∨
    ∃ o : Token.Operator, o.spelling ∈ values ∧ isIdentifier o.spelling = false ∧ o.name = name
  typed_increasing : Increasing Prod.fst tokens.typed
  mem_typed : ∀ name type, (name, type) ∈ tokens.typed ↔
    name ∈ ["NAME", "NUMBER", "STRING"] ∧ type = "string" ∧
      ∃ value ∈ values, isIdentifier value = true ∧ upper value = name

section Partitions

variable {values : List String} {value name : String}

theorem unspelled_eq (values : List String) :
    unspelled values = values.filter fun v => Naming.ofTerminal v = .nameless := by
  refine List.filter_congr fun v _ => ?_
  rw [Bool.eq_iff_iff, decide_eq_true_iff, Naming.ofTerminal_eq_nameless_iff]
  simp

theorem length_unspelled (values : List String) :
    (unspelled values).length = values.countP fun v => Naming.ofTerminal v = .nameless := by
  rw [unspelled_eq, List.countP_eq_length_filter]

theorem lookup_nameTerminals_of_owns {count : Nat} (h : Naming.Owns value name)
    (hvalue : value ∈ values) : (nameTerminals count values).lookup value = some name := by
  obtain ⟨found, hfound⟩ : ∃ found, (nameTerminals count values).lookup value = some found :=
    exists_lookup_nameTerminals hvalue
  obtain ⟨-, hown | ⟨hnameless, -⟩⟩ := of_mem_nameTerminals (mem_of_lookup_nameTerminals hfound)
  · rw [hfound, hown.unique h]
  · exact absurd hnameless h.ne_nameless

theorem lookup_eq_some_of_mem {pairs : List (String × String)} (h : (pairs.map Prod.fst).Nodup)
    (hmem : (value, name) ∈ pairs) : pairs.lookup value = some name := by
  obtain ⟨before, behind, rfl⟩ := List.append_of_mem hmem
  refine List.lookup_eq_some_iff.mpr ⟨before, behind, rfl, fun p hp => ?_⟩
  rw [List.map_append, List.nodup_append] at h
  simpa using (h.2.2 p.1 (List.mem_map_of_mem hp) value (by simp)).symm

theorem map_lookup_unspelled (h : values.Nodup) :
    (unspelled values).map ((nameTerminals 0 values).lookup ·) =
      (Vocabulary.ofTerminals values).nameless.map some := by
  have hkeys := map_fst_nameTerminals 0 values
  have hfilter : unspelled values = ((nameTerminals 0 values).filter
      fun p => Naming.ofTerminal p.1 = .nameless).map Prod.fst := by
    conv_lhs => rw [unspelled_eq, ← hkeys, List.filter_map]
    rfl
  have hnodup : ((nameTerminals 0 values).map Prod.fst).Nodup := by rwa [hkeys]
  have hlookup : ∀ p ∈ (nameTerminals 0 values).filter fun p => Naming.ofTerminal p.1 = .nameless,
      ((nameTerminals 0 values).lookup ·) (Prod.fst p) = some (Prod.snd p) := fun p hp =>
    lookup_eq_some_of_mem hnodup (List.mem_of_mem_filter hp)
  have hnumbers := congrArg (List.map some) (filter_nameTerminals 0 values)
  rw [List.map_map] at hnumbers
  rw [hfilter, List.map_map]
  refine (List.map_congr_left hlookup).trans (hnumbers.trans ?_)
  simp [Vocabulary.ofTerminals, List.range'_eq_map_range, Nat.add_comm 1]

theorem partitions_ofTerminals (h : values.Nodup) :
    Partitions values (nameTerminals 0 values) (.ofTerminals values) where
  total := map_fst_nameTerminals 0 values
  words _ hvalue hword := lookup_nameTerminals_of_owns (Naming.owns_upper hword) hvalue
  operators _ ho := lookup_nameTerminals_of_owns Naming.owns_operator ho
  others := map_lookup_unspelled h
  nameless := by
    rw [length_unspelled]
    rfl
  named_increasing := increasing_sortedBy id _
  mem_named name := by
    rw [Vocabulary.mem_named_iff]
    simp only [Naming.ofTerminal_eq_named_iff, and_or_left, exists_or]
    refine or_congr Iff.rfl ⟨?_, ?_⟩
    · rintro ⟨_, hvalue, hword, o, rfl, hname⟩
      exact ⟨o, hvalue, hword, hname⟩
    · rintro ⟨o, hvalue, hword, hname⟩
      exact ⟨_, hvalue, hword, o, rfl, hname⟩
  typed_increasing := increasing_sortedBy Prod.fst _
  mem_typed name type := by
    rw [Vocabulary.mem_typed_pair_iff]
    simp only [Naming.ofTerminal_eq_typed_iff]
    constructor
    · rintro ⟨value, hvalue, hword, hupper, hname, htype⟩
      exact ⟨hname, htype, value, hvalue, hword, hupper⟩
    · rintro ⟨hname, htype, value, hvalue, hword, hupper⟩
      exact ⟨value, hvalue, hword, hupper, hname, htype⟩

/-- Only the members of the list of terminals decide on the names that are not numbered. -/
theorem ofTerminals_perm {others : List String} (h : values.Perm others) :
    (Vocabulary.ofTerminals others).named = (Vocabulary.ofTerminals values).named ∧
      (Vocabulary.ofTerminals others).typed = (Vocabulary.ofTerminals values).typed := by
  constructor
  · have hmem : ∀ name, name ∈ (Vocabulary.ofTerminals others).named ↔
        name ∈ (Vocabulary.ofTerminals values).named := by
      simp only [Vocabulary.mem_named_iff, h.mem_iff, implies_true]
    exact (increasing_sortedBy id _).eq_of_mem_iff (increasing_sortedBy id _) hmem
  · have hmem : ∀ p, p ∈ (Vocabulary.ofTerminals others).typed ↔
        p ∈ (Vocabulary.ofTerminals values).typed := by
      rintro ⟨name, type⟩
      simp only [Vocabulary.mem_typed_pair_iff, h.mem_iff]
    exact (increasing_sortedBy Prod.fst _).eq_of_mem_iff (increasing_sortedBy Prod.fst _) hmem

end Partitions

/-- One pass over the terminals comes to the names and the tokens of a grammar. Each token is there
for the terminals of its category, and the order of the terminals decides on the numbers only. -/
theorem Classification.ofTerminals_parts {values : List String} (hnodup : values.Nodup) :
    ofTerminals values = ⟨nameTerminals 0 values, .ofTerminals values⟩ ∧
    Partitions values (ofTerminals values).names (ofTerminals values).tokens ∧
    ∀ others, values.Perm others →
      (ofTerminals others).tokens.named = (ofTerminals values).tokens.named ∧
      (ofTerminals others).tokens.typed = (ofTerminals values).tokens.typed := by
  refine ⟨ofTerminals_eq values, ?_, fun others hperm => ?_⟩
  · rw [ofTerminals_eq]
    exact partitions_ofTerminals hnodup
  · rw [ofTerminals_eq, ofTerminals_eq]
    exact ofTerminals_perm hperm

/-- Words in several cases, an operator next to its name, and a word in the spelling of a numbered
name. -/
theorem Classification.ofTerminals_parts_shared :
    let values := ["plus", "+", "name", "If", "?", "NAME", "if", "$", "token_1"]
    values.Nodup ∧ values.Perm values.reverse ∧
    ofTerminals values = ⟨[("plus", "PLUS"), ("+", "PLUS"), ("name", "NAME"), ("If", "IF"),
      ("?", "TOKEN_1"), ("NAME", "NAME"), ("if", "IF"), ("$", "TOKEN_2"), ("token_1", "TOKEN_1")],
      ⟨["IF", "PLUS", "TOKEN_1"], ["TOKEN_1", "TOKEN_2"], [("NAME", "string")]⟩⟩ ∧
    Partitions values (ofTerminals values).names (ofTerminals values).tokens ∧
    (ofTerminals values.reverse).tokens.named = (ofTerminals values).tokens.named ∧
    (ofTerminals values.reverse).tokens.typed = (ofTerminals values).tokens.typed := by
  intro values
  have hnodup : values.Nodup := by decide
  have hperm : values.Perm values.reverse := (List.reverse_perm values).symm
  obtain ⟨heq, hparts, horder⟩ := ofTerminals_parts hnodup
  obtain ⟨hnamed, htyped⟩ := horder values.reverse hperm
  exact ⟨hnodup, hperm, heq.trans (by decide +kernel), hparts, hnamed, htyped⟩

end GrammarForge
