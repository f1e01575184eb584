import GrammarForge.Description

/-!
The names of tokens. Every terminal of a grammar has one, every one of them has a tag, and all of
them are made of letters, digits and underscores.
-/

namespace GrammarForge

namespace Text

def IsPlain (s : String) : Prop := ∀ c ∈ s.toList, isWordChar c = true

theorem toUpper_cases (c : Char) : c.toUpper = c ∨ ∃ i < 26, c = Char.ofNat (97 + i) := by
  by_cases hlower : 97 ≤ c.toNat ∧ c.toNat ≤ 122
  · refine .inr ⟨c.toNat - 97, by omega, ?_⟩
    rw [Nat.add_sub_cancel' hlower.1, Char.ofNat_toNat]
  · exact .inl (dif_neg fun hrange => hlower (by simpa [UInt32.le_iff_toNat_le] using hrange))

theorem isWordChar_toUpper {c : Char} (h : isWordChar c = true) : isWordChar c.toUpper = true := by
  obtain hsame | ⟨i, hi, rfl⟩ := toUpper_cases c
  · rwa [hsame]
  · have hletters : ∀ i < 26, isWordChar (Char.ofNat (97 + i)).toUpper = true := by decide
    exact hletters i hi

theorem isPlain_append {s t : String} (hs : IsPlain s) (ht : IsPlain t) : IsPlain (s ++ t) := by
  intro c hc
  rw [String.toList_append] at hc
  exact (List.mem_append.mp hc).elim (hs c) (ht c)

theorem isPlain_toString (n : Nat) : IsPlain (toString n) := by
  intro c hc
  have hdigit : c.isDigit = true :=
    Nat.isDigit_of_mem_toDigits (b := 10) (by decide) (by decide) (by simpa using hc)
  simp [isWordChar, Char.isAlphanum, hdigit]

theorem eq_of_toString_eq {m n : Nat} (h : toString m = toString n) : m = n := by
  have hdigits : Nat.toDigits 10 m = Nat.toDigits 10 n := by simpa using congrArg String.toList h
  simpa only [Nat.ofDigitChars_ten_toDigits] using congrArg (Nat.ofDigitChars 10 · 0) hdigits

theorem isPlain_upper {s : String} (h : isIdentifier s = true) : IsPlain (upper s) := by
  have hs : IsPlain s := by
    intro c hc
    unfold isIdentifier at h
    split at h
    · cases h
    · rename_i first rest hlist
      simp only [Bool.and_eq_true, List.all_eq_true] at h
      rw [hlist] at hc
      rcases List.mem_cons.mp hc with rfl | hc
      · simp [isWordChar, Char.isAlphanum, h.1]
      · exact h.2 c hc
  intro c hc
  obtain ⟨c', hc', rfl⟩ : ∃ c' ∈ s.toList, c'.toUpper = c := by simpa [upper] using hc
  exact isWordChar_toUpper (hs c' hc')

end Text

namespace Naming

open Token (Kind Operator)

variable {value name type : String}

/-- A word is named by its capitals; whether it is typed is up to the token table. -/
theorem ofTerminal_word (h : Text.isIdentifier value = true) :
    ((Kind.ofLabel? (Text.upper value)).bind Kind.payloadType? = none ∧
      ofTerminal value = .named (Text.upper value)) ∨
    ∃ type, (Kind.ofLabel? (Text.upper value)).bind Kind.payloadType? = some type ∧
      ofTerminal value = .typed (Text.upper value) type := by
  unfold ofTerminal
  rw [if_pos h]
  cases hpayload : (Kind.ofLabel? (Text.upper value)).bind Kind.payloadType? with
  | none => exact .inl ⟨rfl, by simp [hpayload]⟩
  | some type => exact .inr ⟨type, rfl, by simp [hpayload]⟩

theorem ofTerminal_other (h : Text.isIdentifier value = false) :
    (∃ o, Operator.ofSpelling? value = some o ∧ ofTerminal value = .named o.name) ∨
      Operator.ofSpelling? value = none ∧ ofTerminal value = .nameless := by
  unfold ofTerminal
  rw [if_neg (by simp [h])]
  cases ho : Operator.ofSpelling? value with
  | some o => exact .inl ⟨o, rfl, rfl⟩
  | none => exact .inr ⟨rfl, rfl⟩

theorem payload_of_named (h : ofTerminal value = .named name) :
    (Kind.ofLabel? name).bind Kind.payloadType? = none := by
  cases hword : Text.isIdentifier value with
  | true =>
    obtain ⟨hpayload, hnamed⟩ | ⟨type, -, htyped⟩ := ofTerminal_word hword
    · cases hnamed.symm.trans h
      exact hpayload
    · cases htyped.symm.trans h
  | false =>
    obtain ⟨o, -, hnamed⟩ | ⟨-, hnameless⟩ := ofTerminal_other hword
    · cases hnamed.symm.trans h
      cases o <;> decide
    · cases hnameless.symm.trans h

theorem payload_of_typed (h : ofTerminal value = .typed name type) :
    (Kind.ofLabel? name).bind Kind.payloadType? = some type := by
  cases hword : Text.isIdentifier value with
  | true =>
    obtain ⟨-, hnamed⟩ | ⟨type, hpayload, htyped⟩ := ofTerminal_word hword
    · cases hnamed.symm.trans h
    · cases htyped.symm.trans h
      exact hpayload
  | false =>
    obtain ⟨o, -, hnamed⟩ | ⟨-, hnameless⟩ := ofTerminal_other hword
    · cases hnamed.symm.trans h
    · cases hnameless.symm.trans h

/-- A terminal with a name of its own, in the table of types or not. -/
def Owns (value name : String) : Prop :=
  ofTerminal value = .named name ∨ ∃ type, ofTerminal value = .typed name type

theorem owns_upper (h : Text.isIdentifier value = true) : Owns value (Text.upper value) :=
  (ofTerminal_word h).imp And.right fun ⟨type, _, htyped⟩ => ⟨type, htyped⟩

theorem Owns.cases (h : Owns value name) :
    Text.isIdentifier value = true ∧ name = Text.upper value ∨
      ∃ o, Operator.ofSpelling? value = some o ∧ name = o.name := by
  cases hword : Text.isIdentifier value with
  | true =>
    obtain ⟨-, hnamed⟩ | ⟨type, -, htyped⟩ := ofTerminal_word hword
    · rcases h with h | ⟨type, h⟩ <;> cases hnamed.symm.trans h
      exact .inl ⟨rfl, rfl⟩
    · rcases h with h | ⟨type, h⟩ <;> cases htyped.symm.trans h
      exact .inl ⟨rfl, rfl⟩
  | false =>
    obtain ⟨o, ho, hnamed⟩ | ⟨-, hnameless⟩ := ofTerminal_other hword
    · rcases h with h | ⟨type, h⟩ <;> cases hnamed.symm.trans h
      exact .inr ⟨o, ho, rfl⟩
    · rcases h with h | ⟨type, h⟩ <;> cases hnameless.symm.trans h

theorem Owns.isPlain (h : Owns value name) : Text.IsPlain name := by
  obtain ⟨hword, rfl⟩ | ⟨o, -, rfl⟩ := h.cases
  · exact Text.isPlain_upper hword
  · have hall : o.name.toList.all Text.isWordChar = true := by cases o <;> decide
    exact List.all_eq_true.mp hall

theorem Owns.ne_empty (h : Owns value name) : name ≠ "" := by
  obtain ⟨hword, rfl⟩ | ⟨o, -, rfl⟩ := h.cases
  · intro hempty
    have hlist : value.toList = [] := by simpa [Text.upper] using hempty
    simp [Text.isIdentifier, hlist] at hword
  · cases o <;> decide

end Naming

theorem isPlain_namelessName (n : Nat) : Text.IsPlain (namelessName n) :=
  Text.isPlain_append (List.all_eq_true.mp (by decide : "TOKEN_".toList.all _ = true))
    (Text.isPlain_toString n)

section NameTerminals

variable {count : Nat} {values : List String} {v name : String}

theorem exists_lookup_nameTerminals (h : v ∈ values) :
    ∃ name, (nameTerminals count values).lookup v = some name := by
  induction values generalizing count with
  | nil => cases h
  | cons value values ih =>
    have step : ∀ {name count'}, ∃ found,
        ((value, name) :: nameTerminals count' values).lookup v = some found := by
      intro name count'
      by_cases hv : v = value
      · exact ⟨name, by simp [hv]⟩
      · obtain ⟨found, hfound⟩ : ∃ found, (nameTerminals count' values).lookup v = some found :=
          ih ((List.mem_cons.mp h).resolve_left hv)
        exact ⟨found, by simp [List.lookup_cons, beq_eq_false_iff_ne.mpr hv, hfound]⟩
    unfold nameTerminals
    split <;> exact step

/-- A terminal has the name of its own, or the next one made for those without. -/
theorem of_mem_nameTerminals (h : (v, name) ∈ nameTerminals count values) :
    v ∈ values ∧ (Naming.Owns v name ∨
      Naming.ofTerminal v = .nameless ∧
        ∃ i < values.countP fun w => Naming.ofTerminal w = .nameless,
          name = namelessName (count + i + 1)) := by
  induction values generalizing count with
  | nil => cases h
  | cons value values ih =>
    have hown : ∀ {found}, Naming.Owns value found → (v, name) ∈ (value, found) ::
        nameTerminals count values → v ∈ value :: values ∧ (Naming.Owns v name ∨
          Naming.ofTerminal v = .nameless ∧ ∃ i < (value :: values).countP
            (fun w => Naming.ofTerminal w = .nameless), name = namelessName (count + i + 1)) := by
      intro found hfound h
      rcases List.mem_cons.mp h with h | h
      · cases h
        exact ⟨List.mem_cons_self, .inl hfound⟩
      · obtain ⟨hv, hname⟩ := ih h
        refine ⟨List.mem_cons_of_mem value hv, hname.imp_right fun ⟨hv, i, hi, hname⟩ => ?_⟩
        exact ⟨hv, i, Nat.lt_of_lt_of_le hi (List.sublist_cons_self value values).countP_le, hname⟩
    unfold nameTerminals at h
    split at h
    · rename_i hfound
      exact hown (.inl hfound) h
    · rename_i hfound
      exact hown (.inr ⟨_, hfound⟩) h
    · rename_i hfound
      have hcount : (value :: values).countP (fun w => Naming.ofTerminal w = .nameless) =
          values.countP (fun w => Naming.ofTerminal w = .nameless) + 1 := by
        simp [hfound]
      rcases List.mem_cons.mp h with h | h
      · cases h
        exact ⟨List.mem_cons_self, .inr ⟨hfound, 0, by omega, rfl⟩⟩
      · obtain ⟨hv, hown | ⟨hv', i, hi, rfl⟩⟩ := ih h
        · exact ⟨List.mem_cons_of_mem value hv, .inl hown⟩
        · have hnumber : count + 1 + i + 1 = count + (i + 1) + 1 := by omega
          exact ⟨List.mem_cons_of_mem value hv, .inr ⟨hv', i + 1, by omega, by rw [hnumber]⟩⟩

theorem mem_of_lookup_nameTerminals (h : (nameTerminals count values).lookup v = some name) :
    (v, name) ∈ nameTerminals count values := by
  obtain ⟨before, behind, hsplit, -⟩ := List.lookup_eq_some_iff.mp h
  exact hsplit ▸ List.mem_append_right _ List.mem_cons_self

theorem isPlain_of_lookup (h : (nameTerminals count values).lookup v = some name) :
    Text.IsPlain name := by
  obtain ⟨-, hown | ⟨-, i, -, rfl⟩⟩ := of_mem_nameTerminals (mem_of_lookup_nameTerminals h)
  · exact hown.isPlain
  · exact isPlain_namelessName _

theorem ne_empty_of_lookup (h : (nameTerminals count values).lookup v = some name) : name ≠ "" := by
  obtain ⟨-, hown | ⟨-, i, -, rfl⟩⟩ := of_mem_nameTerminals (mem_of_lookup_nameTerminals h)
  · exact hown.ne_empty
  · simp [namelessName]

end NameTerminals

namespace Vocabulary

variable {values : List String} {name : String}

theorem mem_all_iff {v : Vocabulary} :
    name ∈ v.all ↔ name ∈ v.named ∨ name ∈ v.nameless ∨ name ∈ v.typed.map Prod.fst := by
  simp [all, untyped]

theorem mem_named_iff :
    name ∈ (ofTerminals values).named ↔ ∃ v ∈ values, Naming.ofTerminal v = .named name := by
  have hname : ∀ n : Naming, n.named? = some name ↔ n = .named name := by
    intro n
    cases n <;> simp [Naming.named?]
  have hsorted : name ∈ (ofTerminals values).named ↔
      name ∈ values.filterMap fun v => (Naming.ofTerminal v).named? := by
    simpa only [ofTerminals, List.map_id] using @Text.mem_key_sortedBy _ id
      (values.filterMap fun v => (Naming.ofTerminal v).named?) name
  simp only [hsorted, List.mem_filterMap, hname]

theorem mem_typed_iff :
    name ∈ (ofTerminals values).typed.map Prod.fst ↔
      ∃ v ∈ values, ∃ type, Naming.ofTerminal v = .typed name type := by
  have htype : ∀ n : Naming, ∀ type, n.typed? = some (name, type) ↔ n = .typed name type := by
    intro n type
    cases n <;> simp [Naming.typed?]
  have hsorted : name ∈ (ofTerminals values).typed.map Prod.fst ↔
      name ∈ (values.filterMap fun v => (Naming.ofTerminal v).typed?).map Prod.fst :=
    Text.mem_key_sortedBy
  rw [hsorted, List.mem_map]
  constructor
  · rintro ⟨⟨found, type⟩, hfound, rfl⟩
    obtain ⟨v, hv, htyped⟩ := List.mem_filterMap.mp hfound
    exact ⟨v, hv, type, (htype _ type).mp htyped⟩
  · rintro ⟨v, hv, type, htyped⟩
    exact ⟨(name, type), List.mem_filterMap.mpr ⟨v, hv, (htype _ type).mpr htyped⟩, rfl⟩

theorem exists_owns_iff : (∃ v ∈ values, Naming.Owns v name) ↔
    name ∈ (ofTerminals values).named ∨ name ∈ (ofTerminals values).typed.map Prod.fst := by
  simp only [mem_named_iff, mem_typed_iff, Naming.Owns, and_or_left, exists_or]

theorem mem_nameless_iff :
    name ∈ (ofTerminals values).nameless ↔
      ∃ i < values.countP fun w => Naming.ofTerminal w = .nameless, name = namelessName (i + 1) := by
  simp [ofTerminals, eq_comm]

theorem mem_all_iff_owns : name ∈ (ofTerminals values).all ↔
    (∃ v ∈ values, Naming.Owns v name) ∨ name ∈ (ofTerminals values).nameless := by
  rw [mem_all_iff, exists_owns_iff, or_assoc, or_comm (a := name ∈ (ofTerminals values).nameless)]

theorem mem_all_of_lookup {v : String} (h : (nameTerminals 0 values).lookup v = some name) :
    name ∈ (ofTerminals values).all := by
  obtain ⟨hv, hown | ⟨-, i, hi, rfl⟩⟩ := of_mem_nameTerminals (mem_of_lookup_nameTerminals h)
  · exact mem_all_iff_owns.mpr (.inl ⟨v, hv, hown⟩)
  · exact mem_all_iff_owns.mpr (.inr (mem_nameless_iff.mpr ⟨i, hi, by rw [Nat.zero_add]⟩))

theorem exists_tag? (h : name ∈ (ofTerminals values).all) :
    ∃ tag, (ofTerminals values).tag? name = some tag := by
  unfold tag?
  split
  · exact ⟨_, rfl⟩
  · rename_i hfree
    split
    · exact ⟨_, rfl⟩
    · rename_i hnamed
      have hnameless : name ∉ (ofTerminals values).nameless := List.idxOf?_eq_none_iff.mp hnamed
      rcases mem_all_iff.mp h with h | h | h
      · have hmem : name ∈ (ofTerminals values).named.filter
            fun n => (Token.Kind.ofLabel? n).isNone := by simp [h, hfree]
        cases hi : ((ofTerminals values).named.filter
            fun n => (Token.Kind.ofLabel? n).isNone).idxOf? name with
        | none => exact absurd hmem (List.idxOf?_eq_none_iff.mp hi)
        | some i => exact ⟨_, rfl⟩
      · exact absurd h hnameless
      · obtain ⟨v, -, type, htyped⟩ := mem_typed_iff.mp h
        have hpayload := Naming.payload_of_typed htyped
        rw [hfree] at hpayload
        cases hpayload

theorem isPlain_of_mem_all (h : name ∈ (ofTerminals values).all) : Text.IsPlain name := by
  obtain ⟨v, -, hown⟩ | h := mem_all_iff_owns.mp h
  · exact hown.isPlain
  · obtain ⟨i, -, rfl⟩ := mem_nameless_iff.mp h
    exact isPlain_namelessName _

end Vocabulary

end GrammarForge
