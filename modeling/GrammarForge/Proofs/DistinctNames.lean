import GrammarForge.Proofs.GrammarFiles

/-!
When the names in a generated parser are distinct. The names made for terminals without one differ
from each other and from those of operators, but an identifier may be spelled like one of them, and
a rule in capitals like a token.
-/

namespace GrammarForge

open Text

theorem namelessName_injective : Function.Injective namelessName := fun _ _ h =>
  eq_of_toString_eq ((String.append_right_inj _).mp h)

namespace Text

theorem upper_eq_of_forall {s : String} (h : ∀ c ∈ s.toList, c.toUpper = c) : upper s = s := by
  apply String.toList_inj.mp
  rw [upper, String.toList_ofList, List.map_congr_left h, List.map_id']

theorem upper_upper (s : String) : upper (upper s) = upper s := by
  refine upper_eq_of_forall fun c hc => ?_
  obtain ⟨small, -, rfl⟩ : ∃ small ∈ s.toList, small.toUpper = c := by simpa [upper] using hc
  obtain hsame | ⟨i, hi, rfl⟩ := toUpper_cases small
  · rw [hsame, hsame]
  · have hletters : ∀ i < 26, (Char.ofNat (97 + i)).toUpper.toUpper =
        (Char.ofNat (97 + i)).toUpper := by decide
    exact hletters i hi

theorem upper_namelessName (n : Nat) : upper (namelessName n) = namelessName n := by
  refine upper_eq_of_forall fun c hc => ?_
  rcases List.mem_append.mp (String.toList_append ▸ hc) with hc | hc
  · have hall : ("TOKEN_".toList.all fun c => c.toUpper == c) = true := by decide
    exact beq_iff_eq.mp (List.all_eq_true.mp hall c hc)
  · have hdigit : c.isDigit = true :=
      Nat.isDigit_of_mem_toDigits (b := 10) (n := n) (by decide) (by decide) (by simpa using hc)
    refine (toUpper_cases c).resolve_right ?_
    rintro ⟨i, hi, rfl⟩
    have hletters : ∀ i < 26, (Char.ofNat (97 + i)).isDigit = false := by decide
    rw [hletters i hi] at hdigit
    cases hdigit

end Text

namespace Naming

variable {value name : String}

theorem name_ne_namelessName (o : Token.Operator) (n : Nat) : o.name ≠ namelessName n := by
  have hprefix : ¬ "TOKEN_".toList <+: o.name.toList := by cases o <;> decide
  intro h
  apply hprefix
  rw [h, namelessName, String.toList_append]
  exact List.prefix_append _ _

theorem Owns.upper_eq (h : Owns value name) : upper name = name := by
  obtain ⟨-, rfl⟩ | ⟨o, -, rfl⟩ := h.cases
  · exact upper_upper value
  · cases o <;> decide

theorem Owns.isIdentifier_of_namelessName {n : Nat} (h : Owns value (namelessName n)) :
    isIdentifier value = true ∧ upper value = namelessName n := by
  obtain ⟨hword, hname⟩ | ⟨o, -, hname⟩ := h.cases
  · exact ⟨hword, hname.symm⟩
  · exact absurd hname.symm (name_ne_namelessName o n)

end Naming

/-- The names made are numbered from `count` on. -/
theorem filter_nameTerminals (count : Nat) (values : List String) :
    ((nameTerminals count values).filter fun p => Naming.ofTerminal p.1 = .nameless).map Prod.snd =
      (List.range' (count + 1) (values.countP fun v => Naming.ofTerminal v = .nameless)).map
        namelessName := by
  induction values generalizing count with
  | nil => rfl
  | cons value values ih =>
    unfold nameTerminals
    split
    · rename_i h
      simp [h, ih]
    · rename_i h
      simp [h, ih]
    · rename_i h
      simp [h, ih, List.range'_succ]

theorem nodup_key_sortedBy {α : Type} (key : α → String) (xs : List α) :
    ((sortedBy key xs).map key).Nodup :=
  List.pairwise_map.mpr ((increasing_sortedBy key xs).imp And.right)

namespace Vocabulary

variable {values : List String} {name v w : String}

theorem nodup_named : (ofTerminals values).named.Nodup := by
  have h := nodup_key_sortedBy id (values.filterMap fun v => (Naming.ofTerminal v).named?)
  rwa [List.map_id] at h

theorem nodup_nameless : (ofTerminals values).nameless.Nodup :=
  List.nodup_range.map fun _ _ h => Nat.succ.inj (namelessName_injective h)

theorem not_mem_typed (h : name ∈ (ofTerminals values).named) :
    name ∉ (ofTerminals values).typed.map Prod.fst := by
  intro h'
  obtain ⟨v, -, hnamed⟩ := mem_named_iff.mp h
  obtain ⟨w, -, type, htyped⟩ := mem_typed_iff.mp h'
  have hpayload := Naming.payload_of_named hnamed
  rw [Naming.payload_of_typed htyped] at hpayload
  cases hpayload

/-- A name is listed twice only where an identifier is spelled like a made name. -/
theorem nodup_all_iff : (ofTerminals values).all.Nodup ↔
    ∀ v ∈ values, isIdentifier v = true → upper v ∉ (ofTerminals values).nameless := by
  have htyped : ((ofTerminals values).typed.map Prod.fst).Nodup := nodup_key_sortedBy _ _
  have hlists : (ofTerminals values).all.Nodup ↔
      ∀ name, (∃ v ∈ values, Naming.Owns v name) → name ∉ (ofTerminals values).nameless := by
    rw [all, untyped, List.nodup_append, List.nodup_append]
    simp only [exists_owns_iff]
    constructor
    · rintro ⟨⟨-, -, hnamed⟩, -, hbehind⟩ name (hname | hname) hmade
      · exact hnamed name hname name hmade rfl
      · exact hbehind name (List.mem_append_right _ hmade) name hname rfl
    · intro h
      refine ⟨⟨nodup_named, nodup_nameless, ?_⟩, htyped, ?_⟩
      · rintro name hname made hmade rfl
        exact h name (.inl hname) hmade
      · rintro name hname found hfound rfl
        rcases List.mem_append.mp hname with hname | hname
        · exact not_mem_typed hname hfound
        · exact h name (.inr hfound) hname
  rw [hlists]
  constructor
  · intro h v hv hword
    exact h _ ⟨v, hv, Naming.owns_upper hword⟩
  · rintro h name ⟨v, hv, howns⟩ hmade
    obtain ⟨i, -, rfl⟩ := mem_nameless_iff.mp hmade
    obtain ⟨hword, hupper⟩ := howns.isIdentifier_of_namelessName
    exact h v hv hword (hupper ▸ hmade)

theorem upper_of_mem_all (h : name ∈ (ofTerminals values).all) : upper name = name := by
  obtain ⟨v, -, howns⟩ | h := mem_all_iff_owns.mp h
  · exact howns.upper_eq
  · obtain ⟨i, -, rfl⟩ := mem_nameless_iff.mp h
    exact upper_namelessName _

/-- Terminals without a name of their own never share one. -/
theorem eq_of_nameless (hv : (v, name) ∈ nameTerminals 0 values)
    (hw : (w, name) ∈ nameTerminals 0 values) (hv' : Naming.ofTerminal v = .nameless)
    (hw' : Naming.ofTerminal w = .nameless) : v = w := by
  have hnodup : (((nameTerminals 0 values).filter
      fun p => Naming.ofTerminal p.1 = .nameless).map Prod.snd).Nodup := by
    rw [filter_nameTerminals]
    exact (List.nodup_range' 1).map namelessName_injective
  have hpairs := List.inj_on_of_nodup_map hnodup (List.mem_filter.mpr ⟨hv, by simpa using hv'⟩)
    (List.mem_filter.mpr ⟨hw, by simpa using hw'⟩) rfl
  exact congrArg Prod.fst hpairs

end Vocabulary

namespace Naming

def IsSpelled (v : String) : Prop :=
  isIdentifier v = true ∨ (Token.Operator.ofSpelling? v).isSome = true

theorem Owns.isSpelled {v name : String} (h : Owns v name) : IsSpelled v := by
  obtain ⟨hword, -⟩ | ⟨o, ho, -⟩ := h.cases
  · exact .inl hword
  · exact .inr (Option.isSome_of_eq_some ho)

end Naming

/-- Where two terminals share a name, both are spelled like it, or it was made for one of them and
the other is an identifier in its spelling. -/
theorem Vocabulary.of_shared_name {values : List String} {v w name : String} (hne : v ≠ w)
    (hv : (v, name) ∈ nameTerminals 0 values) (hw : (w, name) ∈ nameTerminals 0 values) :
    Naming.IsSpelled v ∧ Naming.IsSpelled w ∨ name ∈ (ofTerminals values).nameless ∧
      ∃ u ∈ [v, w], isIdentifier u = true ∧ upper u = name := by
  obtain ⟨-, hown | ⟨hnameless, i, hi, hname⟩⟩ := of_mem_nameTerminals hv <;>
  obtain ⟨-, hown' | ⟨hnameless', j, hj, hname'⟩⟩ := of_mem_nameTerminals hw
  · exact .inl ⟨hown.isSpelled, hown'.isSpelled⟩
  · rw [Nat.zero_add] at hname'
    refine .inr ⟨mem_nameless_iff.mpr ⟨j, hj, hname'⟩, v, by simp, ?_⟩
    subst hname'
    exact hown.isIdentifier_of_namelessName
  · rw [Nat.zero_add] at hname
    refine .inr ⟨mem_nameless_iff.mpr ⟨i, hi, hname⟩, w, by simp, ?_⟩
    subst hname
    exact hown'.isIdentifier_of_namelessName
  · exact absurd (eq_of_nameless hv hw hnameless hnameless') hne

namespace Target

variable {d : Description} {l : Library} {lines : List String} {text : String}

theorem nodup_definedNames (hnamed : d.grammar.rules.Named)
    (hkeys : ∀ k ∈ d.grammar.rules.keys, isWord k.toList = true)
    (h : (library l).generate d = .ok lines) :
    ((library l).definedNames lines).Nodup ↔
      d.vocabulary.all.Nodup ∧ ∀ k ∈ d.grammar.rules.keys, k ∉ d.vocabulary.all := by
  have hinjective : Function.Injective (library l).spelling := fun _ _ heq =>
    (String.append_right_inj _).mp heq
  rw [(read_generate hnamed hkeys h).1, List.nodup_map_iff hinjective, List.nodup_append]
  constructor
  · rintro ⟨hall, -, hapart⟩
    exact ⟨hall, fun k hk hmem => hapart k hmem k hk rfl⟩
  · rintro ⟨hall, hapart⟩
    exact ⟨hall, d.grammar.rules.nodup_keys, fun name hname k hk heq => hapart k hk (heq ▸ hname)⟩

theorem exists_nodup_definedNames_iff (h : Grammar.ofText text = .ok d.grammar) (l : Library) :
    ∃ lines, (library l).generate d = .ok lines ∧ (((library l).definedNames lines).Nodup ↔
      d.vocabulary.all.Nodup ∧ ∀ k ∈ d.grammar.rules.keys, k ∉ d.vocabulary.all) := by
  obtain ⟨lines, hlines⟩ : ∃ lines, (library l).generate d = .ok lines :=
    exists_generate_of_ofText h nofun
  exact ⟨lines, hlines, nodup_definedNames (Grammar.canonical_of_ofText h).named
    (Description.isWord_of_mem_keys h) hlines⟩

/-- The names of tokens are distinct unless an identifier in capitals is one of the names made, and
that is the only way for a made name to be shared. A rule with a small letter in its name is no
token. The bindings of a parser are distinct where tokens are, and no rule is one of them. -/
theorem nodup_all_iff_upper (h : Grammar.ofText text = .ok d.grammar) :
    (d.vocabulary.all.Nodup ↔
      ∀ v ∈ d.grammar.terminals, isIdentifier v = true → upper v ∉ d.vocabulary.nameless) ∧
    (∀ v w name, v ≠ w → d.names.lookup v = some name → d.names.lookup w = some name →
      Naming.IsSpelled v ∧ Naming.IsSpelled w ∨ name ∈ d.vocabulary.nameless ∧
        ∃ u ∈ [v, w], isIdentifier u = true ∧ upper u = name) ∧
    (∀ k ∈ d.grammar.rules.keys, upper k ≠ k → k ∉ d.vocabulary.all) ∧
    ∀ l : Library, ∃ lines, (library l).generate d = .ok lines ∧
      (((library l).definedNames lines).Nodup ↔
        d.vocabulary.all.Nodup ∧ ∀ k ∈ d.grammar.rules.keys, k ∉ d.vocabulary.all) := by
  refine ⟨Vocabulary.nodup_all_iff, fun v w name hne hv hw => ?_, fun k _ hcase hk => ?_,
    fun l => ?_⟩
  · exact Vocabulary.of_shared_name hne (mem_of_lookup_nameTerminals hv)
      (mem_of_lookup_nameTerminals hw)
  · exact hcase (Vocabulary.upper_of_mem_all hk)
  · exact exists_nodup_definedNames_iff h l

/-- A name that an identifier and an operator share, and a number behind those of the names made. -/
theorem nodup_all_iff_upper_shared :
    ∃ d : Description,
      Grammar.ofText "a: 'plus' '+' '?' '!' 'token_3' b\nb: NAME a\n" = .ok d.grammar ∧
      d.vocabulary.all = ["PLUS", "TOKEN_3", "TOKEN_1", "TOKEN_2", "NAME"] ∧
      d.vocabulary.all.Nodup ∧
      d.names.lookup "plus" = some "PLUS" ∧ d.names.lookup "+" = some "PLUS" ∧
      Naming.IsSpelled "plus" ∧ Naming.IsSpelled "+" ∧
      "a" ∈ d.grammar.rules.keys ∧ "a" ∉ d.vocabulary.all ∧
      ∃ lines, (library .pwdNary).generate d = .ok lines ∧
        ((library .pwdNary).definedNames lines).Nodup := by
  have hrun : (Grammar.ofText "a: 'plus' '+' '?' '!' 'token_3' b\nb: NAME a\n").map (fun g =>
      (g.rules.keys, g.terminals)) =
      .ok (["a", "b"], ["plus", "+", "?", "!", "token_3", "NAME"]) := by
    decide +kernel
  obtain ⟨d, hd, hfacts⟩ := Description.exists_of_map hrun
  obtain ⟨hkeys, hterminals⟩ := Prod.mk.inj hfacts
  have hall : d.vocabulary.all = ["PLUS", "TOKEN_3", "TOKEN_1", "TOKEN_2", "NAME"] := by
    rw [Description.vocabulary, hterminals]
    decide +kernel
  have hnameless : d.vocabulary.nameless = ["TOKEN_1", "TOKEN_2"] := by
    rw [Description.vocabulary, hterminals]
    decide +kernel
  have hnames : d.names = [("plus", "PLUS"), ("+", "PLUS"), ("?", "TOKEN_1"), ("!", "TOKEN_2"),
      ("token_3", "TOKEN_3"), ("NAME", "NAME")] := by
    rw [Description.names, hterminals]
    decide +kernel
  have hplus : d.names.lookup "plus" = some "PLUS" := by
    rw [hnames]
    decide
  have hsign : d.names.lookup "+" = some "PLUS" := by
    rw [hnames]
    decide
  obtain ⟨hdistinct, hshared, hcase, hbound⟩ := nodup_all_iff_upper hd
  have hupper : ∀ v ∈ d.grammar.terminals, isIdentifier v = true →
      upper v ∉ d.vocabulary.nameless := by
    rw [hterminals, hnameless]
    decide
  have hspelled := (hshared "plus" "+" "PLUS" (by decide) hplus hsign).resolve_right fun h =>
    absurd (hnameless ▸ h.1) (by decide)
  have hkey : "a" ∉ d.vocabulary.all := hcase "a" (by simp [hkeys]) (by decide)
  obtain ⟨lines, hlines, hnodup⟩ := hbound .pwdNary
  have hapart : ∀ k ∈ d.grammar.rules.keys, k ∉ d.vocabulary.all := by
    rw [hkeys, hall]
    decide
  exact ⟨d, hd, hall, hdistinct.mpr hupper, hplus, hsign, hspelled.1, hspelled.2,
    by simp [hkeys], hkey, lines, hlines, hnodup.mpr ⟨hdistinct.mpr hupper, hapart⟩⟩

/-- An identifier that is spelled like a made name, and a rule that is spelled like a token. -/
theorem exists_not_nodup_definedNames :
    (∃ d : Description, Grammar.ofText "a: 'token_1' '?'\n" = .ok d.grammar ∧
      d.names = [("token_1", "TOKEN_1"), ("?", "TOKEN_1")] ∧
      d.vocabulary.all = ["TOKEN_1", "TOKEN_1"] ∧ ¬ d.vocabulary.all.Nodup ∧
      ∃ lines, (library .pwzNary).generate d = .ok lines ∧
        ¬ ((library .pwzNary).definedNames lines).Nodup) ∧
    ∃ d : Description, Grammar.ofText "PLUS: 'x' '+'\n" = .ok d.grammar ∧
      d.grammar.rules.keys = ["PLUS"] ∧ d.vocabulary.all = ["PLUS", "X"] ∧
      ∃ lines, (library .pwzNary).generate d = .ok lines ∧
        ¬ ((library .pwzNary).definedNames lines).Nodup := by
  constructor
  · have hrun : (Grammar.ofText "a: 'token_1' '?'\n").map (fun g =>
        (nameTerminals 0 g.terminals, (Vocabulary.ofTerminals g.terminals).all)) =
        .ok ([("token_1", "TOKEN_1"), ("?", "TOKEN_1")], ["TOKEN_1", "TOKEN_1"]) := by
      decide +kernel
    obtain ⟨d, hd, hfacts⟩ := Description.exists_of_map hrun
    obtain ⟨hnames, hall⟩ := Prod.mk.inj hfacts
    have hall : d.vocabulary.all = ["TOKEN_1", "TOKEN_1"] := hall
    have htwice : ¬ d.vocabulary.all.Nodup := by
      rw [hall]
      decide
    obtain ⟨lines, hlines, hiff⟩ := exists_nodup_definedNames_iff hd .pwzNary
    exact ⟨d, hd, hnames, hall, htwice, lines, hlines, fun h => htwice (hiff.mp h).1⟩
  · have hrun : (Grammar.ofText "PLUS: 'x' '+'\n").map (fun g =>
        (g.rules.keys, (Vocabulary.ofTerminals g.terminals).all)) =
        .ok (["PLUS"], ["PLUS", "X"]) := by
      decide +kernel
    obtain ⟨d, hd, hfacts⟩ := Description.exists_of_map hrun
    obtain ⟨hkeys, hall⟩ := Prod.mk.inj hfacts
    have hall : d.vocabulary.all = ["PLUS", "X"] := hall
    obtain ⟨lines, hlines, hiff⟩ := exists_nodup_definedNames_iff hd .pwzNary
    refine ⟨d, hd, hkeys, hall, lines, hlines, fun h => (hiff.mp h).2 "PLUS" ?_ ?_⟩
    · simp [hkeys]
    · simp [hall]

end Target

end GrammarForge
