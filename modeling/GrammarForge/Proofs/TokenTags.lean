import GrammarForge.Proofs.DistinctNames

/-!
Tags tell tokens apart. A name of the token table has its place there, the numbered names follow in
their order, and the names that are left come behind those. A tag fits into a machine word for as
long as the terminals can be counted in one.
-/

namespace GrammarForge

open Text

namespace Token.Kind

theorem ofLabel?_label (k : Kind) : ofLabel? k.label = some k := by
  cases k with
  | op o => cases o <;> decide
  | keyword k => cases k <;> decide
  | _ => decide

theorem ofLabel?_eq_none_iff {name : String} :
    ofLabel? name = none ↔ ∀ k : Kind, k.label ≠ name := by
  simp [ofLabel?, mem_all]

theorem tag_injective : Function.Injective tag := fun k _ h =>
  (List.idxOf_inj (mem_all k)).mp h

theorem tag_lt (k : Kind) : k.tag < freeTag := List.idxOf_lt_length_iff.mpr (mem_all k)

end Token.Kind

theorem ofLabel?_namelessName (n : Nat) : Token.Kind.ofLabel? (namelessName n) = none := by
  have hprefix : ∀ k ∈ Token.Kind.all, ¬ "TOKEN_".toList <+: k.label.toList := by decide
  refine Token.Kind.ofLabel?_eq_none_iff.mpr fun k h => hprefix k (Token.Kind.mem_all k) ?_
  rw [h, namelessName, String.toList_append]
  exact List.prefix_append _ _

namespace Vocabulary

def foreign (v : Vocabulary) : List String :=
  v.named.filter fun name => (Token.Kind.ofLabel? name).isNone

/-- Where a tag comes from: the table, the numbered names, or the names that are left. -/
inductive Tagged (v : Vocabulary) (name : String) : Nat → Prop
  | table (k : Token.Kind) : k.label = name → Tagged v name k.tag
  | numbered (i : Nat) : v.nameless[i]? = some name → Tagged v name (Token.freeTag + i)
  | foreign (i : Nat) : name ∉ v.nameless → v.foreign[i]? = some name →
      Tagged v name (Token.freeTag + v.nameless.length + i)

variable {v : Vocabulary} {a b name : String} {tag : Nat}

theorem getElem?_of_idxOf? {names : List String} {i : Nat} (h : names.idxOf? name = some i) :
    names[i]? = some name := by
  obtain ⟨hi, hname, -⟩ := List.idxOf?_eq_some_iff.mp h
  rw [List.getElem?_eq_getElem hi, hname]

theorem tagged_of_tag? (h : v.tag? name = some tag) : v.Tagged name tag := by
  unfold tag? at h
  split at h
  · rename_i k hk
    cases h
    exact .table k (Token.Kind.label_of_ofLabel? hk)
  · split at h
    · rename_i i hi
      cases h
      exact .numbered i (getElem?_of_idxOf? hi)
    · rename_i hnone
      obtain ⟨i, hi, rfl⟩ := Option.map_eq_some_iff.mp h
      exact .foreign i (List.idxOf?_eq_none_iff.mp hnone) (getElem?_of_idxOf? hi)

/-- The three sources have ranges of their own, and within its range a tag tells the name. -/
theorem Tagged.unique (ha : v.Tagged a tag) (hb : v.Tagged b tag) : a = b := by
  have hbound : ∀ {i : Nat} {name}, v.nameless[i]? = some name → i < v.nameless.length :=
    fun h => (List.getElem?_eq_some_iff.mp h).1
  cases ha with
  | table k hk =>
    have hlt := k.tag_lt
    generalize htag : k.tag = t at hb hlt
    cases hb with
    | table k' hk' => rw [← hk, ← hk', Token.Kind.tag_injective htag]
    | numbered | foreign => omega
  | numbered i hi =>
    have hlt := hbound hi
    generalize htag : Token.freeTag + i = t at hb
    cases hb with
    | table k => exact absurd k.tag_lt (by omega)
    | numbered j hj =>
      obtain rfl : i = j := by omega
      exact Option.some.inj (hi.symm.trans hj)
    | foreign => omega
  | foreign i _ hi =>
    generalize htag : Token.freeTag + v.nameless.length + i = t at hb
    cases hb with
    | table k => exact absurd k.tag_lt (by omega)
    | numbered j hj => exact absurd (hbound hj) (by omega)
    | foreign j _ hj =>
      obtain rfl : i = j := by omega
      exact Option.some.inj (hi.symm.trans hj)

/-- The tag in words of 32 bits. A place is cut to a word before it is added. -/
def tagWord? (v : Vocabulary) (name : String) : Option UInt32 :=
  match Token.Kind.ofLabel? name with
  | some k => some (UInt32.ofNat k.tag)
  | none =>
    match v.nameless.idxOf? name with
    | some i => some (UInt32.ofNat Token.freeTag + UInt32.ofNat i)
    | none => (v.foreign.idxOf? name).map fun i =>
      UInt32.ofNat Token.freeTag + UInt32.ofNat (v.nameless.length + i)

theorem toNat_add_ofNat {m n : Nat} (h : m + n < UInt32.size) :
    (UInt32.ofNat m + UInt32.ofNat n).toNat = m + n := by
  have hm : (UInt32.ofNat m).toNat = m := UInt32.toNat_ofNat_of_lt' (by omega)
  have hn : (UInt32.ofNat n).toNat = n := UInt32.toNat_ofNat_of_lt' (by omega)
  rw [UInt32.toNat_add, hm, hn]
  exact Nat.mod_eq_of_lt h

/-- Words are enough where the names behind the table can be counted. -/
theorem toNat_tagWord? (h : Token.freeTag + v.nameless.length + v.foreign.length ≤ UInt32.size)
    (name : String) : (v.tagWord? name).map UInt32.toNat = v.tag? name := by
  have hlt : ∀ {names : List String} {i : Nat}, names.idxOf? name = some i → i < names.length :=
    fun h => (List.idxOf?_eq_some_iff.mp h).1
  have htable : Token.freeTag < UInt32.size := by decide
  unfold tagWord? tag?
  cases Token.Kind.ofLabel? name with
  | some k =>
    have hk := k.tag_lt
    exact congrArg some (UInt32.toNat_ofNat_of_lt' (Nat.lt_trans hk htable))
  | none =>
    cases hi : v.nameless.idxOf? name with
    | some i =>
      have hi := hlt hi
      exact congrArg some (toNat_add_ofNat (by omega))
    | none =>
      show Option.map _ (Option.map _ (v.foreign.idxOf? name)) = (v.foreign.idxOf? name).map _
      cases hj : v.foreign.idxOf? name with
      | none => rfl
      | some j =>
        have hj := hlt hj
        have hsum := toNat_add_ofNat (m := Token.freeTag) (n := v.nameless.length + j) (by omega)
        exact congrArg some (hsum.trans (Nat.add_assoc _ _ _).symm)

theorem tag?_label (v : Vocabulary) (k : Token.Kind) : v.tag? k.label = some k.tag := by
  rw [tag?, Token.Kind.ofLabel?_label]

section OfTerminals

variable {values : List String}

theorem tag?_nameless {i : Nat} (h : (ofTerminals values).nameless[i]? = some name) :
    (ofTerminals values).tag? name = some (Token.freeTag + i) := by
  obtain ⟨hi, hname⟩ := List.getElem?_eq_some_iff.mp h
  have hmade : ∃ n, name = namelessName n := by
    obtain ⟨j, -, hj⟩ := mem_nameless_iff.mp (List.mem_of_getElem? h)
    exact ⟨_, hj⟩
  have hindex : (ofTerminals values).nameless.idxOf? name = some i := by
    refine List.idxOf?_eq_some_iff.mpr ⟨hi, hname, fun j hj hsame => ?_⟩
    have hij := (nodup_nameless.getElem_inj_iff).mp (hsame.trans hname.symm)
    omega
  obtain ⟨n, rfl⟩ := hmade
  rw [tag?, ofLabel?_namelessName]
  dsimp only
  rw [hindex]

theorem length_insertNew_le {α : Type} (key : α → String) (x : α) (xs : List α) :
    (insertNew key x xs).length ≤ xs.length + 1 := by
  induction xs with
  | nil => simp [insertNew]
  | cons y ys ih =>
    unfold insertNew
    split
    · omega
    · split
      · simp
      · simpa using ih

theorem length_sortedBy_le {α : Type} (key : α → String) (xs : List α) :
    (sortedBy key xs).length ≤ xs.length := by
  induction xs with
  | nil => simp [sortedBy]
  | cons x xs ih =>
    have hinsert := length_insertNew_le key x (sortedBy key xs)
    exact Nat.le_trans hinsert (Nat.succ_le_succ ih)

/-- A terminal gives one name at most. -/
theorem length_nameless_add_foreign_le :
    (ofTerminals values).nameless.length + (ofTerminals values).foreign.length ≤ values.length := by
  have hcount : (values.countP fun v => Naming.ofTerminal v = .nameless) +
      (values.filterMap fun v => (Naming.ofTerminal v).named?).length ≤ values.length := by
    have hapart : values.countP (fun v => (Naming.ofTerminal v).named?.isSome) ≤
        values.countP fun v => ¬ decide (Naming.ofTerminal v = .nameless) = true :=
      List.countP_mono_left fun v _ hv => by
        cases hvalue : Naming.ofTerminal v <;> simp [hvalue, Naming.named?] at hv ⊢
    have hlength := List.length_eq_countP_add_countP
      (fun v => decide (Naming.ofTerminal v = .nameless)) (l := values)
    rw [List.length_filterMap_eq_countP]
    omega
  have hnamed : (ofTerminals values).named.length ≤
      (values.filterMap fun v => (Naming.ofTerminal v).named?).length := length_sortedBy_le id _
  have hforeign : (ofTerminals values).foreign.length ≤ (ofTerminals values).named.length :=
    List.length_filter_le _ _
  have hnameless : (ofTerminals values).nameless.length =
      values.countP fun v => Naming.ofTerminal v = .nameless := by
    simp [ofTerminals]
  omega

theorem exists_tag?_ge (h : name ∈ (ofTerminals values).all)
    (htable : ∀ k : Token.Kind, k.label ≠ name) (hnumbered : name ∉ (ofTerminals values).nameless) :
    ∃ tag, (ofTerminals values).tag? name = some tag ∧
      Token.freeTag + (ofTerminals values).nameless.length ≤ tag := by
  obtain ⟨tag, htag⟩ := exists_tag? h
  refine ⟨tag, htag, ?_⟩
  cases tagged_of_tag? htag with
  | table k hk => exact absurd hk (htable k)
  | numbered i hi => exact absurd (List.mem_of_getElem? hi) hnumbered
  | foreign i => omega

end OfTerminals

end Vocabulary

namespace Description

/-- Every token of a grammar has a tag, and no other token has the same. The table keeps its places,
numbered names have their number behind it, and the names that are left follow. Where the terminals
can be counted, words of 32 bits are enough for any tag. -/
theorem tag?_identifies (d : Description) (hsize : d.grammar.terminals.length < UInt32.size - 86) :
    (∀ name ∈ d.vocabulary.all, ∃ tag, d.vocabulary.tag? name = some tag) ∧
    (∀ a ∈ d.vocabulary.all, ∀ b ∈ d.vocabulary.all, a ≠ b →
      d.vocabulary.tag? a ≠ d.vocabulary.tag? b) ∧
    (∀ k : Token.Kind, k.label ∈ d.vocabulary.all →
      d.vocabulary.tag? k.label = some (Token.Kind.all.idxOf k)) ∧
    (∀ i name, d.vocabulary.nameless[i]? = some name →
      d.vocabulary.tag? name = some (86 + i)) ∧
    (∀ name ∈ d.vocabulary.all, (∀ k : Token.Kind, k.label ≠ name) →
      name ∉ d.vocabulary.nameless →
      ∃ tag, d.vocabulary.tag? name = some tag ∧ 86 + d.vocabulary.nameless.length ≤ tag) ∧
    ∀ name, (d.vocabulary.tagWord? name).map UInt32.toNat = d.vocabulary.tag? name := by
  refine ⟨fun name => Vocabulary.exists_tag?, fun a ha b _ hne hsame => hne ?_,
    fun k _ => Vocabulary.tag?_label _ k, fun i name => Vocabulary.tag?_nameless,
    fun name => Vocabulary.exists_tag?_ge, Vocabulary.toNat_tagWord? ?_⟩
  · obtain ⟨tag, htag⟩ := Vocabulary.exists_tag? ha
    exact (Vocabulary.tagged_of_tag? htag).unique (Vocabulary.tagged_of_tag? (hsame ▸ htag))
  · have hcount : d.vocabulary.nameless.length + d.vocabulary.foreign.length ≤
        d.grammar.terminals.length := Vocabulary.length_nameless_add_foreign_le
    have hfree : Token.freeTag = 86 := Token.Kind.length_all
    omega

/-- A word in the spelling of a numbered name shares the tag of that, though it is listed twice. -/
theorem tag?_identifies_shared :
    ∃ d : Description,
      Grammar.ofText "a: '?' NUMBER 'while' '->' 'print' 'token_1' '!' a\n" = .ok d.grammar ∧
      d.grammar.terminals.length < UInt32.size - 86 ∧
      d.vocabulary.all =
        ["ARROW", "PRINT", "TOKEN_1", "WHILE", "TOKEN_1", "TOKEN_2", "NUMBER"] ∧
      d.vocabulary.tag? "ARROW" = some 0 ∧ d.vocabulary.tag? "NUMBER" = some 84 ∧
      d.vocabulary.tag? "TOKEN_1" = some 86 ∧ d.vocabulary.tag? "TOKEN_2" = some 87 ∧
      (∃ tag, d.vocabulary.tag? "PRINT" = some tag ∧ 88 ≤ tag) ∧
      d.vocabulary.tag? "PRINT" ≠ d.vocabulary.tag? "WHILE" ∧
      (d.vocabulary.tagWord? "PRINT").map UInt32.toNat = d.vocabulary.tag? "PRINT" := by
  have hrun : (Grammar.ofText "a: '?' NUMBER 'while' '->' 'print' 'token_1' '!' a\n").map
      (fun g => g.terminals) = .ok ["?", "NUMBER", "while", "->", "print", "token_1", "!"] := by
    decide +kernel
  obtain ⟨d, hd, hterminals⟩ := exists_of_map hrun
  have hall : d.vocabulary.all =
      ["ARROW", "PRINT", "TOKEN_1", "WHILE", "TOKEN_1", "TOKEN_2", "NUMBER"] := by
    rw [vocabulary, hterminals]
    decide +kernel
  have hnameless : d.vocabulary.nameless = ["TOKEN_1", "TOKEN_2"] := by
    rw [vocabulary, hterminals]
    decide +kernel
  have hsize : d.grammar.terminals.length < UInt32.size - 86 := by
    rw [hterminals]
    decide
  obtain ⟨-, hdistinct, htable, hnumbered, hothers, hword⟩ := tag?_identifies d hsize
  have hmem : ∀ name ∈ ["ARROW", "PRINT", "WHILE", "NUMBER"], name ∈ d.vocabulary.all := by
    rw [hall]
    decide
  have hprint : ∀ k : Token.Kind, k.label ≠ "PRINT" :=
    Token.Kind.ofLabel?_eq_none_iff.mp (by decide)
  have hplace : 86 + d.vocabulary.nameless.length = 88 := by rw [hnameless]; rfl
  refine ⟨d, hd, hsize, hall, htable (.op .arrow) (hmem "ARROW" (by simp)),
    htable .number (hmem "NUMBER" (by simp)), hnumbered 0 _ (by rw [hnameless]; rfl),
    hnumbered 1 _ (by rw [hnameless]; rfl), ?_,
    hdistinct _ (hmem _ (by simp)) _ (hmem _ (by simp)) (by decide), hword _⟩
  have hbehind := hothers "PRINT" (hmem _ (by simp)) hprint (by rw [hnameless]; decide)
  rwa [hplace] at hbehind

end Description

end GrammarForge
