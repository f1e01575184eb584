import GrammarForge.Proofs.QuotedTexts
import GrammarForge.Proofs.Reprinting
import GrammarForge.Proofs.Violations

/-!
The labels in the parsers of all targets. Read from left to right, the rules of a parser hold the
label of each production, once and in the order of the grammar, whatever the target.
-/

namespace GrammarForge

open Text

/-- An identifier, alone or with a number behind a dash. -/
def isLabel (s : String) : Bool :=
  isWord (s.toList.takeWhile isWordChar) &&
    match s.toList.dropWhile isWordChar with
    | [] => true
    | c :: digits => c == '-' && !digits.isEmpty && digits.all Char.isDigit

def labelsIn (lines : List String) : List String :=
  (quotedTexts (unlines lines)).filter isLabel

def Rule.labels (r : Rule) : List String :=
  match r.group? with
  | some g =>
    (List.range g.productions.length).map (productionLabel r.name g.productions.length)
  | none => []

def Dictionary.labels (d : Dictionary) : List String := d.rules.flatMap Rule.labels

/-- Lines that close their quotes, with the labels in them. -/
structure ShowsLabels (lines labels : List String) : Prop where
  closed : ∀ line ∈ lines, ∃ quoted, Shows line quoted
  labels_eq : (lines.flatMap quotedTexts).filter isLabel = labels

namespace ShowsLabels

variable {lines lines' labels labels' : List String}

theorem labelsIn_eq (h : ShowsLabels lines labels) : labelsIn lines = labels := by
  rw [labelsIn, quotedTexts_unlines h.closed, h.labels_eq]

theorem nil : ShowsLabels [] [] := ⟨nofun, rfl⟩

theorem singleton {line : String} {quoted : List String} (h : Shows line quoted)
    (hlabels : quoted.filter isLabel = labels) : ShowsLabels [line] labels where
  closed := by simpa using ⟨quoted, h⟩
  labels_eq := by simpa [h.quotedTexts_eq] using hlabels

theorem append (h : ShowsLabels lines labels) (h' : ShowsLabels lines' labels') :
    ShowsLabels (lines ++ lines') (labels ++ labels') where
  closed := List.forall_mem_append.mpr ⟨h.closed, h'.closed⟩
  labels_eq := by rw [List.flatMap_append, List.filter_append, h.labels_eq, h'.labels_eq]

theorem flatMap {α : Type} {xs : List α} {f g : α → List String}
    (h : ∀ x ∈ xs, ShowsLabels (f x) (g x)) : ShowsLabels (xs.flatMap f) (xs.flatMap g) := by
  induction xs with
  | nil => exact nil
  | cons x xs ih =>
    obtain ⟨hx, hxs⟩ := List.forall_mem_cons.mp h
    exact hx.append (ih hxs)

end ShowsLabels

section Labels

variable {rule : String} {count i : Nat}

theorem isPlain_of_isWord {s : String} (h : isWord s.toList = true) : IsPlain s :=
  List.all_eq_true.mp (Lexeme.all_of_isWord h)

def labelNumber (count i : Nat) : List Char :=
  if count = 1 then [] else '-' :: Nat.toDigits 10 (i + 1)

theorem toList_productionLabel (rule : String) (count i : Nat) :
    (productionLabel rule count i).toList = rule.toList ++ labelNumber count i := by
  by_cases hcount : count = 1 <;> simp [productionLabel, labelNumber, hcount]

theorem takeWhile_dropWhile_label {number : List Char} (h : IsPlain rule)
    (hnumber : ∀ c ∈ number.head?, c = '-') :
    (rule.toList ++ number).takeWhile isWordChar = rule.toList ∧
      (rule.toList ++ number).dropWhile isWordChar = number := by
  have hdash : isWordChar '-' = false := by decide
  rw [List.takeWhile_append_of_pos h, List.dropWhile_append_of_pos h]
  match number with
  | [] => simp
  | c :: number =>
    obtain rfl : c = '-' := hnumber c rfl
    simp [hdash]

theorem head_labelNumber (count i : Nat) : ∀ c ∈ (labelNumber count i).head?, c = '-' := by
  by_cases hcount : count = 1 <;> simp [labelNumber, hcount]

/-- Behind the word in a label is nothing, or a dash and a number. -/
theorem isLabel_append {number : List Char} {s : String} (h : isWord rule.toList = true)
    (hs : s.toList = rule.toList ++ number) (hnumber : ∀ c ∈ number.head?, c = '-') :
    isLabel s = (number.isEmpty || (!number.tail.isEmpty && number.tail.all Char.isDigit)) := by
  obtain ⟨htake, hdrop⟩ := takeWhile_dropWhile_label (isPlain_of_isWord h) hnumber
  rw [isLabel, hs, htake, hdrop, h]
  match number with
  | [] => rfl
  | c :: number =>
    obtain rfl : c = '-' := hnumber c rfl
    simp

theorem isLabel_productionLabel (h : isWord rule.toList = true) (count i : Nat) :
    isLabel (productionLabel rule count i) = true := by
  have hdigits : (Nat.toDigits 10 (i + 1)).all Char.isDigit = true :=
    List.all_eq_true.mpr fun _ hc =>
      Nat.isDigit_of_mem_toDigits (by decide) (by decide) hc
  rw [isLabel_append h (toList_productionLabel rule count i) (head_labelNumber count i)]
  by_cases hcount : count = 1
  · simp [labelNumber, hcount]
  · simp [labelNumber, hcount, hdigits, Nat.toDigits_ne_nil]

/-- Behind the first word in the label of a pair are two dashes. -/
theorem isLabel_pairLabel (label : String) (i : Nat) :
    isLabel (Arrangement.pairLabel label i) = false := by
  have hword : isWord "BINRED".toList = true := by decide
  have htext : (Arrangement.pairLabel label i).toList =
      "BINRED".toList ++ '-' :: (Nat.toDigits 10 i ++ '-' :: label.toList) := by
    simp [Arrangement.pairLabel]
  rw [isLabel_append hword htext (by simp)]
  have hdash : Char.isDigit '-' = false := by decide
  simp [hdash]

theorem bare_productionLabel (h : IsPlain rule) (count i : Nat) :
    Bare (productionLabel rule count i) := by
  unfold productionLabel
  split
  · exact h.bare
  · exact bare_append (bare_append h.bare (by decide)) (bare_toString _)

theorem rule_eq_of_productionLabel_eq {rule' : String} {count' i' : Nat} (h : IsPlain rule)
    (h' : IsPlain rule')
    (heq : productionLabel rule count i = productionLabel rule' count' i') : rule = rule' := by
  apply String.toList_inj.mp
  calc
    rule.toList = (productionLabel rule count i).toList.takeWhile isWordChar := by
      rw [toList_productionLabel, (takeWhile_dropWhile_label h (head_labelNumber count i)).1]
    _ = (productionLabel rule' count' i').toList.takeWhile isWordChar := by rw [heq]
    _ = rule'.toList := by
      rw [toList_productionLabel, (takeWhile_dropWhile_label h' (head_labelNumber count' i')).1]

theorem Rule.labels_of_group? {r : Rule} {g : Group} (h : r.group? = some g) :
    r.labels = (List.range g.productions.length).map
      (productionLabel r.name g.productions.length) := by
  simp [labels, h]

theorem Rule.nodup_labels (r : Rule) : r.labels.Nodup := by
  cases hg : r.group? with
  | none => simp [labels, hg]
  | some g =>
    rw [labels_of_group? hg]
    refine (List.nodup_map_iff_inj_on List.nodup_range).mpr fun i hi j hj heq => ?_
    have hi := List.mem_range.mp hi
    have hj := List.mem_range.mp hj
    by_cases hcount : g.productions.length = 1
    · omega
    · simp only [productionLabel, if_neg hcount] at heq
      have hnumber : toString (i + 1) = toString (j + 1) := (String.append_right_inj _).mp heq
      have hsucc : i + 1 = j + 1 := eq_of_toString_eq hnumber
      omega

end Labels

theorem Rule.exists_of_mem_labels {r : Rule} {label : String} (h : label ∈ r.labels) :
    ∃ count i, label = productionLabel r.name count i := by
  cases hg : r.group? with
  | none => simp [labels, hg] at h
  | some g =>
    rw [labels_of_group? hg] at h
    obtain ⟨i, -, rfl⟩ := List.mem_map.mp h
    exact ⟨_, i, rfl⟩

/-- No two productions of a dictionary have the same label. -/
theorem Dictionary.nodup_labels {d : Dictionary} (named : d.Named)
    (hplain : ∀ r ∈ d.rules, IsPlain r.name) : d.labels.Nodup := by
  have hnames : (d.rules.map Rule.name).Nodup := named.keys_eq ▸ d.nodup_keys
  refine List.nodup_flatMap.mpr ⟨fun r _ => r.nodup_labels, ?_⟩
  refine (List.pairwise_map.mp hnames).imp_of_mem fun {r r'} hr hr' hne label hl hl' => hne ?_
  obtain ⟨count, i, rfl⟩ := Rule.exists_of_mem_labels hl
  obtain ⟨count', i', heq⟩ := Rule.exists_of_mem_labels hl'
  exact rule_eq_of_productionLabel_eq (hplain r hr) (hplain r' hr') heq

/-- Pairs have labels of their own, and these are no labels of productions. -/
theorem filter_quoted_nestSeq (a : Arrangement) (label : String) (i : Nat) (part : String)
    (parts : List String) :
    (Expression.nestSeq (a.pairLabel? label) i (.name part)
      (parts.map .name)).quoted.filter isLabel = [] := by
  induction parts generalizing i part with
  | nil => rfl
  | cons next parts ih =>
    have hpair : (a.pairLabel? label i).toList.filter isLabel = [] := by
      unfold Arrangement.pairLabel?
      split <;> simp [isLabel_pairLabel]
    simp [Expression.nestSeq, Expression.quoted, Expression.quotedAll, hpair, ih]

theorem filter_quoted_production (a : Arrangement) {label : String}
    (hl : isLabel label = true) (parts : List String) :
    (a.production label (parts.map .name)).quoted.filter isLabel = [label] := by
  have hone : [label].filter isLabel = [label] := by simp [hl]
  have hnames := Expression.quotedAll_names parts
  refine Arrangement.production_cases (P := fun x => x.quoted.filter isLabel = [label]) a label
    parts ?_ ?_ ?_ ?_ ?_ ?_
  · intro _ _
    simp [Expression.quoted, hnames, hl]
  · exact fun _ _ => hone
  · exact fun _ _ _ => hone
  · exact fun _ _ _ _ => hone
  · intro _
    simp [Expression.quoted, hnames, Action.label, hl]
  · intro p q rest _ _
    have hnest := filter_quoted_nestSeq a label 1 p (q :: rest)
    rw [Expression.quoted, List.filter_cons, hnest]
    exact if_pos hl

end GrammarForge
