import GrammarForge.Proofs.QuotedTexts

/-!
The names that generated parsers use. A name is a word outside of the quotes. Whatever the notation,
those in the text of an expression are the names of its parts, from left to right.
-/

namespace GrammarForge

namespace Text

def keptWord (keep : List Char → Bool) (word : List Char) : List String :=
  if keep word.reverse then [String.ofList word.reverse] else []

/-- The words to keep outside of double quotes, in reading order. A word goes on for as long as
there are letters, digits and underscores; what has been read of it is kept backwards. Inside of
quotes there is none. -/
def wordsFrom (keep : List Char → Bool) : Option (List Char) → List Char → List String
  | none, [] => []
  | none, c :: cs => wordsFrom keep (if c = '\x22' then some [] else none) cs
  | some word, [] => keptWord keep word
  | some word, c :: cs =>
    if isWordChar c then wordsFrom keep (some (c :: word)) cs
    else keptWord keep word ++ wordsFrom keep (if c = '\x22' then none else some []) cs

def words (keep : List Char → Bool) (line : String) : List String :=
  wordsFrom keep (some []) line.toList

/-- A stretch of a line with the words to keep in it, where the word at its end is over. -/
def HasWords (keep : List Char → Bool) (s : String) (ws : List String) : Prop :=
  ∀ rest, (∀ c ∈ rest.head?, isWordChar c = false) →
    wordsFrom keep (some []) (s.toList ++ rest) = ws ++ wordsFrom keep (some []) rest

section Words

variable {keep : List Char → Bool} {s : String} {ws : List String}

theorem HasWords.words_eq (hnil : keep [] = false) (h : HasWords keep s ws) :
    words keep s = ws := by
  simpa [words, wordsFrom, keptWord, hnil] using h [] (by simp)

theorem wordsFrom_quoted (hs : '\x22' ∉ s.toList) (rest : List Char) :
    wordsFrom keep none (s.toList ++ '\x22' :: rest) = wordsFrom keep (some []) rest := by
  have hskip : ∀ cs, '\x22' ∉ cs →
      wordsFrom keep none (cs ++ '\x22' :: rest) = wordsFrom keep (some []) rest := by
    intro cs hcs
    induction cs with
    | nil => simp [wordsFrom]
    | cons c cs ih =>
      obtain ⟨hc, hcs⟩ : '\x22' ≠ c ∧ '\x22' ∉ cs := by simpa using hcs
      rw [List.cons_append, wordsFrom, if_neg hc.symm, ih hcs]
  exact hskip s.toList hs

theorem HasWords.cons (h : HasWords keep s ws) {c : Char} (hc : isWordChar c = false)
    (rest : List Char) :
    wordsFrom keep (some []) (s.toList ++ c :: rest) =
      ws ++ wordsFrom keep (some []) (c :: rest) :=
  h _ (by simpa using hc)

theorem IsPlain.hasWords (hnil : keep [] = false) (h : IsPlain s) :
    HasWords keep s (if keep s.toList then [s] else []) := by
  intro rest hrest
  have hread : ∀ read cs, (∀ c ∈ cs, isWordChar c = true) →
      wordsFrom keep (some read) (cs ++ rest) =
        keptWord keep (cs.reverse ++ read) ++ wordsFrom keep (some []) rest := by
    intro read cs hcs
    induction cs generalizing read with
    | nil =>
      have hempty : keptWord keep [] = [] := by simp [keptWord, hnil]
      match rest with
      | [] => rw [List.nil_append, wordsFrom, wordsFrom, hempty, List.append_nil]; rfl
      | c :: rest =>
        have hc : ¬ isWordChar c = true := by simp [hrest c rfl]
        rw [List.nil_append, wordsFrom, wordsFrom, if_neg hc, if_neg hc, hempty]
        rfl
    | cons c cs ih =>
      obtain ⟨hc, hcs⟩ := List.forall_mem_cons.mp hcs
      rw [List.cons_append, wordsFrom, if_pos hc, ih _ hcs, List.reverse_cons, List.append_assoc]
      rfl
  rw [hread [] s.toList h]
  simp [keptWord]

end Words

end Text

open Text

mutual

def Expression.names : Expression → List String
  | .name bound => [bound]
  | .token .. | .empty _ => []
  | .reduce _ x => x.names
  | .seq _ xs => Expression.namesAll xs
  | .alt xs => Expression.namesAll xs
termination_by structural x => x

def Expression.namesAll : List Expression → List String
  | [] => []
  | x :: xs => x.names ++ Expression.namesAll xs
termination_by structural xs => xs

end

theorem Expression.namesAll_eq_flatMap (xs : List Expression) :
    namesAll xs = xs.flatMap names := by
  induction xs with
  | nil => rfl
  | cons x xs ih => simp [namesAll, ih]

section Notation

/-- Words to keep are unlike those of the notation. -/
structure Text.Distinctive (keep : List Char → Bool) : Prop where
  nil : keep [] = false
  cons : ∀ c cs, c ≠ 'p' → keep (c :: cs) = false

variable {keep : List Char → Bool} {tree : String}

theorem Text.Distinctive.wordsFrom_number (hkeep : Distinctive keep) (n : Nat) {c : Char}
    (hc : isWordChar c = false) (rest : List Char) :
    wordsFrom keep (some []) (Nat.toDigits 10 n ++ c :: rest) =
      wordsFrom keep (some []) (c :: rest) := by
  have hnone : keep (Nat.toDigits 10 n) = false := by
    cases hdigits : Nat.toDigits 10 n with
    | nil => exact hkeep.nil
    | cons d ds =>
      have hdigit : d.isDigit = true := Nat.isDigit_of_mem_toDigits (b := 10) (n := n) (by decide)
        (by decide) (hdigits ▸ List.mem_cons_self)
      refine hkeep.cons d ds ?_
      rintro rfl
      exact absurd hdigit (by decide)
  have hwords := ((isPlain_toString n).hasWords hkeep.nil).cons hc rest
  simpa [hnone] using hwords

theorem Action.Written.hasWords {f : String} {a : Action} (h : Action.Written tree f a)
    (hkeep : Distinctive keep) (htree : HasWords keep tree []) (ha : Bare a.label) :
    HasWords keep f [] := by
  cases h with
  | wrap label | relabelPair label | relabel label | flatten depth label =>
    have hl : Bare label := ha
    intro rest hrest
    simp [toString, wordsFrom, keptWord, isWordChar, wordsFrom_quoted hl.1, hkeep.nil, hkeep.cons,
      htree.cons, hkeep.wordsFrom_number]

theorem hasWords_intercalate {sep : String}
    (hsep : ∀ rest, wordsFrom keep (some []) (sep.toList ++ rest) = wordsFrom keep (some []) rest)
    (hhead : ∀ rest, ∀ c ∈ (sep.toList ++ rest).head?, isWordChar c = false)
    {ts : List String} {wss : List (List String)} (h : List.Forall₂ (HasWords keep) ts wss) :
    HasWords keep (sep.intercalate ts) wss.flatten := by
  induction h with
  | nil => exact fun _ _ => rfl
  | @cons t ws ts wss ht h ih =>
    cases h with
    | nil => simpa using ht
    | @cons t' ws' ts' wss' ht' h' =>
      intro rest hrest
      have hitems := ih rest hrest
      have hfirst := ht (sep.toList ++ ((sep.intercalate (t' :: ts')).toList ++ rest)) (hhead _)
      rw [hsep, hitems] at hfirst
      simpa [String.intercalate_cons_cons] using hfirst

theorem hasWords_listed {ts : List String} {xs : List Expression} (hnil : keep [] = false)
    (h : List.Forall₂ (fun t x => HasWords keep t x.names) ts xs) :
    HasWords keep (listed ts) (Expression.namesAll xs) := by
  rw [Expression.namesAll_eq_flatMap, List.flatMap_def]
  refine hasWords_intercalate (fun rest => ?_) ?_ (List.forall₂_map_right_iff.mpr h)
  · simp [wordsFrom, keptWord, isWordChar, hnil]
  · simp [isWordChar]

theorem exists_hasWords_pair {s t : String} {xs : List Expression}
    (h : List.Forall₂ (fun t x => HasWords keep t x.names) [s, t] xs) :
    ∃ ws vs, HasWords keep s ws ∧ HasWords keep t vs ∧ Expression.namesAll xs = ws ++ vs := by
  match h with
  | .cons hx (.cons hy .nil) => exact ⟨_, _, hx, hy, by simp [Expression.namesAll]⟩

/-- The names in the text of an expression are those of its parts. -/
theorem Expression.Written.hasWords {ts : List String} {xs : List Expression}
    (h : Written (fun part => HasWords keep part [part]) tree ts xs) (hkeep : Distinctive keep)
    (htree : HasWords keep tree []) (hxs : Expression.AllBare xs) :
    List.Forall₂ (fun t x => HasWords keep t x.names) ts xs := by
  have hone : ∀ {t x}, HasWords keep t x.names →
      List.Forall₂ (fun t x => HasWords keep t (names x)) [t] [x] := fun h => .cons h .nil
  induction h with
  | nil => exact .nil
  | cons _ _ ihx ihxs =>
    exact .cons (List.forall₂_cons.mp (ihx ⟨hxs.1, trivial⟩)).1 (ihxs hxs.2)
  | name hpart => exact hone hpart
  | memo _ ih | delayed _ ih =>
    have hx := (List.forall₂_cons.mp (ih hxs)).1
    refine hone fun rest hrest => ?_
    simp [toString, wordsFrom, keptWord, isWordChar, hkeep.nil, hkeep.cons, hx.cons]
  | tok tag label | makeTok tag label | tokNode tag label =>
    have hl : Bare label := hxs.1
    refine hone fun rest hrest => ?_
    simp [toString, wordsFrom, keptWord, isWordChar, wordsFrom_quoted hl.1, hkeep.nil, hkeep.cons,
      hkeep.wordsFrom_number, names]
  | eps label | epsLeaf label | epsNode label =>
    have hl : Bare label := hxs.1
    refine hone fun rest hrest => ?_
    simp [toString, wordsFrom, keptWord, isWordChar, wordsFrom_quoted hl.1, hkeep.nil, hkeep.cons,
      htree.cons, names]
  | red hf _ ih =>
    have hf := hf.hasWords hkeep htree hxs.1.1
    have hx := (List.forall₂_cons.mp (ih ⟨hxs.1.2, trivial⟩)).1
    refine hone fun rest hrest => ?_
    simp [toString, wordsFrom, keptWord, isWordChar, hkeep.nil, hkeep.cons, hf.cons, hx.cons, names]
  | @redFlatten depth label s x _ ih =>
    have hl : Bare label := hxs.1.1
    have hx := (List.forall₂_cons.mp (ih ⟨hxs.1.2, trivial⟩)).1
    refine hone fun rest hrest => ?_
    simp [toString, wordsFrom, keptWord, isWordChar, wordsFrom_quoted hl.1, hkeep.nil, hkeep.cons,
      hkeep.wordsFrom_number, hx.cons, names]
  | redChild hf _ ih | redChildren hf _ ih =>
    have hf := hf.hasWords hkeep htree hxs.1.1
    have hx := (List.forall₂_cons.mp (ih ⟨hxs.1.2, trivial⟩)).1
    refine hone fun rest hrest => ?_
    simp [nodeRecord, toString, wordsFrom, keptWord, isWordChar, hkeep.nil, hkeep.cons, hf.cons,
      hx.cons, names]
  | @seqPair label s t xs _ ih =>
    have hl : Bare label := hxs.1.1 label rfl
    obtain ⟨ws, vs, hs, ht, hnames⟩ := exists_hasWords_pair (ih hxs.1.2)
    refine hone fun rest hrest => ?_
    simp [toString, wordsFrom, keptWord, isWordChar, wordsFrom_quoted hl.1, hkeep.nil, hkeep.cons,
      hs.cons, ht.cons, names, hnames]
  | @seqList label ts xs _ ih | @makeSeq label ts xs _ ih =>
    have hl : Bare label := hxs.1.1 label rfl
    have hts := hasWords_listed hkeep.nil (ih hxs.1.2)
    refine hone fun rest hrest => ?_
    simp [toString, wordsFrom, keptWord, isWordChar, wordsFrom_quoted hl.1, hkeep.nil, hkeep.cons,
      hts.cons, names]
  | seqChild _ ih =>
    obtain ⟨ws, vs, hs, ht, hnames⟩ := exists_hasWords_pair (ih hxs.1.2)
    refine hone fun rest hrest => ?_
    simp [nodeRecord, toString, wordsFrom, keptWord, isWordChar, hkeep.nil, hkeep.cons, hs.cons,
      ht.cons, names, hnames]
  | seqChildren _ ih =>
    have hts := hasWords_listed hkeep.nil (ih hxs.1.2)
    refine hone fun rest hrest => ?_
    simp [nodeRecord, toString, wordsFrom, keptWord, isWordChar, hkeep.nil, hkeep.cons, hts.cons,
      names]
  | altPair _ ih | altRefs _ ih | altChild _ ih =>
    obtain ⟨ws, vs, hs, ht, hnames⟩ := exists_hasWords_pair (ih hxs.1)
    refine hone fun rest hrest => ?_
    simp [nodeRecord, toString, wordsFrom, keptWord, isWordChar, hkeep.nil, hkeep.cons, hs.cons,
      ht.cons, names, hnames]
  | altList _ ih | altRef _ ih | makeAlt _ ih | altChildren _ ih =>
    have hts := hasWords_listed hkeep.nil (ih hxs.1)
    refine hone fun rest hrest => ?_
    simp [nodeRecord, toString, wordsFrom, keptWord, isWordChar, hkeep.nil, hkeep.cons, hts.cons,
      names]

end Notation

namespace Expression

theorem namesAll_names (parts : List String) : namesAll (parts.map .name) = parts := by
  simp [namesAll_eq_flatMap, List.flatMap_map, names]

theorem names_nestAlt (x : Expression) (xs : List Expression) :
    (nestAlt x xs).names = (x :: xs).flatMap names := by
  induction xs generalizing x with
  | nil => simp [nestAlt]
  | cons y rest ih => simp [nestAlt, names, namesAll, ih]

theorem names_nestSeq (label? : Nat → Option String) (i : Nat) (part : String)
    (parts : List String) :
    (nestSeq label? i (.name part) (parts.map .name)).names = part :: parts := by
  induction parts generalizing i part with
  | nil => rfl
  | cons next parts ih => simp [nestSeq, names, namesAll, ih]

end Expression

namespace Arrangement

/-- However a choice is nested, its names are those of its alternatives, in order. -/
theorem names_choice (a : Arrangement) (xs : List Expression) :
    (a.choice xs).names = xs.flatMap Expression.names :=
  choice_cases (P := fun xs x => x.names = xs.flatMap Expression.names) a xs
    (fun _ => by simp) Expression.namesAll_eq_flatMap Expression.names_nestAlt

theorem names_production (a : Arrangement) (label : String) (parts : List String) :
    (a.production label (parts.map .name)).names = parts := by
  refine production_cases (P := fun x => x.names = parts) a label parts ?_ ?_ ?_ ?_ ?_ ?_
  · intro _ _
    exact Expression.namesAll_names parts
  · rintro _ rfl
    rfl
  · rintro p _ rfl
    rfl
  · rintro p q _ rfl
    rfl
  · intro _
    exact Expression.namesAll_names parts
  · rintro p q rest _ rfl
    exact Expression.names_nestSeq _ 1 p (q :: rest)

end Arrangement

end GrammarForge
