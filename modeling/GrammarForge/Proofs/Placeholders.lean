import GrammarForge.Proofs.LabelSequence

/-!
Texts with placeholders, which are names between braces. Where no text that is put in has an opening
brace, replacing the placeholders one after the other comes to the same as replacing all of them at
once.
-/

namespace GrammarForge

namespace Text

/-- Each pattern of the table replaced by its text, from left to right. The first `skip` characters
belong to a pattern that has been replaced, and what is put in is not looked at again. -/
def replaceFrom (table : List (List Char × List Char)) : Nat → List Char → List Char
  | _, [] => []
  | skip + 1, _ :: cs => replaceFrom table skip cs
  | 0, c :: cs =>
    match table.find? fun entry => entry.1.isPrefixOf (c :: cs) with
    | some (pattern, text) => text ++ replaceFrom table (pattern.length - 1) cs
    | none => c :: replaceFrom table 0 cs

/-- All patterns of the table replaced at once. -/
def replaceEach (table : List (String × String)) (s : String) : String :=
  String.ofList (replaceFrom (table.map fun e => (e.1.toList, e.2.toList)) 0 s.toList)

def replace (pattern text s : String) : String := replaceEach [(pattern, text)] s

def placeholder (name : String) : String := "\x7b" ++ name ++ "\x7d"

def Unbraced (s : String) : Prop := '\x7b' ∉ s.toList

instance : DecidablePred Unbraced := fun _ => inferInstanceAs (Decidable (_ ∉ _))

/-- What can stand on a line of a template without being a placeholder. -/
def IsInline (s : String) : Prop := Unbraced s ∧ '\n' ∉ s.toList

instance : DecidablePred IsInline := fun _ => inferInstanceAs (Decidable (_ ∧ _))

theorem isInline_append_iff {s t : String} : IsInline (s ++ t) ↔ IsInline s ∧ IsInline t := by
  simp only [IsInline, Unbraced, String.toList_append, List.mem_append, not_or]
  exact and_and_and_comm

theorem IsPlain.isInline {s : String} (h : IsPlain s) : IsInline s :=
  ⟨fun hc => absurd (h _ hc) (by decide), fun hc => absurd (h _ hc) (by decide)⟩

end Text

/-- A line of a template, with the name of what is to be put in at its end. -/
structure TemplateLine where
  text : String
  slot? : Option String
deriving DecidableEq, Repr

namespace TemplateLine

/-- The line with what the table has for its slot. One that is not in the table stays open. -/
def fill (table : List (String × String)) (line : TemplateLine) : String :=
  match line.slot? with
  | none => line.text ++ "\n"
  | some name => line.text ++ ((table.lookup name).getD (Text.placeholder name) ++ "\n")

def fillAll (table : List (String × String)) (template : List TemplateLine) : String :=
  String.join (template.map (fill table))

structure IsClean (line : TemplateLine) : Prop where
  text : Text.IsInline line.text
  slot : ∀ name ∈ line.slot?, Text.IsPlain name

end TemplateLine

namespace Text

def placeholders (table : List (String × String)) : List (String × String) :=
  table.map fun e => (placeholder e.1, e.2)

section Replacing

variable {table : List (String × String)} {entries : List (List Char × List Char)}
  {name : String}

theorem replaceFrom_skip (w rest : List Char) :
    replaceFrom entries w.length (w ++ rest) = replaceFrom entries 0 rest := by
  induction w with
  | nil => rfl
  | cons c w ih => exact ih

/-- Where no pattern begins, the text stays. -/
theorem replaceFrom_append {w : List Char} (h : ∀ e ∈ entries, e.1.head? = some '\x7b')
    (hw : '\x7b' ∉ w) (rest : List Char) :
    replaceFrom entries 0 (w ++ rest) = w ++ replaceFrom entries 0 rest := by
  induction w with
  | nil => rfl
  | cons c w ih =>
    obtain ⟨hc, hw⟩ := List.ne_and_not_mem_of_not_mem_cons hw
    have hnone : entries.find? (fun e => e.1.isPrefixOf (c :: (w ++ rest))) = none := by
      refine List.find?_eq_none.mpr fun e he hprefix => hc ?_
      obtain ⟨behind, hbehind⟩ := List.isPrefixOf_iff_prefix.mp hprefix
      have hhead := h e he
      cases hpattern : e.1 with
      | nil => simp [hpattern] at hhead
      | cons d ds =>
        rw [hpattern] at hhead hbehind
        cases hhead
        exact (List.cons.inj hbehind).1
    rw [List.cons_append, replaceFrom, hnone, ih hw]
    rfl

theorem toList_placeholder (name : String) :
    (placeholder name).toList = '\x7b' :: (name.toList ++ ['\x7d']) := by
  simp [placeholder]

/-- No placeholder is the beginning of another. -/
theorem placeholder_isPrefixOf_iff {other : String} (h : IsPlain name) (hother : IsPlain other)
    (rest : List Char) :
    (placeholder other).toList.isPrefixOf ((placeholder name).toList ++ rest) = true ↔
      other = name := by
  have hword : ∀ {s : String}, IsPlain s → ∀ behind,
      (s.toList ++ '\x7d' :: behind).takeWhile isWordChar = s.toList := by
    intro s hs behind
    rw [List.takeWhile_append_of_pos hs, List.takeWhile_cons_of_neg (by decide), List.append_nil]
  rw [List.isPrefixOf_iff_prefix]
  constructor
  · rintro ⟨behind, hbehind⟩
    simp only [toList_placeholder, List.cons_append, List.append_assoc, List.cons.injEq, true_and,
      List.nil_append] at hbehind
    have hwords := congrArg (List.takeWhile isWordChar) hbehind
    rw [hword hother, hword h] at hwords
    exact String.toList_inj.mp hwords
  · rintro rfl
    exact List.prefix_append _ _

def patterns (table : List (String × String)) : List (List Char × List Char) :=
  table.map fun e => ((placeholder e.1).toList, e.2.toList)

theorem replaceEach_placeholders (table : List (String × String)) (s : String) :
    replaceEach (placeholders table) s =
      String.ofList (replaceFrom (patterns table) 0 s.toList) := by
  rw [replaceEach, placeholders, List.map_map]
  rfl

theorem head?_of_mem_patterns : ∀ e ∈ patterns table, e.1.head? = some '\x7b' := by
  intro e he
  obtain ⟨x, -, rfl⟩ := List.mem_map.mp he
  simp [toList_placeholder]

theorem find?_patterns (hname : IsPlain name) (htable : ∀ e ∈ table, IsPlain e.1)
    (rest : List Char) :
    (patterns table).find? (fun e => e.1.isPrefixOf ((placeholder name).toList ++ rest)) =
      (table.lookup name).map fun text => ((placeholder name).toList, text.toList) := by
  induction table with
  | nil => rfl
  | cons e table ih =>
    obtain ⟨other, text⟩ := e
    obtain ⟨hother, htable⟩ := List.forall_mem_cons.mp htable
    by_cases hsame : other = name
    · subst hsame
      have hprefix := (placeholder_isPrefixOf_iff hname hname rest).mpr rfl
      simp [patterns, hprefix]
    · have hprefix := mt (placeholder_isPrefixOf_iff hname hother rest).mp hsame
      rw [patterns, List.map_cons, List.find?_cons, Bool.eq_false_iff.mpr hprefix,
        List.lookup_cons, beq_false_of_ne (Ne.symm hsame)]
      exact ih htable

theorem replaceFrom_placeholder (hname : IsPlain name) (htable : ∀ e ∈ table, IsPlain e.1)
    (rest : List Char) :
    replaceFrom (patterns table) 0 ((placeholder name).toList ++ rest) =
      ((table.lookup name).getD (placeholder name)).toList ++
        replaceFrom (patterns table) 0 rest := by
  have hfind := find?_patterns hname htable rest
  rw [toList_placeholder, List.cons_append] at hfind ⊢
  rw [replaceFrom, hfind]
  cases table.lookup name with
  | some text =>
    exact congrArg (text.toList ++ ·) (replaceFrom_skip (name.toList ++ ['\x7d']) rest)
  | none =>
    have hunbraced : '\x7b' ∉ name.toList := hname.isInline.1
    have hbehind : '\x7b' ∉ name.toList ++ ['\x7d'] := by simp [hunbraced]
    have hrest : replaceFrom (patterns table) 0 (name.toList ++ ['\x7d'] ++ rest) =
        name.toList ++ ['\x7d'] ++ replaceFrom (patterns table) 0 rest :=
      replaceFrom_append head?_of_mem_patterns hbehind rest
    rw [Option.getD_none, toList_placeholder]
    exact congrArg ('\x7b' :: ·) hrest

end Replacing

end Text

namespace TemplateLine

open Text

variable {table done : List (String × String)} {line : TemplateLine} {template : List TemplateLine}

/-- What is put in first stays when the rest of the slots are filled. -/
theorem replaceFrom_fill (hline : line.IsClean) (hdone : ∀ e ∈ done, Unbraced e.2)
    (htable : ∀ e ∈ table, IsPlain e.1) (rest : List Char) :
    replaceFrom (patterns table) 0 ((line.fill done).toList ++ rest) =
      (line.fill (done ++ table)).toList ++ replaceFrom (patterns table) 0 rest := by
  have hplain : ∀ {w : List Char}, '\x7b' ∉ w → ∀ rest,
      replaceFrom (patterns table) 0 (w ++ rest) = w ++ replaceFrom (patterns table) 0 rest :=
    fun hw => replaceFrom_append head?_of_mem_patterns hw
  have hend := hplain (by decide : '\x7b' ∉ "\n".toList) rest
  obtain ⟨text, _ | name⟩ := line
  · simp only [fill, String.toList_append, List.append_assoc]
    rw [hplain hline.text.1, hend]
  · simp only [fill, String.toList_append, List.append_assoc, List.lookup_append]
    rw [hplain hline.text.1]
    -- a slot is filled already, or it is still a placeholder in the text
    cases hlookup : done.lookup name with
    | some text =>
      obtain ⟨before, behind, rfl, -⟩ := List.lookup_eq_some_iff.mp hlookup
      have htext := hdone (name, text) (by simp)
      simp only [Option.getD_some, Option.some_or]
      rw [hplain htext, hend]
    | none =>
      simp only [Option.getD_none, Option.none_or]
      rw [replaceFrom_placeholder (hline.slot name rfl) htable, hend]

theorem replaceEach_fillAll (htemplate : ∀ line ∈ template, line.IsClean)
    (hdone : ∀ e ∈ done, Unbraced e.2) (htable : ∀ e ∈ table, IsPlain e.1) :
    replaceEach (placeholders table) (fillAll done template) =
      fillAll (done ++ table) template := by
  rw [replaceEach_placeholders]
  apply String.toList_inj.mp
  rw [String.toList_ofList]
  induction template with
  | nil => rfl
  | cons line template ih =>
    obtain ⟨hline, htemplate⟩ := List.forall_mem_cons.mp htemplate
    simp only [fillAll, List.map_cons, String.join_cons, String.toList_append] at ih ⊢
    rw [replaceFrom_fill hline hdone htable, ih htemplate]

/-- One after the other, the placeholders are replaced as if all at once. -/
theorem foldl_replace_fillAll (htemplate : ∀ line ∈ template, line.IsClean)
    (hdone : ∀ e ∈ done, Unbraced e.2) (htable : ∀ e ∈ table, IsPlain e.1 ∧ Unbraced e.2) :
    (placeholders table).foldl (fun s e => replace e.1 e.2 s) (fillAll done template) =
      fillAll (done ++ table) template := by
  -- an entry that has been put in joins `done`, where no later placeholder finds a brace
  induction table generalizing done with
  | nil => rw [List.append_nil, placeholders, List.map_nil, List.foldl_nil]
  | cons e table ih =>
    obtain ⟨he, htable⟩ := List.forall_mem_cons.mp htable
    have hfirst : replace (placeholder e.1) e.2 (fillAll done template) =
        fillAll (done ++ [e]) template :=
      replaceEach_fillAll htemplate hdone (List.forall_mem_singleton.mpr he.1)
    have hdone' : ∀ e' ∈ done ++ [e], Unbraced e'.2 :=
      List.forall_mem_append.mpr ⟨hdone, List.forall_mem_singleton.mpr he.2⟩
    have hrest := ih hdone' htable
    rw [List.append_assoc] at hrest
    rw [placeholders, List.map_cons, List.foldl_cons, hfirst]
    exact hrest

end TemplateLine

end GrammarForge
