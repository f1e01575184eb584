import GrammarForge.Proofs.Bindings
import GrammarForge.Proofs.Classification
import GrammarForge.Proofs.Placeholders
import GrammarForge.Proofs.TokenTags

/-!
The token module as a template with five placeholders. What is put in for them is made of names,
tags and fixed words, so it has no braces and no line ends, whatever the terminals of a grammar are.
-/

namespace GrammarForge

open Text

namespace TokenModule

/-- What stands for a name in the template: items, and the opening of all lines but the first. -/
structure Section where
  name : String
  next : String
  items : List String

namespace Section

def text (s : Section) : String := ("\n" ++ s.next).intercalate s.items

structure IsClean (s : Section) : Prop where
  name : IsPlain s.name
  next : IsInline s.next
  items : ∀ item ∈ s.items, IsInline item

theorem IsClean.unbraced_text {s : Section} (h : s.IsClean) : Unbraced s.text := by
  have hsep : Unbraced ("\n" ++ s.next) := by simpa [Unbraced] using h.next.1
  intro hbrace
  rcases FileDialect.mem_intercalate hbrace with hbrace | ⟨item, hitem, hbrace⟩
  · exact hsep hbrace
  · exact (h.items item hitem).1 hbrace

end Section

def entries (sections : List Section) : List (String × String) :=
  sections.map fun s => (s.name, s.text)

/-- The lines that a line of the template becomes. -/
def expand (sections : List Section) (line : TemplateLine) : List String :=
  match line.slot? with
  | none => [line.text]
  | some name =>
    match sections.find? fun s => s.name == name with
    | some s => clauses line.text s.next s.items
    | none => [line.text ++ placeholder name]

section Lines

variable {sections : List Section} {template : List TemplateLine}

theorem lookup_entries (sections : List Section) (name : String) :
    (entries sections).lookup name =
      (sections.find? fun s => s.name == name).map Section.text := by
  induction sections with
  | nil => rfl
  | cons s sections ih =>
    rw [entries, List.map_cons, List.lookup_cons, List.find?_cons, BEq.comm (a := name)]
    cases s.name == name with
    | true => rfl
    | false => exact ih

theorem lines_clauses {first next : String} {items : List String} (hfirst : IsInline first)
    (hnext : IsInline next) (hitems : ∀ item ∈ items, IsInline item) (behind : String) :
    lines (first ++ (("\n" ++ next).intercalate items ++ ("\n" ++ behind))) =
      clauses first next items ++ lines behind := by
  cases items with
  | nil => simpa [clauses] using lines_append hfirst.2 behind
  | cons item items =>
    exact lines_intercalate hnext.2 hfirst.2 (fun b hb => (hitems b hb).2) behind

theorem lines_fill {line : TemplateLine} (hsections : ∀ s ∈ sections, s.IsClean)
    (hline : line.IsClean) (behind : String) :
    lines (line.fill (entries sections) ++ behind) = expand sections line ++ lines behind := by
  obtain ⟨text, _ | name⟩ := line
  · simp only [TemplateLine.fill, expand, String.append_assoc]
    exact lines_append hline.text.2 behind
  · simp only [TemplateLine.fill, expand, String.append_assoc, lookup_entries]
    cases hfind : sections.find? fun s => s.name == name with
    | some s =>
      have hs := hsections s (List.mem_of_find?_eq_some hfind)
      exact lines_clauses hline.text hs.next hs.items behind
    | none =>
      have hopen : '\n' ∉ (text ++ placeholder name).toList := by
        have hname : '\n' ∉ name.toList := (hline.slot name rfl).isInline.2
        have htext : '\n' ∉ text.toList := hline.text.2
        simp [toList_placeholder, hname, htext]
      rw [Option.map_none, Option.getD_none, ← String.append_assoc]
      exact lines_append hopen behind

theorem lines_fillAll (hsections : ∀ s ∈ sections, s.IsClean)
    (htemplate : ∀ line ∈ template, line.IsClean) :
    lines (TemplateLine.fillAll (entries sections) template) =
      template.flatMap (expand sections) ++ [""] := by
  induction template with
  | nil => exact (by decide : lines "" = [""])
  | cons line template ih =>
    obtain ⟨hline, htemplate⟩ := List.forall_mem_cons.mp htemplate
    rw [TemplateLine.fillAll, List.map_cons, String.join_cons, lines_fill hsections hline,
      List.flatMap_cons, List.append_assoc, ← ih htemplate]
    rfl

end Lines

def plain (text : String) : TemplateLine := ⟨text, none⟩

def template : List TemplateLine :=
  ["open Core",
    "",
    "type ast = Pyast.ast",
    "",
    "type tag = int",
    "type lab = string",
    "type token_pair = (tag * lab)",
    "",
    "type token ="].map plain ++
  [⟨"    | ", some "token_type_def"⟩] ++
  ["",
    "let string_of_token (t : token) : string =",
    "    match t with"].map plain ++
  [⟨"    | ", some "string_of_token_clauses"⟩] ++
  ["",
    "let token_pair_of_token (t : token) : token_pair =",
    "    match t with"].map plain ++
  [⟨"    | ", some "token_pair_of_token_clauses"⟩] ++
  ["",
    "let string_token_assoc : (string * token) list ="].map plain ++
  [⟨"    [ ", some "string_token_assoc_elements"⟩] ++
  ["    ]",
    "",
    "let token_of_string (s : string) : token =",
    "    let pat_match (pat : string) : bool = Str.string_match (Str.regexp pat) s 0 in",
    "    let matched (s : string) : string = Str.matched_group 1 s in"].map plain ++
  [⟨"    if ", some "token_of_string_patterns"⟩] ++
  ["    else try  List.Assoc.find_exn ~equal:String.equal string_token_assoc s",
    "         with Not_found -> failwith (\"Could not find token '\" ^ s ^ " ++
      "\"' in string_token_assoc.\")",
    "",
    "let token_pair_of_string (s : string) : token_pair = " ++
      "token_pair_of_token (token_of_string s)"].map plain

/-- One item for each name: those of the named tokens, of the nameless ones and of those with a
text. -/
def itemPerName (v : Vocabulary) (untyped : String → String) (typed : String → String → String) :
    List String :=
  v.named.map untyped ++ v.nameless.map untyped ++ v.typed.map fun t => typed t.1 t.2

def pairClauses (v : Vocabulary) (tag : String → Nat) : List String :=
  itemPerName v (fun name => name ++ "_ -> (" ++ toString (tag name) ++ ", \"" ++ name ++ "\")")
    fun name _ => name ++ "_ s -> (" ++ toString (tag name) ++ ", s)"

/-- The tokens that are told by a test, and the tests. -/
def testTable : List (String × String) :=
  [("NEWLINE", "pat_match \"^NEWLINE$\" then NEWLINE_"),
    ("INDENT", "pat_match \"^INDENT$\" then INDENT_"),
    ("DEDENT", "pat_match \"^DEDENT$\" then DEDENT_"),
    ("ENDMARKER", "pat_match \"^ENDMARKER$\" then ENDMARKER_"),
    ("NAME", "pat_match \"^NAME \\\"\\\\(.*\\\\)\\\"$\" then NAME_ (matched s)"),
    ("NUMBER", "pat_match \"^NUMBER \\\"\\\\(.*\\\\)\\\"$\" then NUMBER_ (matched s)"),
    ("STRING", "pat_match \"^STRING \\\"\\\\(.*\\\\)\\\"$\" then STRING_ (matched s)")]

/-- One test for each of these tokens that the vocabulary holds. -/
def tests (v : Vocabulary) : List String :=
  match testTable.filter fun t => v.all.contains t.1 with
  | [] => ["false then assert false"]
  | t :: ts => (t :: ts).map Prod.snd

def sections (v : Vocabulary) (tag : String → Nat) : List Section :=
  [⟨"token_type_def", "    | ",
      itemPerName v (fun name => name ++ "_") fun name type => name ++ "_ of " ++ type⟩,
    ⟨"string_of_token_clauses", "    | ",
      itemPerName v (fun name => name ++ "_ -> \"" ++ name ++ "\"") fun name _ =>
        name ++ "_ s -> s"⟩,
    ⟨"token_pair_of_token_clauses", "    | ", pairClauses v tag⟩,
    ⟨"string_token_assoc_elements", "    ; ",
      (v.named ++ v.nameless).map fun name => "(\"" ++ name ++ "\", " ++ name ++ "_)"⟩,
    ⟨"token_of_string_patterns", "    else if ", tests v⟩]

theorem isClean_of_mem_template : ∀ line ∈ template, line.IsClean := by
  have hchecked : ∀ line ∈ template, IsInline line.text ∧
      (line.slot?.all fun name => name.toList.all isWordChar) = true := by decide +kernel
  intro line hline
  obtain ⟨htext, hslot⟩ := hchecked line hline
  refine ⟨htext, fun name hname => ?_⟩
  rw [hname] at hslot
  exact List.all_eq_true.mp hslot

theorem itemPerName_eq (v : Vocabulary) (untyped : String → String)
    (typed : String → String → String) :
    itemPerName v untyped typed = v.untyped.map untyped ++ v.typed.map fun t => typed t.1 t.2 := by
  rw [itemPerName, Vocabulary.untyped, List.map_append]

/-- The tests are made for the kinds of the token table, in its order. -/
theorem patterns_eq (v : Vocabulary) : patterns v = tests v := by
  have htable : testTable = (Token.Kind.all.filter Token.Kind.isLayout ++
      Token.Kind.all.filter Token.Kind.carriesText).map fun k => (k.label, pattern k) := by
    decide +kernel
  have hpresent : ((Token.Kind.all.filter fun k => v.all.contains k.label).filter
        Token.Kind.isLayout ++
      (Token.Kind.all.filter fun k => v.all.contains k.label).filter Token.Kind.carriesText).map
        pattern =
      (testTable.filter fun t => v.all.contains t.1).map Prod.snd := by
    -- Whether the vocabulary holds a kind is asked behind its sort instead of in front of it.
    rw [htable, List.filter_map, List.map_map, List.filter_comm,
      List.filter_comm Token.Kind.carriesText, ← List.filter_append]
    rfl
  unfold patterns tests
  dsimp only
  rw [hpresent]
  cases testTable.filter fun t => v.all.contains t.1 <;> rfl

/-- The lines of the filled template are those of the module. -/
theorem flatMap_expand_template (v : Vocabulary) (tag : String → Nat) :
    template.flatMap (expand (sections v tag)) ++ [""] = file v (pairClauses v tag) := by
  have hplain : ∀ texts : List String,
      (texts.map plain).flatMap (expand (sections v tag)) = texts := by
    intro texts
    rw [List.flatMap_map]
    exact List.flatMap_singleton' texts
  have hslots :
      expand (sections v tag) ⟨"    | ", some "token_type_def"⟩ = cases (typeClauses v) ∧
      expand (sections v tag) ⟨"    | ", some "string_of_token_clauses"⟩ =
        cases (stringClauses v) ∧
      expand (sections v tag) ⟨"    | ", some "token_pair_of_token_clauses"⟩ =
        cases (pairClauses v tag) ∧
      expand (sections v tag) ⟨"    [ ", some "string_token_assoc_elements"⟩ =
        clauses "    [ " "    ; " (association v) ∧
      expand (sections v tag) ⟨"    if ", some "token_of_string_patterns"⟩ =
        clauses "    if " "    else if " (tests v) := by
    simp [expand, sections, cases, itemPerName_eq, typeClauses, stringClauses, association,
      Vocabulary.untyped]
  obtain ⟨htypes, hstrings, hpairs, hassociation, htests⟩ := hslots
  simp only [file, patterns_eq, template, List.flatMap_append, hplain, List.flatMap_singleton,
    htypes, hstrings, hpairs, hassociation, htests, List.append_assoc]
  rfl

section OfTerminals

variable {values : List String}

theorem isInline_of_mem_all {name : String} (h : name ∈ (Vocabulary.ofTerminals values).all) :
    IsInline name := (Vocabulary.isPlain_of_mem_all h).isInline

theorem not_mem_typed_of_untyped {name : String}
    (h : name ∈ (Vocabulary.ofTerminals values).untyped) :
    name ∉ (Vocabulary.ofTerminals values).typed.map Prod.fst := by
  rcases List.mem_append.mp h with hnamed | hnameless
  · exact Vocabulary.not_mem_typed hnamed
  · intro htyped
    obtain ⟨i, -, rfl⟩ := Vocabulary.mem_nameless_iff.mp hnameless
    obtain ⟨v, -, type, hv⟩ := Vocabulary.mem_typed_iff.mp htyped
    have hpayload := Naming.payload_of_typed hv
    rw [ofLabel?_namelessName] at hpayload
    cases hpayload

theorem map_pairClause (tag : String → Nat) :
    ((Vocabulary.ofTerminals values).all.map fun name =>
      pairClause (.ofTerminals values) name (tag name)) =
      pairClauses (.ofTerminals values) tag := by
  rw [Vocabulary.all, List.map_append, List.map_map, pairClauses, itemPerName_eq]
  congr 1
  · refine List.map_congr_left fun name hname => ?_
    have hfalse : (Vocabulary.ofTerminals values).isTyped name = false := by
      simpa [Vocabulary.isTyped] using not_mem_typed_of_untyped hname
    rw [pairClause, hfalse]
    rfl
  · refine List.map_congr_left fun t ht => ?_
    have htrue : (Vocabulary.ofTerminals values).isTyped t.1 = true :=
      List.contains_iff_mem.mpr (List.mem_map_of_mem ht)
    rw [Function.comp_apply, pairClause, htrue]
    rfl

theorem isInline_of_mem_tests {v : Vocabulary} : ∀ item ∈ tests v, IsInline item := by
  have htest : ∀ t ∈ testTable, IsInline t.2 := by decide +kernel
  unfold tests
  split
  · decide
  · rename_i t ts hpresent
    rw [List.forall_mem_map]
    intro t' ht'
    rw [← hpresent] at ht'
    exact htest t' (List.mem_of_mem_filter ht')

theorem isInline_of_mem_itemPerName {untyped : String → String} {typed : String → String → String}
    (huntyped : ∀ name, IsInline name → IsInline (untyped name))
    (htyped : ∀ name type, IsInline name → IsInline type → IsInline (typed name type)) :
    ∀ item ∈ itemPerName (.ofTerminals values) untyped typed, IsInline item := by
  rw [itemPerName_eq, List.forall_mem_append, List.forall_mem_map, List.forall_mem_map]
  constructor
  · exact fun name hname => huntyped name (isInline_of_mem_all (List.mem_append_left _ hname))
  · rintro ⟨name, type⟩ ht
    obtain ⟨v, -, hv⟩ := Vocabulary.mem_typed_pair_iff.mp ht
    obtain ⟨-, rfl⟩ := Token.Kind.payload_eq_some_iff.mp (Naming.payload_of_typed hv)
    have hname : name ∈ (Vocabulary.ofTerminals values).all :=
      List.mem_append_right _ (List.mem_map_of_mem ht)
    exact htyped name "string" (isInline_of_mem_all hname) (by decide)

/-- What is put into the module has no braces and no line ends. -/
theorem isClean_sections (tag : String → Nat) :
    ∀ s ∈ sections (.ofTerminals values) tag, s.IsClean := by
  have htag : ∀ n : Nat, IsInline n.repr := fun n => (isPlain_toString n).isInline
  have hassociation : ∀ item ∈ (Vocabulary.ofTerminals values).untyped.map
      fun name => "(\"" ++ name ++ "\", " ++ name ++ "_)", IsInline item := by
    rw [List.forall_mem_map]
    intro name h
    have hname := isInline_of_mem_all (List.mem_append_left _ h)
    simp +decide [isInline_append_iff, hname]
  have hclean : ∀ {name next : String} {items : List String}, name.toList.all isWordChar = true →
      IsInline next → (∀ item ∈ items, IsInline item) → Section.IsClean ⟨name, next, items⟩ :=
    fun hname hnext hitems => ⟨List.all_eq_true.mp hname, hnext, hitems⟩
  simp only [sections, List.forall_mem_cons, List.not_mem_nil, false_imp_iff, implies_true,
    and_true]
  refine ⟨hclean (by decide) (by decide) (isInline_of_mem_itemPerName ?_ ?_),
    hclean (by decide) (by decide) (isInline_of_mem_itemPerName ?_ ?_),
    hclean (by decide) (by decide) (isInline_of_mem_itemPerName ?_ ?_),
    hclean (by decide) (by decide) hassociation,
    hclean (by decide) (by decide) isInline_of_mem_tests⟩
  all_goals
    intro name
    simp +decide +contextual [isInline_append_iff, htag]

end OfTerminals

/-- The text of the template with all placeholders replaced at once. -/
def filled (v : Vocabulary) (tag : String → Nat) : String :=
  replaceEach (placeholders (entries (sections v tag))) (TemplateLine.fillAll [] template)

section Filled

variable {values : List String} (tag : String → Nat)

theorem isPlain_unbraced_entries :
    ∀ e ∈ entries (sections (.ofTerminals values) tag), IsPlain e.1 ∧ Unbraced e.2 := by
  rw [entries, List.forall_mem_map]
  intro s hs
  have hclean := isClean_sections tag s hs
  exact ⟨hclean.name, hclean.unbraced_text⟩

theorem filled_eq :
    filled (.ofTerminals values) tag =
      TemplateLine.fillAll (entries (sections (.ofTerminals values) tag)) template :=
  TemplateLine.replaceEach_fillAll isClean_of_mem_template nofun fun e he =>
    (isPlain_unbraced_entries tag e he).1

/-- No placeholder is replaced in what has been put in for another. -/
theorem foldl_replace_eq_filled :
    (placeholders (entries (sections (.ofTerminals values) tag))).foldl
      (fun s e => replace e.1 e.2 s) (TemplateLine.fillAll [] template) =
      filled (.ofTerminals values) tag := by
  rw [filled_eq]
  exact TemplateLine.foldl_replace_fillAll isClean_of_mem_template nofun
    (isPlain_unbraced_entries tag)

theorem lines_filled :
    lines (filled (.ofTerminals values) tag) =
      template.flatMap (expand (sections (.ofTerminals values) tag)) ++ [""] := by
  rw [filled_eq, lines_fillAll (isClean_sections tag) isClean_of_mem_template]

end Filled

end TokenModule

theorem Description.exists_tags (d : Description) :
    ∃ tag : String → Nat, (∀ name ∈ d.vocabulary.all, d.vocabulary.tag? name = some (tag name)) ∧
      d.vocabulary.tagged = .ok (d.vocabulary.all.map fun name => (name, tag name)) := by
  have htag : ∀ name ∈ d.vocabulary.all,
      d.vocabulary.tag? name = some ((d.vocabulary.tag? name).getD 0) := by
    intro name hname
    obtain ⟨tag, htag⟩ : ∃ tag, d.vocabulary.tag? name = some tag := Vocabulary.exists_tag? hname
    rw [htag, Option.getD_some]
  refine ⟨fun name => (d.vocabulary.tag? name).getD 0, htag, ?_⟩
  obtain ⟨tokens, htokens⟩ := d.exists_tagged
  rw [htokens, ← List.map_id tokens]
  refine congrArg Except.ok (map_eq_of_forall₂ (forall₂_of_mapM htokens) fun name hname t hof => ?_)
  rw [Vocabulary.tag, htag name hname] at hof
  cases hof
  rfl

namespace Library

/-- The first bindings of a group are on the first lines, even where others take more than one. -/
theorem take_lines_file (l : Library) {bs : List String} (hne : bs ≠ [])
    (hbs : ∀ b ∈ bs, '\n' ∉ b.toList) (others : List String) :
    ((lines (l.file (bs ++ others))).drop 3).take bs.length = bindingLines bs := by
  obtain ⟨behind, htext⟩ : ∃ behind, "\n    and ".intercalate (bs ++ others) ++ "\n" =
      "\n    and ".intercalate bs ++ ("\n" ++ behind) := by
    by_cases hothers : others = []
    · exact ⟨"", by rw [hothers, List.append_nil, String.append_empty]⟩
    · have hsep : "\n    and " = "\n" ++ "    and " := rfl
      refine ⟨"    and " ++ ("\n    and ".intercalate others ++ "\n"), ?_⟩
      rw [String.intercalate_append_of_ne_nil hne hothers]
      simp only [String.append_assoc, hsep]
  have hlength : bs.length = (bindingLines bs).length := (forall₂_bindingLines hne).length_eq
  rw [lines_file_eq, htext, lines_bindings hne hbs, hlength]
  exact List.take_left

theorem bindingsIn_tokens (l : Library) {tokens : List (String × Nat)}
    (htokens : ∀ t ∈ tokens, IsPlain t.1) (rules : List ResolvedRule) :
    bindingsIn (((lines (l.file (l.bindings tokens rules))).drop 3).take tokens.length) =
      tokens.map fun t => (l.bound t.1, l.style.token t.2 t.1) := by
  by_cases hempty : tokens = []
  · subst hempty
    rfl
  have hne : (tokens.map fun t => l.binding t.1 (.token t.2 t.1)) ≠ [] := by simpa using hempty
  have honeLine : ∀ b ∈ tokens.map fun t => l.binding t.1 (.token t.2 t.1), '\n' ∉ b.toList := by
    rw [List.forall_mem_map]
    exact fun t ht => (l.shows_tokenBinding (htokens t ht) t.2).oneLine
  have hfirst := l.take_lines_file hne honeLine
    (rules.map fun r => l.binding r.name (l.ruleExpression r))
  have hread : bindingsIn (bindingLines ((tokens.map fun t => (t.1, Expression.token t.2 t.1)).map
      fun b => l.binding b.1 b.2)) = _ :=
    l.bindingsIn_bindingLines (List.forall_mem_map.mpr htokens)
  rw [List.length_map] at hfirst
  rw [List.map_map, List.map_map] at hread
  exact (congrArg bindingsIn hfirst).trans hread

end Library

namespace TokenModule

end TokenModule

end GrammarForge
