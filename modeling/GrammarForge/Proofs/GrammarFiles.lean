import GrammarForge.Proofs.Bindings

/-!
Names in generated parsers. A parser defines each token and each rule, once for its place in the
grammar, and refers to nothing else; the start symbols of a grammar file are rules of it.
-/

namespace GrammarForge

open Text

/-- The lines behind a heading, up to the next empty line. -/
def Text.linesUnder (heading : String) (lines : List String) : List String :=
  (lines.dropWhile (· != heading)).tail.takeWhile (· != "")

theorem Text.linesUnder_append {heading : String} {before body : List String}
    (hbefore : heading ∉ before) (hbody : "" ∉ body) (behind : List String) :
    linesUnder heading (before ++ heading :: (body ++ "" :: behind)) = body := by
  have hskip : ∀ line ∈ before, (line != heading) = true := by
    intro line hline
    simpa using fun heq : line = heading => hbefore (heq ▸ hline)
  have htake : ∀ line ∈ body, (line != "") = true := by
    intro line hline
    simpa using fun heq : line = "" => hbody (heq ▸ hline)
  rw [linesUnder, List.dropWhile_append_of_pos hskip, List.dropWhile_cons_of_neg (by simp),
    List.tail_cons, List.takeWhile_append_of_pos htake, List.takeWhile_cons_of_neg (by simp),
    List.append_nil]

namespace FileDialect

def startsHeading : String := "/* Start Symbols */"

def tokensHeading : String := "/* Token Parsers */"

/-- The name in front of the colon on a line that opens a rule. -/
def definedName? (line : String) : Option String :=
  match line.toList.dropWhile isWordChar with
  | ':' :: _ => some (String.ofList (line.toList.takeWhile isWordChar))
  | _ => none

def opensProduction (c : Char) : Bool := c == ':' || c == '|'

/-- The words of a production, up to its code. -/
def symbolsOn (line : String) : List String :=
  let production := (line.toList.dropWhile (! opensProduction ·)).tail
  words (fun w => !w.isEmpty) (String.ofList (production.takeWhile (· != '\x7b')))

def startName? (line : String) : Option String :=
  (line.toList.dropPrefix? "%start <Pyast.ast> ".toList).map String.ofList

def tokenNames (lines : List String) : List String :=
  (linesUnder tokensHeading lines).filterMap definedName?

def ruleNames (lines : List String) : List String :=
  (linesUnder headline lines).filterMap definedName?

def usedSymbols (lines : List String) : List String :=
  (linesUnder headline lines).flatMap symbolsOn

def startNames (lines : List String) : List String :=
  (linesUnder startsHeading lines).filterMap startName?

theorem definedName?_eq {name line : String} (h : IsPlain name)
    (hline : (name ++ ":").toList <+: line.toList) : definedName? line = some name := by
  obtain ⟨behind, hbehind⟩ := hline
  have hcolon : ¬ isWordChar ':' = true := by decide
  have htext : line.toList = name.toList ++ ':' :: behind := by simpa using hbehind.symm
  rw [definedName?, htext, List.dropWhile_append_of_pos h, List.takeWhile_append_of_pos h,
    List.dropWhile_cons_of_neg hcolon, List.takeWhile_cons_of_neg hcolon]
  simp

theorem words_parts {parts : List String} (h : ∀ part ∈ parts, IsPlain part ∧ part ≠ "") :
    words (fun w => !w.isEmpty) (" " ++ " ".intercalate parts ++ " ") = parts := by
  have hpart : ∀ part ∈ parts, HasWords (fun w => !w.isEmpty) part [part] := by
    intro part hpart
    obtain ⟨hplain, hne⟩ := h part hpart
    have hwords :
        HasWords (fun w => !w.isEmpty) part (if !part.toList.isEmpty then [part] else []) :=
      hplain.hasWords rfl
    simpa [hne] using hwords
  have hblank : ∀ rest, wordsFrom (fun w => !w.isEmpty) (some []) (" ".toList ++ rest) =
      wordsFrom (fun w => !w.isEmpty) (some []) rest := by
    simp [wordsFrom, keptWord, isWordChar]
  have hlist : HasWords (fun w => !w.isEmpty) (" ".intercalate parts)
      (parts.map fun part => [part]).flatten :=
    hasWords_intercalate hblank (by simp [isWordChar])
      (List.forall₂_map_right_iff.mpr (List.forall₂_same.mpr hpart))
  have hlast := hlist [' '] (by simp [isWordChar])
  rw [← List.flatMap_def, List.flatMap_singleton'] at hlast
  simpa [words, wordsFrom, keptWord, isWordChar] using hlast

theorem symbolsOn_eq {a : Alternative} {opening line : String} {mark : Char}
    (hopening : ∀ c ∈ opening.toList, opensProduction c = false)
    (hmark : opensProduction mark = true) (hparts : ∀ part ∈ a.parts, IsPlain part ∧ part ≠ "")
    (hline : line.toList = opening.toList ++ mark :: ' ' :: (production a).toList) :
    symbolsOn line = a.parts := by
  have hskip : ∀ c ∈ opening.toList, (! opensProduction c) = true := by simpa using hopening
  have hbrace : ∀ c ∈ (" " ++ " ".intercalate a.parts ++ " ").toList, (c != '\x7b') = true := by
    intro c hc
    have hcases : c = ' ' ∨ c ∈ (" ".intercalate a.parts).toList := by
      simpa [or_comm, or_assoc, or_left_comm] using hc
    rcases hcases with rfl | hc
    · decide
    · rcases mem_intercalate hc with hc | ⟨part, hpart, hc⟩
      · obtain rfl : c = ' ' := by simpa using hc
        decide
      · have hword := (hparts part hpart).1 c hc
        simpa using fun heq : c = '\x7b' => absurd (heq ▸ hword) (by decide)
  obtain ⟨code, hcode⟩ : ∃ code, ' ' :: (production a).toList =
      (" " ++ " ".intercalate a.parts ++ " ").toList ++ '\x7b' :: code :=
    ⟨_, by simp [production, action]; rfl⟩
  rw [symbolsOn, hline, List.dropWhile_append_of_pos hskip,
    List.dropWhile_cons_of_neg (by simp [hmark]), List.tail_cons, hcode,
    List.takeWhile_append_of_pos hbrace, List.takeWhile_cons_of_neg (by decide), List.append_nil,
    String.ofList_toList, words_parts hparts]

section Rules

variable {r : ResolvedRule}

/-- The lines of a rule define its name and use its parts. -/
theorem read_rule (dialect : FileDialect) (hname : IsPlain r.name)
    (hparts : ∀ a ∈ r.alternatives, ∀ part ∈ a.parts, IsPlain part ∧ part ≠ "") :
    "" ∉ dialect.rule r ∧ (dialect.rule r).filterMap definedName? = [r.name] ∧
      (dialect.rule r).flatMap symbolsOn = r.alternatives.flatMap Alternative.parts := by
  have hopening : ∀ c ∈ r.name.toList, opensProduction c = false := by
    intro c hc
    have hword := hname c hc
    have hcolon : c ≠ ':' := fun heq => absurd (heq ▸ hword) (by decide)
    have hbar : c ≠ '|' := fun heq => absurd (heq ▸ hword) (by decide)
    simp [opensProduction, hcolon, hbar]
  unfold rule
  split
  · rename_i a _ ha
    have hline : (r.name ++ ": " ++ production a).toList =
        r.name.toList ++ ':' :: ' ' :: (production a).toList := by simp
    rw [ha] at hparts ⊢
    refine ⟨by simp, by simp [definedName?_eq hname], ?_⟩
    simp [symbolsOn_eq hopening rfl (hparts a List.mem_cons_self) hline]
  · have hnothing : symbolsOn (r.name ++ ":") = [] := by
      have hskip : ∀ c ∈ r.name.toList, (! opensProduction c) = true := by simpa using hopening
      rw [symbolsOn, String.toList_append, List.dropWhile_append_of_pos hskip]
      rfl
    have hline : ∀ a ∈ r.alternatives, definedName? ("    | " ++ production a) = none ∧
        symbolsOn ("    | " ++ production a) = a.parts := by
      intro a ha
      have htext : ("    | " ++ production a).toList =
          "    ".toList ++ '|' :: ' ' :: (production a).toList := by simp
      have hblank : ∀ c ∈ "    ".toList, opensProduction c = false := by simp [opensProduction]
      exact ⟨by simp [definedName?, isWordChar], symbolsOn_eq hblank rfl (hparts a ha) htext⟩
    refine ⟨by simp, ?_, ?_⟩
    · rw [List.filterMap_cons_some (definedName?_eq hname (List.prefix_refl _)), List.filterMap_map]
      congr 1
      exact List.filterMap_eq_nil_iff.mpr fun a ha => (hline a ha).1
    · rw [List.flatMap_cons, hnothing, List.nil_append, List.flatMap_map]
      exact List.flatMap_congr fun a ha => (hline a ha).2

theorem read_rules (dialect : FileDialect) {rules : List ResolvedRule}
    (h : ∀ r ∈ rules, IsPlain r.name ∧
      ∀ a ∈ r.alternatives, ∀ part ∈ a.parts, IsPlain part ∧ part ≠ "") :
    "" ∉ rules.flatMap dialect.rule ∧
      (rules.flatMap dialect.rule).filterMap definedName? = rules.map ResolvedRule.name ∧
      (rules.flatMap dialect.rule).flatMap symbolsOn =
        rules.flatMap fun r => r.alternatives.flatMap Alternative.parts := by
  induction rules with
  | nil => simp
  | cons r rules ih =>
    obtain ⟨⟨hname, hparts⟩, hrules⟩ := List.forall_mem_cons.mp h
    obtain ⟨hempty, hdefined, hused⟩ := dialect.read_rule hname hparts
    obtain ⟨hempties, hdefineds, huseds⟩ := ih hrules
    rw [List.flatMap_cons, List.filterMap_append, List.flatMap_append, hdefined, hused, hdefineds,
      huseds]
    exact ⟨by simp [hempty, hempties], rfl, rfl⟩

end Rules

theorem read_tokenRules {v : Vocabulary} (h : ∀ name ∈ v.all, IsPlain name) :
    "" ∉ tokenRules v ∧ (tokenRules v).filterMap definedName? = v.all := by
  simp only [Vocabulary.all, List.forall_mem_append, List.forall_mem_map] at h
  obtain ⟨huntyped, htyped⟩ := h
  refine ⟨by simp [tokenRules], ?_⟩
  rw [tokenRules, Vocabulary.all, List.filterMap_append, List.filterMap_map, List.filterMap_map,
    ← List.filterMap_eq_map]
  congr 1
  · refine Eq.trans (List.filterMap_congr fun name hname => ?_) List.filterMap_some
    exact definedName?_eq (huntyped name hname) (by simp)
  · exact List.filterMap_congr fun t ht => definedName?_eq (htyped t ht) (by simp)

theorem read_startDeclarations (starts : List String) :
    "" ∉ startDeclarations starts ∧ (startDeclarations starts).filterMap startName? = starts := by
  refine ⟨by simp [startDeclarations], ?_⟩
  rw [startDeclarations, List.filterMap_map]
  refine Eq.trans (List.filterMap_congr fun start _ => ?_) List.filterMap_some
  simp [startName?, List.dropPrefix?]

section Sections

variable {dialect : FileDialect} {d : Description}

def declarations (dialect : FileDialect) (d : Description) : List String :=
  dialect.header ++ ["", "/* Token Definitions */"] ++ tokenDeclarations d.vocabulary ++ [""]

def startSection (d : Description) : List String := startDeclarations d.starts ++ "" :: ["%%", ""]

theorem prelude_eq (dialect : FileDialect) (d : Description) :
    dialect.prelude d = dialect.declarations d ++
      startsHeading :: (startSection d ++ tokensHeading :: (tokenRules d.vocabulary ++ [""])) := by
  simp [prelude, declarations, startSection, startsHeading, tokensHeading]

theorem not_mem_declarations {heading : String} (hheader : heading ∉ dialect.header)
    (hpercent : '%' ∉ heading.toList) (hothers : heading ∉ ["", "/* Token Definitions */"])
    (d : Description) : heading ∉ dialect.declarations d := by
  have htokens := not_mem_of_char (percent_mem_tokenDeclarations d.vocabulary) hpercent
  simp only [declarations, List.mem_append, not_or]
  exact ⟨⟨⟨hheader, hothers⟩, htokens⟩, by simpa using fun h => hothers (by simp [h])⟩

theorem linesUnder_startsHeading (hheader : startsHeading ∉ dialect.header) (d : Description)
    (behind : List String) :
    linesUnder startsHeading (dialect.prelude d ++ behind) = startDeclarations d.starts := by
  have hbefore := not_mem_declarations hheader (by decide) (by decide) d
  rw [prelude_eq, startSection, List.append_assoc, List.cons_append, List.append_assoc,
    List.append_assoc, List.cons_append]
  exact linesUnder_append hbefore (read_startDeclarations d.starts).1 _

theorem linesUnder_tokensHeading (hheader : tokensHeading ∉ dialect.header) (d : Description)
    (behind : List String) :
    linesUnder tokensHeading (dialect.prelude d ++ behind) = tokenRules d.vocabulary := by
  have hstarts : tokensHeading ∉ startSection d := by
    have hdeclared := not_mem_of_char (percent_mem_startDeclarations d.starts)
      (by decide : '%' ∉ tokensHeading.toList)
    simp only [startSection, List.mem_append, not_or]
    exact ⟨hdeclared, by decide⟩
  have hbefore : tokensHeading ∉ dialect.declarations d ++ startsHeading :: startSection d := by
    simp only [List.mem_append, List.mem_cons, not_or]
    exact ⟨not_mem_declarations hheader (by decide) (by decide) d, by decide, hstarts⟩
  have htokens : "" ∉ tokenRules d.vocabulary :=
    (read_tokenRules fun _ => Vocabulary.isPlain_of_mem_all).1
  have hlines : dialect.prelude d ++ behind =
      (dialect.declarations d ++ startsHeading :: startSection d) ++
        tokensHeading :: (tokenRules d.vocabulary ++ "" :: behind) := by
    simp [prelude_eq]
  rw [hlines]
  exact linesUnder_append hbefore htokens behind

end Sections

/-- A grammar file defines the tokens and the rules of the grammar, uses the parts of the rules, and
starts where it is asked to. -/
theorem read_generate {dialect : FileDialect} {d : Description} {lines : List String}
    (hheader : ∀ heading ∈ [startsHeading, tokensHeading, headline], heading ∉ dialect.header)
    (hnamed : d.grammar.rules.Named) (hkeys : ∀ k ∈ d.grammar.rules.keys, isWord k.toList = true)
    (h : dialect.generate d = .ok lines) :
    tokenNames lines = d.vocabulary.all ∧ ruleNames lines = d.grammar.rules.keys ∧
      usedSymbols lines = d.grammar.rules.rules.flatMap d.partNames ∧
      startNames lines = d.starts := by
  obtain ⟨rules, hrules, rfl⟩ := generate_eq_ok h
  simp only [List.forall_mem_cons] at hheader
  obtain ⟨hstarts, htokens, hheadline, -⟩ := hheader
  have hwords := Description.isWord_of_keys hnamed hkeys
  obtain ⟨hresolved, -⟩ := Description.resolve_eq_ok hwords hrules
  have hparts := Description.resolve_parts hrules
  have hplain : ∀ r ∈ rules, IsPlain r.name ∧
      ∀ a ∈ r.alternatives, ∀ part ∈ a.parts, IsPlain part ∧ part ≠ "" := by
    intro r hr
    refine ⟨(hresolved r hr).2.name, fun a ha part hpart =>
      ⟨(hresolved r hr).2.parts a ha part hpart, ?_⟩⟩
    have hmem := List.mem_map_of_mem (f := fun r : ResolvedRule =>
      (r.name, r.alternatives.flatMap Alternative.parts)) hr
    rw [hparts] at hmem
    obtain ⟨written, hwritten, heq⟩ := List.mem_map.mp hmem
    have hsame : d.partNames written = r.alternatives.flatMap Alternative.parts :=
      congrArg Prod.snd heq
    exact Description.ne_empty_of_mem_partNames hkeys hwritten
      (hsame ▸ List.mem_flatMap.mpr ⟨a, ha, hpart⟩)
  obtain ⟨hempty, hdefined, hused⟩ := dialect.read_rules hplain
  have hsection : linesUnder headline
      (dialect.prelude d ++ headline :: (rules.flatMap dialect.rule ++ [""])) =
        rules.flatMap dialect.rule :=
    linesUnder_append (headline_not_mem_prelude hheadline d) hempty []
  have hnames := congrArg (List.map Prod.fst) hparts
  have huses := congrArg (List.flatMap Prod.snd) hparts
  rw [List.map_map, List.map_map] at hnames
  rw [List.flatMap_map, List.flatMap_map] at huses
  refine ⟨?_, ?_, ?_, ?_⟩
  · rw [tokenNames, linesUnder_tokensHeading htokens]
    exact (read_tokenRules fun _ => Vocabulary.isPlain_of_mem_all).2
  · rw [ruleNames, hsection, hdefined, hnamed.keys_eq]
    exact hnames
  · rw [usedSymbols, hsection, hused]
    exact huses
  · rw [startNames, linesUnder_startsHeading hstarts]
    exact (read_startDeclarations d.starts).2

end FileDialect

namespace Target

def spelling : Target → String → String
  | .library l => l.bound
  | .menhir | .dypgen => id

/-- The names that a parser defines, in the order of its lines. -/
def definedNames (lines : List String) : Target → List String
  | .library _ => Library.boundNames lines
  | .menhir | .dypgen => FileDialect.tokenNames lines ++ FileDialect.ruleNames lines

/-- The names that the productions of a parser refer to, in the order of its lines. -/
def usedNames (lines : List String) : Target → List String
  | .library l => (Library.bindingsIn lines).flatMap fun b => l.usedNames b.2
  | .menhir | .dypgen => FileDialect.usedSymbols lines

section Generate

variable {d : Description} {t : Target} {lines : List String}

theorem read_file (ht : t = menhir ∨ t = dypgen) (hnamed : d.grammar.rules.Named)
    (hkeys : ∀ k ∈ d.grammar.rules.keys, isWord k.toList = true) (h : t.generate d = .ok lines) :
    FileDialect.tokenNames lines = d.vocabulary.all ∧
      FileDialect.ruleNames lines = d.grammar.rules.keys ∧
      FileDialect.usedSymbols lines = d.grammar.rules.rules.flatMap d.partNames ∧
      FileDialect.startNames lines = d.starts := by
  rcases ht with rfl | rfl
  · exact FileDialect.read_generate (by decide) hnamed hkeys h
  · exact FileDialect.read_generate (by decide) hnamed hkeys h

theorem read_generate (hnamed : d.grammar.rules.Named)
    (hkeys : ∀ k ∈ d.grammar.rules.keys, isWord k.toList = true) (h : t.generate d = .ok lines) :
    t.definedNames lines = (d.vocabulary.all ++ d.grammar.rules.keys).map t.spelling ∧
      t.usedNames lines = (d.grammar.rules.rules.flatMap d.partNames).map t.spelling := by
  have hfile : t = menhir ∨ t = dypgen →
      FileDialect.tokenNames lines ++ FileDialect.ruleNames lines =
        (d.vocabulary.all ++ d.grammar.rules.keys).map id ∧
      FileDialect.usedSymbols lines = (d.grammar.rules.rules.flatMap d.partNames).map id := by
    intro ht
    obtain ⟨htokens, hrules, hused, -⟩ := read_file ht hnamed hkeys h
    rw [htokens, hrules, hused, List.map_id, List.map_id]
    exact ⟨rfl, rfl⟩
  cases t with
  | menhir => exact hfile (.inl rfl)
  | dypgen => exact hfile (.inr rfl)
  | library l =>
    have hbindings := l.bindingsIn_generate hnamed hkeys h
    have hbound := congrArg (List.map Prod.fst) hbindings
    have hused := congrArg (List.flatMap Prod.snd) hbindings
    rw [List.map_append, List.map_map, List.map_map, List.map_map] at hbound
    rw [List.flatMap_append, List.flatMap_map, List.flatMap_map, List.flatMap_map] at hused
    have htokens : (d.vocabulary.all.flatMap fun _ => ([] : List String)) = [] :=
      List.flatMap_eq_nil_iff.mpr fun _ _ => rfl
    rw [hnamed.keys_eq, List.map_append, List.map_map, List.map_flatMap]
    exact ⟨hbound, hused.trans (congrArg (· ++ _) htokens)⟩

end Generate

/-- A parser defines the tokens and then the rules of its grammar, each under its own name, and its
productions use no other names. A grammar file starts from rules that it defines. -/
theorem usedNames_generate {d : Description} (hnamed : d.grammar.rules.Named)
    (hkeys : ∀ k ∈ d.grammar.rules.keys, isWord k.toList = true) :
    (∀ (t : Target) (lines : List String), t.generate d = .ok lines →
      t.definedNames lines = (d.vocabulary.all ++ d.grammar.rules.keys).map t.spelling ∧
      t.usedNames lines = (d.grammar.rules.rules.flatMap d.partNames).map t.spelling ∧
      ∀ name ∈ t.usedNames lines, name ∈ t.definedNames lines) ∧
    ∀ t ∈ [menhir, dypgen], ∀ lines, t.generate d = .ok lines →
      FileDialect.startNames lines = d.starts ∧
      ∀ start ∈ FileDialect.startNames lines, start ∈ FileDialect.ruleNames lines := by
  refine ⟨fun t lines h => ?_, fun t ht lines h => ?_⟩
  · obtain ⟨hdefined, hused⟩ := read_generate hnamed hkeys h
    refine ⟨hdefined, hused, fun name hname => ?_⟩
    rw [hused] at hname
    rw [hdefined]
    obtain ⟨part, hpart, rfl⟩ := List.mem_map.mp hname
    obtain ⟨r, hr, hpart⟩ := List.mem_flatMap.mp hpart
    exact List.mem_map_of_mem
      (List.mem_append.mpr (Description.mem_of_mem_partNames hr hpart))
  · obtain ⟨-, hrules, -, hstarts⟩ := read_file (by simpa using ht) hnamed hkeys h
    refine ⟨hstarts, fun start hstart => ?_⟩
    rw [hrules]
    rw [hstarts] at hstart
    exact Dictionary.contains_iff.mp (d.starts_defined start hstart)

/-- An empty production, and terminals of each sort: a typed word, other words, and a text without
a name of its own. -/
theorem usedNames_generate_sorts :
    ∃ d : Description, d.grammar.rules.Named ∧
      (∀ k ∈ d.grammar.rules.keys, isWord k.toList = true) ∧
      (∃ lines, (Target.library .pwdBinaryOpt).generate d = .ok lines ∧
        (Target.library .pwdBinaryOpt).definedNames lines =
          ["pwd_binary_opt_rule_KW", "pwd_binary_opt_rule_X", "pwd_binary_opt_rule_TOKEN_1",
            "pwd_binary_opt_rule_NAME", "pwd_binary_opt_rule_a", "pwd_binary_opt_rule_b"] ∧
        (Target.library .pwdBinaryOpt).usedNames lines =
          ["pwd_binary_opt_rule_X", "pwd_binary_opt_rule_b", "pwd_binary_opt_rule_TOKEN_1",
            "pwd_binary_opt_rule_NAME", "pwd_binary_opt_rule_KW", "pwd_binary_opt_rule_a"]) ∧
      ∃ lines, Target.menhir.generate d = .ok lines ∧
        Target.menhir.definedNames lines = ["KW", "X", "TOKEN_1", "NAME", "a", "b"] ∧
        FileDialect.startNames lines = ["b", "a"] := by
  have hrun : (Grammar.ofText "a: | 'x' b '?' NAME\nb: 'kw' a\n").map (fun g => (g.rules.keys,
      (Vocabulary.ofTerminals g.terminals).all,
      g.rules.rules.flatMap fun r =>
        r.symbols.filterMap (Symbol.partName? (nameTerminals 0 g.terminals)),
      g.rules.rules.flatMap (Rule.violations none),
      g.rules.rules.flatMap (Rule.violations (some ⟨"menhir", 9⟩)))) =
      .ok (["a", "b"], ["KW", "X", "TOKEN_1", "NAME"], ["X", "b", "TOKEN_1", "NAME", "KW", "a"],
        [], []) := by
    decide +kernel
  obtain ⟨g, hg, hfacts⟩ := exists_eq_ok_of_map hrun
  simp only [Prod.mk.injEq] at hfacts
  obtain ⟨hkeys, hall, hparts, hnone, hmenhir⟩ := hfacts
  let d : Description := ⟨g, ["b", "a"], by simp [Dictionary.contains, hkeys]⟩
  have hnamed : d.grammar.rules.Named := (Grammar.canonical_of_ofText hg).named
  have hwords : ∀ k ∈ d.grammar.rules.keys, isWord k.toList = true := by
    have hboth : ∀ k ∈ ["a", "b"], isWord k.toList = true := by decide
    exact hkeys ▸ hboth
  obtain ⟨lines, hlines⟩ : ∃ lines, (Target.library .pwdBinaryOpt).generate d = .ok lines :=
    exists_generate_iff.mpr hnone
  obtain ⟨lines', hlines'⟩ : ∃ lines, Target.menhir.generate d = .ok lines :=
    exists_generate_iff.mpr hmenhir
  obtain ⟨hnames, hfile⟩ := usedNames_generate hnamed hwords
  obtain ⟨hdefined, hused, -⟩ := hnames _ lines hlines
  obtain ⟨hdefined', -⟩ := hnames _ lines' hlines'
  have hall : d.vocabulary.all = ["KW", "X", "TOKEN_1", "NAME"] := hall
  have hparts : d.grammar.rules.rules.flatMap d.partNames =
      ["X", "b", "TOKEN_1", "NAME", "KW", "a"] := hparts
  have hkeys : d.grammar.rules.keys = ["a", "b"] := hkeys
  rw [hall, hkeys] at hdefined hdefined'
  rw [hparts] at hused
  refine ⟨d, hnamed, hwords, ⟨lines, hlines, hdefined.trans ?_, hused.trans ?_⟩,
    ⟨lines', hlines', hdefined'.trans ?_, (hfile _ (by simp) lines' hlines').1⟩⟩
  · decide
  · decide
  · decide

end Target

end GrammarForge
