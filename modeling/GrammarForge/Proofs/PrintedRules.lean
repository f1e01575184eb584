import GrammarForge.Grammar
import GrammarForge.Proofs.Lexing
import GrammarForge.Proofs.RuleReading

/-!
Printed rules are read back as they were. A printed part of a rule is read, within a line and at
any depth of brackets, as tokens that spell the part.
-/

namespace GrammarForge

namespace Layout

/-- In a line that holds a token, with `n` brackets open. -/
def within (n : Nat) : Layout := ⟨[], n, true, none⟩

/-- In a line, `text` in front of `rest` is read as tokens with the property `P`, and `n` open
brackets become `m`. -/
def Scans (P : List Token → Prop) (n m : Nat) (text rest : List Char) : Prop :=
  ∀ p, ∃ ts, P ts ∧ (within n).events p (lexemes (text ++ rest)) =
    ts.map .token ++ (within m).events (p.behind text) (lexemes rest)

namespace Scans

variable {P Q R : List Token → Prop} {n m k : Nat} {text a b rest : List Char}

theorem append (ha : Scans P n m a (b ++ rest)) (hb : Scans Q m k b rest)
    (h : ∀ ts us, P ts → Q us → R (ts ++ us)) : Scans R n k (a ++ b) rest := by
  intro p
  obtain ⟨ts, hts, hea⟩ := ha p
  obtain ⟨us, hus, heb⟩ := hb (p.behind a)
  refine ⟨ts ++ us, h ts us hts hus, ?_⟩
  rw [List.append_assoc, hea, heb]
  simp

theorem imp (hs : Scans P n m text rest) (h : ∀ ts, P ts → Q ts) : Scans Q n m text rest := by
  intro p
  obtain ⟨ts, hts, he⟩ := hs p
  exact ⟨ts, h ts hts, he⟩

theorem nil (h : P []) : Scans P n n [] rest := fun _ => ⟨[], h, rfl⟩

theorem token {kind : Token.Kind} {text? : Option String}
    (h : lexemes (text ++ rest) = ⟨.token kind text?, text⟩ :: lexemes rest) :
    Scans (fun ts => ∃ p, ts = [⟨kind, text?, p⟩]) n (nest n kind) text rest := by
  intro p
  refine ⟨_, ⟨p, rfl⟩, ?_⟩
  rw [h]
  rfl

theorem skip (h : Scans P n m text rest) : Scans P n m ([' '] ++ text) rest := by
  have hblank : ∀ q c cs, Lexeme.isBlank c = true → (within n).events q (lexemes (c :: cs)) =
      (within n).events (q.behind (c :: cs.takeWhile Lexeme.isBlank))
        (lexemes (cs.dropWhile Lexeme.isBlank)) := by
    intro q c cs hc
    rw [Lexeme.lexemes_blank hc]
    rfl
  have hstep : ∀ p cs, (within n).events p (lexemes (' ' :: cs)) =
      (within n).events (p.behind [' ']) (lexemes cs) := by
    intro p cs
    rw [hblank p ' ' cs rfl]
    cases cs with
    | nil => rfl
    | cons c cs =>
      by_cases hc : Lexeme.isBlank c = true
      · simp [hblank _ c cs hc, hc]
      · simp [hc]
  intro p
  obtain ⟨ts, hts, he⟩ := h (p.behind [' '])
  refine ⟨ts, hts, ?_⟩
  rw [List.append_assoc, List.singleton_append, hstep, he, Position.behind_append]

end Scans

end Layout

section Printable

def isName (s : String) : Bool := isWord s.toList && (Token.Keyword.ofSpelling? s).isNone

def quoteAround (value : String) : Char := if value.toList.contains '\x27' then '\x22' else '\x27'

def Symbol.isPrintable : Symbol → Bool
  | .terminal v => isWord v.toList && Text.isUpperWord v
  | .literal v => isQuotable (quoteAround v) v.toList
  | .nonTerminal n => isName n && Text.isLowerWord n
  | .group g => !g.implicit && !g.productions.isEmpty

/-- The body of a rule is neither empty nor a single plain group. -/
structure Rule.Printable (r : Rule) : Prop where
  name : isName r.name = true
  body : ∃ ps, r.groups = [.body ps] ∧ ps ≠ [] ∧ ps ≠ [[]] ∧
    ∀ implicit qs, ps ≠ [[.once (.group ⟨false, implicit, qs⟩)]]
  symbols : ∀ s ∈ r.symbols, s.isPrintable = true

structure Dictionary.Printable (d : Dictionary) : Prop where
  named : d.Named
  rules : ∀ r ∈ d.rules, r.Printable

/-- A body with alternatives, which may be empty, and in which everything can be printed. -/
structure Rule.Legible (r : Rule) : Prop where
  name : isName r.name = true
  body : ∃ ps, r.groups = [.body ps] ∧ ps ≠ []
  symbols : ∀ s ∈ r.symbols, s.isPrintable = true

end Printable

section Words

variable {s : String}

theorem ofSpelling?_of_isUpperWord (hs : Text.isUpperWord s = true) :
    Token.Keyword.ofSpelling? s = none := by
  have hkeyword : ∀ k : Token.Keyword, Text.isUpperWord k.spelling = false := by
    intro k
    cases k <;> decide
  cases hk : Token.Keyword.ofSpelling? s with
  | none => rfl
  | some k => simp [← Token.Keyword.spelling_of_ofSpelling? hk, hkeyword] at hs

theorem isAscii_of_isWordChar {c : Char} (hc : Text.isWordChar c = true) :
    Text.isAscii c = true := by
  have hc : c.isAlphanum = true ∨ c = '_' := by simpa [Text.isWordChar] using hc
  rcases hc with hc | rfl
  · unfold Char.isAlphanum Char.isAlpha Char.isUpper Char.isLower at hc
    simp [Char.isDigit, Text.isAscii, UInt32.le_iff_toNat_le] at hc ⊢
    omega
  · decide

theorem isUpperWord_of_isLowerWord (hw : isWord s.toList = true) (hs : Text.isLowerWord s = true) :
    Text.isUpperWord s = false := by
  simp only [Text.isLowerWord, Text.isCased, Bool.and_eq_true, Bool.not_eq_true',
    List.isEmpty_eq_false_iff_exists_mem] at hs
  obtain ⟨⟨c, hc⟩, hlower⟩ := hs
  have hword : Text.isWordChar c = true :=
    List.all_eq_true.mp (Lexeme.all_of_isWord hw) c (List.mem_filter.mp hc).1
  have hascii := isAscii_of_isWordChar hword
  have hl : c.isLower = true := by
    simpa [Text.isLowercase, hascii] using List.all_eq_true.mp hlower c hc
  rw [Bool.eq_false_iff]
  intro hupper
  have hu : c.isUpper = true := by
    have hall : ∀ c ∈ Text.letters s, Text.isUppercase c = true := by
      simp only [Text.isUpperWord, Text.isCased, Bool.and_eq_true, List.all_eq_true] at hupper
      exact hupper.2
    simpa [Text.isUppercase, hascii] using hall c hc
  unfold Char.isLower at hl
  unfold Char.isUpper at hu
  simp [UInt32.le_iff_toNat_le] at hl hu
  omega

theorem wordForm_eq (hs : Token.Keyword.ofSpelling? s = none) :
    Lexeme.wordForm s.toList = .token .name (some s) := by
  simp [Lexeme.wordForm, hs]

end Words

/-- What stands behind a symbol in a printed rule. -/
def EndsSymbol (rest : List Char) : Prop :=
  ∀ c ∈ rest.head?, c ∈ [' ', ')', ']', '\n', '*', '+']

def EndsComponent (rest : List Char) : Prop := ∀ c ∈ rest.head?, c ∈ [' ', ')', ']', '\n']

theorem EndsSymbol.cons {c : Char} {rest : List Char}
    (hc : c ∈ [' ', ')', ']', '\n', '*', '+']) : EndsSymbol (c :: rest) := by
  intro d hd
  obtain rfl : c = d := by simpa using hd
  exact hc

theorem EndsComponent.cons {c : Char} {rest : List Char} (hc : c ∈ [' ', ')', ']', '\n']) :
    EndsComponent (c :: rest) := by
  intro d hd
  obtain rfl : c = d := by simpa using hd
  exact hc

theorem EndsSymbol.endsWord {rest : List Char} (h : EndsSymbol rest) : EndsWord rest := by
  have hall : ∀ c ∈ [' ', ')', ']', '\n', '*', '+'],
      Text.isWordChar c = false ∧ c ≠ '\x27' ∧ c ≠ '\x22' := by simp [Text.isWordChar]
  exact fun c hc => hall c (h c hc)

theorem EndsComponent.endsSymbol {rest : List Char} (h : EndsComponent rest) : EndsSymbol rest := by
  intro c hc
  have := h c hc
  simp only [List.mem_cons, List.not_mem_nil, or_false] at this ⊢
  rcases this with h | h | h | h <;> simp [h]

namespace Layout

variable {n : Nat} {rest : List Char}

theorem scans_word {s : String} {sym : Symbol} (hw : isWord s.toList = true)
    (hk : Token.Keyword.ofSpelling? s = none) (hs : StandsFor s sym)
    (hr : EndsSymbol rest) : Scans (Spells · (.symbol sym)) n n s.toList rest := by
  have hlex := Lexeme.lexemes_word hw hr.endsWord
  rw [wordForm_eq hk] at hlex
  refine (Scans.token hlex).imp ?_
  rintro ts ⟨p, rfl⟩
  exact .word rfl hs

theorem scans_literal {v : String} (hv : isQuotable (quoteAround v) v.toList = true)
    (hr : EndsSymbol rest) :
    Scans (Spells · (.symbol (.literal v))) n n (displayLiteral v).toList rest := by
  have hq : quoteAround v = '\x27' ∨ quoteAround v = '\x22' := by
    unfold quoteAround
    split <;> simp
  have hrest : quoteAround v ∉ rest.head? := by
    intro h
    have := (hr.endsWord _ h).2
    simp [this] at hq
  have htext : (displayLiteral v).toList = quoteAround v :: (v.toList ++ [quoteAround v]) := by
    unfold displayLiteral quoteAround
    split <;> simp
  have hlex := Lexeme.lexemes_literal hq hv hrest
  rw [← htext, String.ofList_toList] at hlex
  refine (Scans.token hlex).imp ?_
  rintro ts ⟨p, rfl⟩
  exact .literal rfl

theorem scans_mark {o : Token.Operator} {kind : Token.Kind} {c : Char} {m : Nat}
    (hc : c ∈ [':', '|', '(', ')', '[', ']', '*', '+'] ∧ o.spelling.toList = [c])
    (hk : kind = .op o) (hn : nest n kind = m) (hrest : EndsMark c rest) :
    Scans (fun ts => ∃ t : Token, ts = [t] ∧ t.kind = kind) n m [c] rest := by
  subst hk hn
  refine (Scans.token (Lexeme.lexemes_mark hc.1 hc.2 hrest)).imp ?_
  rintro ts ⟨p, rfl⟩
  exact ⟨_, rfl, rfl⟩

theorem events_name (p : Position) (name : String) (text : List Char) (ls : List Lexeme) :
    start.events p (⟨.token .name (some name), text⟩ :: ls) =
      .token ⟨.name, some name, p⟩ :: (within 0).events (p.behind text) ls := rfl

theorem events_lineEnd (p : Position) (ls : List Lexeme) :
    (within 0).events p (⟨.lineEnd, ['\n']⟩ :: ls) =
      .token ⟨.newline, none, p⟩ :: start.events (p.behind ['\n']) ls := rfl

end Layout

section Components

variable {s : Symbol} {m : Repeat} {n : Nat} {rest : List Char}
  (hs : ∀ rest, EndsSymbol rest → Layout.Scans (Spells · (.symbol s)) n n s.display.toList rest)
  (hr : EndsComponent rest)
include hs hr

theorem Component.scans_marked {o : Token.Operator} {c : Char}
    (hc : c ∈ ['*', '+'] ∧ o.spelling.toList = [c]) (hk : m.kind? = some (.op o))
    (hm : m.display.toList = [c]) (hn : Layout.nest n (.op o) = n) :
    Layout.Scans (Spells · (.component ⟨s, m⟩)) n n (s.display ++ m.display).toList rest := by
  have hall : ∀ c ∈ ['*', '+'], c ∈ [':', '|', '(', ')', '[', ']', '*', '+'] ∧
      c ∈ [' ', ')', ']', '\n', '*', '+'] := by simp
  have hends : EndsSymbol ([c] ++ rest) := .cons (hall c hc.1).2
  have hmark := Layout.scans_mark ⟨(hall c hc.1).1, hc.2⟩ rfl hn (Lexeme.endsMark_of_head hr)
  rw [String.toList_append, hm]
  refine (hs _ hends).append hmark ?_
  rintro ts us hts ⟨t, rfl, ht⟩
  exact (Spells.once hts).mark (hk.trans (congrArg some ht.symm))

theorem Component.scans_display :
    Layout.Scans (Spells · (.component ⟨s, m⟩)) n n (s.display ++ m.display).toList rest := by
  cases m with
  | once =>
    have hsym : Layout.Scans (Spells · (.component ⟨s, .once⟩)) n n s.display.toList rest :=
      (hs rest hr.endsSymbol).imp fun ts h => h.once
    simpa [Repeat.display] using hsym
  | star => exact scans_marked hs hr (o := .star) (c := '*') (by decide) rfl (by decide) rfl
  | plus => exact scans_marked hs hr (o := .plus) (c := '+') (by decide) rfl (by decide) rfl

end Components

section Groups

variable {p : Production} {ps : List Production} {c : Component} {a b rest : List Char} {n : Nat}

theorem Symbol.scans_bracketed {x : Bracket} {first last : Token.Operator} {i f : Char}
    (hx : x.opening = .op first ∧ x.closing = .op last)
    (hi : i ∈ ['(', '['] ∧ first.spelling.toList = [i])
    (hf : f ∈ [')', ']'] ∧ last.spelling.toList = [f])
    (hps : ∀ rest, EndsComponent rest →
      Layout.Scans (Spells · (.alternatives ps)) (n + 1) (n + 1) a rest) :
    Layout.Scans (Spells · (.symbol (.group ⟨x == .square, false, ps⟩))) n n
      ([i] ++ (a ++ [f])) rest := by
  have halone : ∀ c ∈ ['(', '['] ++ [')', ']'],
      c ∈ [':', '(', ')', '[', ']'] ∧ c ∈ [':', '|', '(', ')', '[', ']', '*', '+'] := by simp
  have his := halone i (List.mem_append_left _ hi.1)
  have hfs := halone f (List.mem_append_right _ hf.1)
  have hends : EndsComponent ([f] ++ rest) := by
    have hall : ∀ c ∈ [')', ']'], c ∈ [' ', ')', ']', '\n'] := by simp
    exact .cons (hall f hf.1)
  have hn : Layout.nest n x.opening = n + 1 ∧ Layout.nest (n + 1) x.closing = n := by
    cases x <;> exact ⟨rfl, rfl⟩
  have hopen : Layout.Scans (fun ts => ∃ t, ts = [t] ∧ t.kind = x.opening) n (n + 1) [i]
      (a ++ [f] ++ rest) :=
    Layout.scans_mark ⟨his.2, hi.2⟩ hx.1 hn.1 (Lexeme.endsMark_of_alone his.1)
  have hclose : Layout.Scans (fun ts => ∃ t, ts = [t] ∧ t.kind = x.closing) (n + 1) n [f]
      rest :=
    Layout.scans_mark ⟨hfs.2, hf.2⟩ hx.2 hn.2 (Lexeme.endsMark_of_alone hfs.1)
  have hbody : Layout.Scans (fun ts => ∃ us t, ts = us ++ [t] ∧ Spells us (.alternatives ps) ∧
      t.kind = x.closing) (n + 1) n (a ++ [f]) rest := by
    refine (hps _ hends).append hclose ?_
    rintro ts us hts ⟨t, rfl, ht⟩
    exact ⟨ts, t, rfl, hts, ht⟩
  refine hopen.append hbody ?_
  rintro ts us ⟨t, rfl, ht⟩ ⟨us, last, rfl, hus, hlast⟩
  exact .bracketed ht hus hlast

theorem Production.scans_choice
    (hp : ∀ rest, EndsComponent rest → Layout.Scans (Spells · (.sequence p)) n n a rest)
    (hps : Layout.Scans (Spells · (.alternatives ps)) n n b rest) :
    Layout.Scans (Spells · (.alternatives (p :: ps))) n n
      (a ++ ([' '] ++ (['|'] ++ ([' '] ++ b)))) rest := by
  have hbar : Layout.Scans (fun ts => ∃ t, ts = [t] ∧ t.kind = .op .pipe) n n ['|']
      ([' '] ++ b ++ rest) :=
    Layout.scans_mark (o := .pipe) (by decide) rfl rfl (Lexeme.endsMark_of_head (by simp))
  have htail : Layout.Scans (fun ts => ∃ t us, ts = t :: us ∧ t.kind = .op .pipe ∧
      Spells us (.alternatives ps)) n n (['|'] ++ ([' '] ++ b)) rest := by
    refine hbar.append hps.skip ?_
    rintro ts us ⟨t, rfl, ht⟩ hus
    exact ⟨t, us, rfl, ht, hus⟩
  refine (hp _ (.cons (by simp))).append htail.skip ?_
  rintro ts us hts ⟨t, us, rfl, ht, hus⟩
  exact .choice hts ht hus

theorem Production.scans_cons
    (hc : ∀ rest, EndsComponent rest → Layout.Scans (Spells · (.component c)) n n a rest)
    (hp : Layout.Scans (Spells · (.sequence p)) n n b rest) :
    Layout.Scans (Spells · (.sequence (c :: p))) n n (a ++ ([' '] ++ b)) rest :=
  (hc _ (.cons (by simp))).append hp.skip fun _ _ hts hus => .cons hts hus

end Groups

mutual

theorem Symbol.scans_display (s : Symbol) (hs : ∀ x ∈ s.withInner, x.isPrintable = true) (n : Nat)
    (rest : List Char) (hr : EndsSymbol rest) :
    Layout.Scans (Spells · (.symbol s)) n n s.display.toList rest := by
  match s with
  | .terminal v =>
    obtain ⟨hw, hu⟩ : isWord v.toList = true ∧ Text.isUpperWord v = true := by
      simpa [Symbol.withInner, Symbol.isPrintable] using hs
    exact Layout.scans_word hw (ofSpelling?_of_isUpperWord hu) (.terminal hu) hr
  | .literal v =>
    exact Layout.scans_literal (by simpa [Symbol.withInner, Symbol.isPrintable] using hs) hr
  | .nonTerminal v =>
    obtain ⟨⟨hw, hk⟩, hl⟩ : (isWord v.toList = true ∧ Token.Keyword.ofSpelling? v = none) ∧
        Text.isLowerWord v = true := by
      simpa [Symbol.withInner, Symbol.isPrintable, isName] using hs
    exact Layout.scans_word hw hk (.reference (isUpperWord_of_isLowerWord hw hl) hl) hr
  | .group ⟨o, i, ps⟩ =>
    simp only [Symbol.withInner, List.forall_mem_cons] at hs
    obtain ⟨rfl, hne⟩ : i = false ∧ ps ≠ [] := by simpa [Symbol.isPrintable] using hs.1
    have ih := Production.scans_displayList ps hne hs.2 (n + 1)
    cases o with
    | false =>
      have htext : (Symbol.group ⟨false, false, ps⟩).display.toList =
          ['('] ++ ((" | ".intercalate (Production.displayList ps)).toList ++ [')']) := by
        simp [Symbol.display, displayGroup]
      rw [htext]
      exact Symbol.scans_bracketed (x := .round) ⟨rfl, rfl⟩ (by decide) (by decide) ih
    | true =>
      have htext : (Symbol.group ⟨true, false, ps⟩).display.toList =
          ['['] ++ ((" | ".intercalate (Production.displayList ps)).toList ++ [']']) := by
        simp [Symbol.display, displayGroup]
      rw [htext]
      exact Symbol.scans_bracketed (x := .square) ⟨rfl, rfl⟩ (by decide) (by decide) ih
termination_by structural s

theorem Production.scans_displayList (ps : List Production) (hne : ps ≠ [])
    (hs : ∀ x ∈ Production.symbolsList ps, x.isPrintable = true) (n : Nat)
    (rest : List Char) (hr : EndsComponent rest) :
    Layout.Scans (Spells · (.alternatives ps)) n n
      (" | ".intercalate (Production.displayList ps)).toList rest := by
  match ps with
  | [] => exact absurd rfl hne
  | p :: ps =>
    simp only [Production.symbolsList, List.forall_mem_append] at hs
    have ih := Production.scans_displayParts p hs.1 n
    have ih' := Production.scans_displayList ps
    cases ps with
    | nil => simpa [Production.displayList] using (ih rest hr).imp fun ts h => h.single
    | cons q ps =>
      have h := Production.scans_choice ih (ih' (by simp) hs.2 n rest hr)
      simpa [Production.displayList, String.intercalate_cons_cons] using h
termination_by structural ps

theorem Production.scans_displayParts (p : Production)
    (hs : ∀ x ∈ Production.symbols p, x.isPrintable = true) (n : Nat)
    (rest : List Char) (hr : EndsComponent rest) :
    Layout.Scans (Spells · (.sequence p)) n n
      (" ".intercalate (Production.displayParts p)).toList rest := by
  match p with
  | [] => exact Layout.Scans.nil .nil
  | ⟨s, m⟩ :: p =>
    simp only [Production.symbols, List.forall_mem_append] at hs
    have hc (rest : List Char) (hr : EndsComponent rest) : Layout.Scans
        (Spells · (.component ⟨s, m⟩)) n n (s.display ++ m.display).toList rest :=
      Component.scans_display (Symbol.scans_display s hs.1 n) hr
    have ih := Production.scans_displayParts p hs.2 n rest hr
    cases p with
    | nil => simpa [Production.displayParts] using (hc rest hr).imp fun ts h => h.sequence
    | cons c p =>
      have hne : Production.displayParts (c :: p) ≠ [] := by simp [Production.displayParts_eq_map]
      have htext : (" ".intercalate (Production.displayParts (⟨s, m⟩ :: c :: p))).toList =
          (s.display ++ m.display).toList ++
            ([' '] ++ (" ".intercalate (Production.displayParts (c :: p))).toList) := by
        rw [Production.displayParts, String.intercalate_cons_of_ne_nil hne]
        simp
      rw [htext]
      exact Production.scans_cons hc ih
termination_by structural p

end

/-- Tokens spell a rule as it is printed, with layout behind it. -/
inductive SpellsLine : List Token → Rule → Prop where
  | intro {name colon : Token} {body tail : List Token} {ps : List Production} :
      name.kind = .name → colon.kind = .op .colon → Spells body (.alternatives ps) →
      (∀ t ∈ tail, t.kind.isLayout = true) →
      SpellsLine (name :: colon :: (body ++ tail)) (.ofBody name.text ps)

namespace SpellsLine

variable {seg tail : List Token} {r : Rule}

theorem append (h : SpellsLine seg r) (htail : ∀ t ∈ tail, t.kind.isLayout = true) :
    SpellsLine (seg ++ tail) r := by
  cases h with
  | intro hn hc hs hbefore =>
    simpa using SpellsLine.intro hn hc hs (List.forall_mem_append.mpr ⟨hbefore, htail⟩)

theorem isSegment (h : SpellsLine seg r) : IsSegment seg := by
  cases h with
  | @intro name colon body tail ps hn hc hs htail =>
    refine ⟨name, colon, body ++ tail, rfl, hn, hc, fun t ht hk => ?_⟩
    rcases List.mem_append.mp ht with ht | ht
    · exact hs.kind_ne_colon t ht hk
    · simpa [hk, Token.Kind.isLayout] using htail t ht

theorem filter_body {body : List Token} {x : BodyPart} (hs : Spells body x)
    (htail : ∀ t ∈ tail, t.kind.isLayout = true) :
    (body ++ tail).filter (! ·.kind.isLayout) = body := by
  have hkeep : body.filter (! ·.kind.isLayout) = body := by simpa using hs.isLayout_eq_false
  have hdrop : tail.filter (! ·.kind.isLayout) = [] := by simpa using htail
  rw [List.filter_append, hkeep, hdrop, List.append_nil]

/-- What is printed for a rule is read as the rule, unless the body is empty or a single plain
group. -/
theorem spellsRule (h : SpellsLine seg r) (hempty : r.groups ≠ [.body [[]]])
    (hplain : ∀ implicit qs, r.groups ≠ [.body [[.once (.group ⟨false, implicit, qs⟩)]]]) :
    SpellsRule seg r := by
  cases h with
  | @intro name colon body tail ps hn hc hs htail =>
    have hfilter := filter_body hs htail
    have hl : Lifts ps ps := .whole fun i qs hps => hplain i qs (by rw [hps]; rfl)
    refine .intro hn hc ?_ (hfilter.symm ▸ hs) hl
    rw [hfilter]
    rintro rfl
    rcases hs.eq_of_nil rfl with h | h
    · cases h
    · exact hempty (by rw [BodyPart.alternatives.inj h]; rfl)

end SpellsLine

namespace Rule

variable {r : Rule} {ps : List Production} {n : Nat} {rest : List Char}

theorem Printable.legible (h : r.Printable) : r.Legible := by
  obtain ⟨ps, hg, hne, -⟩ := h.body
  exact ⟨h.name, ⟨ps, hg, hne⟩, h.symbols⟩

theorem Printable.spellsRule {seg : List Token} (h : r.Printable) (hseg : SpellsLine seg r) :
    SpellsRule seg r := by
  obtain ⟨ps, hg, -, hempty, hplain⟩ := h.body
  have hbody : ∀ {qs}, r.groups = [.body qs] → ps = qs := by
    intro qs hqs
    simpa [Group.body] using hg.symm.trans hqs
  exact hseg.spellsRule (fun h => hempty (hbody h)) fun i qs h => hplain i qs (hbody h)

/-- The blank in front of a body does not count. -/
theorem scans_displayBody {P : List Token → Prop} {g : Group}
    (h : Layout.Scans P n n g.display.toList rest) :
    Layout.Scans P n n (displayBody g).toList rest := by
  unfold displayBody
  dsimp only
  split
  · exact h
  · split
    · exact h
    · rw [String.toList_append]
      exact h.skip

theorem toList_display (name : String) (g : Group) :
    (display ⟨name, [g]⟩ ++ "\n").toList =
      name.toList ++ ([':'] ++ ((displayBody g).toList ++ ['\n'])) := by
  simp [display]

/-- A printed rule is read from the start of a line to the start of the next one. -/
theorem exists_line_display (hr : r.Legible) (p : Position) (rest : List Char) :
    ∃ q seg, SpellsLine seg r ∧
      Layout.start.events p (lexemes ((r.display ++ "\n").toList ++ rest)) =
        seg.map .token ++ Layout.start.events q (lexemes rest) := by
  obtain ⟨name, groups⟩ := r
  obtain ⟨ps, rfl : groups = _, hne⟩ := hr.body
  obtain ⟨hw, hk⟩ : isWord name.toList = true ∧ Token.Keyword.ofSpelling? name = none := by
    simpa [isName] using hr.name
  have hsyms : ∀ s ∈ Production.symbolsList ps, s.isPrintable = true := by
    simpa [symbols, Group.body] using hr.symbols
  have hbody : Layout.Scans (Spells · (.alternatives ps)) 0 0 (displayBody (.body ps)).toList
      (['\n'] ++ rest) := by
    have hends : EndsComponent (['\n'] ++ rest) := .cons (by simp)
    have htext : (Group.body ps).display = " | ".intercalate (Production.displayList ps) := by
      simp [Group.display, Group.body, displayGroup, Production.displayList_eq_map]
    exact scans_displayBody (htext ▸ Production.scans_displayList ps hne hsyms 0 _ hends)
  have hcolon : Layout.Scans (fun ts => ∃ t, ts = [t] ∧ t.kind = .op .colon) 0 0 [':']
      ((displayBody (.body ps)).toList ++ (['\n'] ++ rest)) :=
    Layout.scans_mark (o := .colon) (by decide) rfl rfl (Lexeme.endsMark_of_alone (by decide))
  have hname : EndsWord ([':'] ++ ((displayBody (.body ps)).toList ++ (['\n'] ++ rest))) := by
    simp only [EndsWord, List.singleton_append, List.head?_cons, Option.mem_some_iff, forall_eq']
    decide
  obtain ⟨_, ⟨colon, rfl, hc⟩, hec⟩ := hcolon (p.behind name.toList)
  obtain ⟨body, hspells, heb⟩ := hbody ((p.behind name.toList).behind [':'])
  generalize ((p.behind name.toList).behind [':']).behind _ = q at heb
  refine ⟨q.behind ['\n'], ⟨.name, some name, p⟩ :: colon :: (body ++ [⟨.newline, none, q⟩]),
    .intro rfl hc hspells (by simp [Token.Kind.isLayout]), ?_⟩
  rw [toList_display, List.append_assoc, List.append_assoc, List.append_assoc,
    Lexeme.lexemes_word hw hname, wordForm_eq hk, Layout.events_name, hec, heb,
    List.singleton_append, Lexeme.lexemes_lineFeed, Layout.events_lineEnd]
  simp

end Rule

theorem Mode.collect_map_token (mode : Mode) (ts : List Token) :
    mode.collect (ts.map .token) = .ok ts := by
  induction ts with
  | nil => rfl
  | cons t ts ih => simp [collect, ih, Except.map]

namespace Dictionary

/-- The layout at the end of a text belongs to the last rule, or stands alone when there is none. -/
theorem exists_lines_rules {rs : List Rule} (hrs : ∀ r ∈ rs, r.Legible) (p : Position) :
    ∃ before segs, (∀ t ∈ before, Token.Kind.isLayout t.kind = true) ∧
      List.Forall₂ SpellsLine segs rs ∧
      Layout.start.events p (lexemes (rs.flatMap fun r => (r.display ++ "\n").toList)) =
        (before ++ segs.flatten).map .token := by
  induction rs generalizing p with
  | nil => exact ⟨[⟨.endMarker, none, p⟩], [], by simp [Token.Kind.isLayout], .nil, rfl⟩
  | cons r rs ih =>
    obtain ⟨q, seg, hseg, he⟩ := Rule.exists_line_display (hrs r List.mem_cons_self) p
      (rs.flatMap fun r => (r.display ++ "\n").toList)
    obtain ⟨before, segs, hbefore, hsegs, he'⟩ :=
      ih (fun r hr => hrs r (List.mem_cons_of_mem _ hr)) q
    refine ⟨[], (seg ++ before) :: segs, by simp, .cons (hseg.append hbefore) hsegs, ?_⟩
    rw [List.flatMap_cons, he, he']
    simp

theorem exists_spells_rules {rs : List Rule} (hrs : ∀ r ∈ rs, r.Printable) (p : Position) :
    ∃ before segs, (∀ t ∈ before, Token.Kind.isLayout t.kind = true) ∧
      List.Forall₂ SpellsRule segs rs ∧
      Layout.start.events p (lexemes (rs.flatMap fun r => (r.display ++ "\n").toList)) =
        (before ++ segs.flatten).map .token := by
  obtain ⟨before, segs, hbefore, hsegs, he⟩ :=
    exists_lines_rules (fun r hr => (hrs r hr).legible) p
  refine ⟨before, segs, hbefore, ?_, he⟩
  have hboth := (List.forall₂_and_left _ _).mpr ⟨hrs, hsegs.flip⟩
  exact (hboth.imp fun r seg h => h.1.spellsRule h.2).flip

/-- Reading undoes printing. -/
theorem ofText_display {d : Dictionary} (hd : d.Printable) : ofText d.display = .ok d := by
  obtain ⟨before, segs, hbefore, hsegs, he⟩ := exists_spells_rules hd.rules .start
  have htext : d.display.toList = d.rules.flatMap fun r => (r.display ++ "\n").toList := by
    simp [display, List.flatMap_map]
  have htokens : tokens .lenient d.display = .ok (before ++ segs.flatten) := by
    rw [tokens, events, htext, he, Mode.collect_map_token]
  have hnames : (d.rules.map Rule.name).Nodup := hd.named.keys_eq ▸ d.nodup_keys
  rw [ofText, htokens]
  exact ofTokens_of_spellsRule hbefore hsegs hnames hd.named.entries_eq

/-- Groups within groups, an empty alternative, and a literal that holds a quote. -/
def nested : Dictionary where
  entries :=
    [("sum", .ofBody "sum" [[.once (.nonTerminal "item"),
      ⟨.group ⟨false, false, [[.once (.literal "+"), .once (.nonTerminal "item")],
        [.once (.group ⟨true, false, [[.once (.terminal "MINUS")]]⟩), .once (.literal "it's")]]⟩,
        .star⟩], []]),
     ("item", .ofBody "item" [[⟨.terminal "NAME", .plus⟩]])]
  nodup_keys := by decide

theorem ofText_display_nested : nested.Printable ∧ ofText nested.display = .ok nested := by
  have hrules : ∀ r ∈ nested.rules, r.Printable := by
    intro r hr
    obtain rfl | rfl := by simpa [nested, rules] using hr
    · exact ⟨by decide, ⟨_, rfl, by simp, by simp, by simp⟩, by decide⟩
    · exact ⟨by decide, ⟨_, rfl, by simp, by simp, by simp [Component.once]⟩, by decide⟩
  have hprintable : nested.Printable := ⟨by decide, hrules⟩
  exact ⟨hprintable, ofText_display hprintable⟩

end Dictionary

end GrammarForge
