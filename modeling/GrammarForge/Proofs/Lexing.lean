import GrammarForge.Lexeme.Basic

/-!
Which lexeme a text starts with. A word, a literal or a mark at the start of a text is a lexeme of
its own as soon as the character behind it cannot go on with it.
-/

namespace GrammarForge

open Text

def isWord (w : List Char) : Bool :=
  match w with
  | [] => false
  | c :: cs => isWordStart c && cs.all isWordChar

/-- A text that can stand between two quotes as it is. -/
def isQuotable (q : Char) : List Char → Bool
  | [] => true
  | c :: cs =>
    if c = '\\' then
      match cs with
      | [] => false
      | _ :: rest => isQuotable q rest
    else c != q && c != '\n' && isQuotable q cs

/-- What stands behind a word cannot go on with it, or make a literal of it. -/
def EndsWord (rest : List Char) : Prop :=
  ∀ c ∈ rest.head?, isWordChar c = false ∧ c ≠ '\x27' ∧ c ≠ '\x22'

/-- No longer operator goes on from `c` with what stands behind it. -/
def EndsMark (c : Char) (rest : List Char) : Prop :=
  ∀ d ∈ rest.head?, ∀ o : Token.Operator, ¬ [c, d] <+: o.spelling.toList

theorem lexemes_of_first {c : Char} {cs rest : List Char} {l : Lexeme}
    (h : Lexeme.first c (cs ++ rest) = l) (hl : l.source = c :: cs) :
    lexemes (c :: cs ++ rest) = l :: lexemes rest := by
  rw [List.cons_append, lexemes_cons, h, hl, ← List.cons_append, List.drop_left]

namespace Lexeme

variable {c : Char} {cs rest w : List Char}

theorem first_eq_solid (h : c ∉ [' ', '\t', '\x0c', '#', '\n', '\r', '\\']) :
    first c cs = solid c cs := by
  simp only [List.mem_cons, List.not_mem_nil, or_false, not_or] at h
  simp [first, isBlank, isLineEnd, h]

theorem not_mem_of_isWordChar {l : List Char} (hc : isWordChar c = true)
    (hl : l.all (! isWordChar ·) = true) : c ∉ l := by
  intro h
  have := List.all_eq_true.mp hl c h
  simp [hc] at this

theorem isWordChar_of_isLeadLetter (h : Literal.isLeadLetter c = true) : isWordChar c = true := by
  have hm : c ∈ ['r', 'R', 'b', 'B', 'u', 'U', 'f', 'F'] := by
    simpa [Literal.isLeadLetter] using h
  exact List.all_eq_true.mp (by decide : List.all _ isWordChar = true) c hm

theorem isWordChar_of_isWordStart (h : isWordStart c = true) : isWordChar c = true := by
  have hc : c.isAlpha = true ∨ c = '_' := by simpa [isWordStart] using h
  rcases hc with hc | rfl
  · simp [isWordChar, Char.isAlphanum, hc]
  · decide

theorem all_of_isWord (hw : isWord w = true) : w.all isWordChar = true := by
  cases w with
  | nil => rfl
  | cons c cs =>
    obtain ⟨hc, hcs⟩ : isWordStart c = true ∧ cs.all isWordChar = true := by simpa [isWord] using hw
    simp [isWordChar_of_isWordStart hc, hcs]

theorem startsNumber_of_isWordStart (h : isWordStart c = true) : startsNumber c cs = false := by
  have hdot : c ≠ '.' := by
    rintro rfl
    revert h
    decide
  have hdigit : c.isDigit = false := by
    have hc : c.isAlpha = true ∨ c = '_' := by simpa [isWordStart] using h
    rcases hc with hc | rfl
    · unfold Char.isAlpha Char.isUpper Char.isLower at hc
      simp only [Char.isDigit, Bool.or_eq_true, Bool.and_eq_true, decide_eq_true_eq,
        Bool.and_eq_false_iff, decide_eq_false_iff_not, UInt32.le_iff_toNat_le, ge_iff_le] at hc ⊢
      simp at hc ⊢
      omega
    · decide
  simp [startsNumber, hdot, hdigit]

theorem opening?_eq_none (h : ∀ c ∈ cs.head?, c ≠ '\x27' ∧ c ≠ '\x22') :
    Quote.opening? cs = none := by
  cases cs with
  | nil => rfl
  | cons c cs => simp [Quote.opening?, h c rfl]

/-- The letters in front of a word are no prefix of a literal. -/
theorem opening?_behind_word (hw : w.all isWordChar = true) (hrest : EndsWord rest) (n : Nat) :
    Quote.opening? ((w ++ rest).drop
      (((w ++ rest).take n).takeWhile Literal.isLeadLetter).length) = none := by
  induction w generalizing n with
  | nil =>
    have hopen := opening?_eq_none fun c hc => (hrest c hc).2
    cases rest with
    | nil => simpa using hopen
    | cons c rest =>
      have hl : Literal.isLeadLetter c ≠ true := by
        intro hl
        simpa [isWordChar_of_isLeadLetter hl] using hrest c rfl
      cases n with
      | zero => simpa using hopen
      | succ n => simpa [hl] using hopen
  | cons c w ih =>
    simp only [List.all_cons, Bool.and_eq_true] at hw
    have hopen : Quote.opening? (c :: (w ++ rest)) = none := by
      have := not_mem_of_isWordChar (l := ['\x27', '\x22']) hw.1 (by decide)
      exact opening?_eq_none (by simpa using this)
    cases n with
    | zero => simpa using hopen
    | succ n =>
      by_cases hl : Literal.isLeadLetter c = true
      · simpa [hl] using ih hw.2 n
      · simpa [hl] using hopen

theorem read_word (hw : w.all isWordChar = true) (hrest : EndsWord rest) :
    Literal.read (w ++ rest) = .absent := by
  have h := opening?_behind_word hw hrest 2
  simp only [Literal.read, Literal.leadLetters, h]

theorem read_eq_absent (hlead : Literal.isLeadLetter c = false) (hc : c ∉ ['\x27', '\x22']) :
    Literal.read (c :: cs) = .absent := by
  have hopen : Quote.opening? (c :: cs) = none := opening?_eq_none (by simpa using hc)
  simp [Literal.read, Literal.leadLetters, hlead, hopen]

theorem takeWhile_isWordChar (hw : w.all isWordChar = true) (hrest : EndsWord rest) :
    (w ++ rest).takeWhile isWordChar = w := by
  rw [List.takeWhile_append_of_pos (List.all_eq_true.mp hw)]
  cases rest with
  | nil => simp
  | cons c rest => simp [(hrest c rfl).1]

theorem lexemes_word (hw : isWord w = true) (hrest : EndsWord rest) :
    lexemes (w ++ rest) = ⟨wordForm w, w⟩ :: lexemes rest := by
  match w with
  | [] => cases hw
  | c :: cs =>
    obtain ⟨hc, hcs⟩ : isWordStart c = true ∧ cs.all isWordChar = true := by simpa [isWord] using hw
    have hsolid := not_mem_of_isWordChar (isWordChar_of_isWordStart hc)
      (l := [' ', '\t', '\x0c', '#', '\n', '\r', '\\']) (by decide)
    refine lexemes_of_first ?_ rfl
    have hread := read_word (all_of_isWord hw) hrest
    rw [List.cons_append] at hread
    rw [first_eq_solid hsolid, solid, hread]
    simp [startsNumber_of_isWordStart hc, hc, takeWhile_isWordChar hcs hrest]

theorem body?_append {q : Char} {v : List Char} (hv : isQuotable q v = true) (hq : q ≠ '\\') :
    Literal.body? ⟨q, false⟩ (v ++ q :: rest) = some v := by
  fun_induction isQuotable q v with
  | case1 =>
    rw [List.nil_append, Literal.body?.eq_def]
    simp [Quote.text, hq]
  | case2 => cases hv
  | case3 d v ih =>
    rw [List.cons_append, List.cons_append, Literal.body?.eq_def]
    simp [ih hv]
  | case4 c v hc ih =>
    simp only [Bool.and_eq_true, bne_iff_ne] at hv
    obtain ⟨⟨hcq, hcn⟩, hv⟩ := hv
    rw [List.cons_append, Literal.body?.eq_def]
    simp [Quote.text, hc, hcn, Ne.symm hcq, ih hv]

theorem read_literal {q : Char} {v : List Char} (hq : q = '\x27' ∨ q = '\x22')
    (hv : isQuotable q v = true) (hrest : q ∉ rest.head?) :
    Literal.read (q :: (v ++ q :: rest)) = .closed ⟨[], ⟨q, false⟩, v⟩ := by
  have hplain : q ≠ '\\' ∧ Literal.isLeadLetter q = false := by
    rcases hq with rfl | rfl <;> decide
  have htriple : [q, q].isPrefixOf (v ++ q :: rest) = false := by
    rw [Bool.eq_false_iff, Ne, List.isPrefixOf_iff_prefix]
    rintro ⟨t, ht⟩
    cases v with
    | nil =>
      obtain ⟨-, rfl⟩ := List.cons.inj ht
      exact hrest rfl
    | cons c v =>
      obtain ⟨rfl, -⟩ := List.cons.inj ht
      rw [isQuotable.eq_def] at hv
      simp [hplain.1] at hv
  have hopen : Quote.opening? (q :: (v ++ q :: rest)) = some ⟨q, false⟩ := by
    rcases hq with rfl | rfl <;> simp only [Quote.opening?, htriple] <;> rfl
  have hlead : Literal.leadLetters (q :: (v ++ q :: rest)) = [] := by
    simp [Literal.leadLetters, hplain.2]
  have hbody : Literal.body? ⟨q, false⟩ (v ++ q :: rest) = some v := body?_append hv hplain.1
  simp [Literal.read, hlead, hopen, Quote.text, hbody]

theorem lexemes_literal {q : Char} {v : List Char} (hq : q = '\x27' ∨ q = '\x22')
    (hv : isQuotable q v = true) (hrest : q ∉ rest.head?) :
    lexemes (q :: (v ++ [q]) ++ rest) =
      ⟨.token .string (some (String.ofList v)), q :: (v ++ [q])⟩ :: lexemes rest := by
  have hsolid : q ∉ [' ', '\t', '\x0c', '#', '\n', '\r', '\\'] := by
    rcases hq with rfl | rfl <;> decide
  refine lexemes_of_first ?_ rfl
  rw [List.append_assoc, List.singleton_append, first_eq_solid hsolid, solid,
    read_literal hq hv hrest]
  simp [Literal.source, Quote.text]

theorem endsMark_of_alone (hc : c ∈ [':', '(', ')', '[', ']']) : EndsMark c rest := by
  have halone : ∀ o : Token.Operator,
      o.spelling.toList.head? ∈ [':', '(', ')', '[', ']'].map some →
        o.spelling.toList.length = 1 := by
    intro o
    cases o <;> decide
  rintro d - o ⟨t, ht⟩
  have hlength := halone o (by simpa [← ht] using hc)
  simp [← ht] at hlength

theorem endsMark_of_head (hrest : ∀ d ∈ rest.head?, d ∈ [' ', ')', ']', '\n']) :
    EndsMark c rest := by
  have hsecond : ∀ o : Token.Operator, ∀ d ∈ o.spelling.toList[1]?, d ∉ [' ', ')', ']', '\n'] := by
    intro o
    cases o <;> simp [Token.Operator.spelling, Token.Operator.entry]
  rintro d hd o ⟨t, ht⟩
  exact hsecond o d (by simp [← ht]) (hrest d hd)

theorem operator?_eq {o : Token.Operator} (ho : o.spelling.toList = [c]) (hrest : EndsMark c rest) :
    operator? (c :: rest) = some o := by
  have hone : Token.Operator.ofSpelling? (String.ofList [c]) = some o := by
    rw [← ho, String.ofList_toList]
    exact o.ofSpelling?_spelling
  cases rest with
  | nil => simp only [operator?, List.findSome?_cons, List.take_succ_cons, List.take_nil, hone]
  | cons d rest =>
    have hno : ∀ l, Token.Operator.ofSpelling? (String.ofList (c :: d :: l)) = none := by
      intro l
      cases hs : Token.Operator.ofSpelling? (String.ofList (c :: d :: l)) with
      | none => rfl
      | some o' =>
        refine absurd ?_ (hrest d rfl o')
        rw [Token.Operator.spelling_of_ofSpelling? hs, String.toList_ofList]
        exact ⟨l, rfl⟩
    simp only [operator?, List.findSome?_cons, List.take_succ_cons, List.take_zero, hno, hone]

theorem lexemes_mark {o : Token.Operator} (hm : c ∈ [':', '|', '(', ')', '[', ']', '*', '+'])
    (hc : o.spelling.toList = [c]) (hrest : EndsMark c rest) :
    lexemes (c :: rest) = ⟨.token (.op o) none, [c]⟩ :: lexemes rest := by
  have hplain : ∀ x ∈ [':', '|', '(', ')', '[', ']', '*', '+'],
      x ∉ [' ', '\t', '\x0c', '#', '\n', '\r', '\\'] ∧ isWordStart x = false ∧
        Literal.isLeadLetter x = false ∧ x ∉ ['\x27', '\x22'] ∧ x.isDigit = false ∧ x ≠ '.' := by
    simp [isWordStart, Literal.isLeadLetter]
  obtain ⟨hsolid, hstart, hlead, hquote, hdigit, hdot⟩ := hplain c hm
  have hread : Literal.read (c :: rest) = .absent := read_eq_absent hlead hquote
  rw [← List.singleton_append]
  refine lexemes_of_first ?_ rfl
  rw [List.nil_append, first_eq_solid hsolid, solid, hread]
  simp [startsNumber, hdigit, hdot, hstart, operator?_eq hc hrest, hc]

theorem lexemes_lineFeed : lexemes ('\n' :: rest) = ⟨.lineEnd, ['\n']⟩ :: lexemes rest := by
  rw [← List.singleton_append]
  exact lexemes_of_first (by simp [first, isBlank, isLineEnd, lineEnd]) rfl

theorem lexemes_blank (hc : isBlank c = true) :
    lexemes (c :: cs) = ⟨.blank, c :: cs.takeWhile isBlank⟩ :: lexemes (cs.dropWhile isBlank) := by
  have h : lexemes (c :: cs.takeWhile isBlank ++ cs.dropWhile isBlank) = _ :: lexemes _ :=
    lexemes_of_first (l := ⟨.blank, c :: cs.takeWhile isBlank⟩) (by simp [first, hc]) rfl
  rwa [List.cons_append, List.takeWhile_append_dropWhile] at h

end Lexeme
end GrammarForge
