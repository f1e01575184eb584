import GrammarForge.Proofs.ClosingQuotes
import Mathlib.Data.List.Infix

/-!
Line ends of two characters. A text whose lines end with a line feed has the same lexemes when a
carriage return is put in front of each of them. Only a literal in quotes of one mark is lost if it
goes on behind a line end: a backslash hides one character, which is the carriage return then, and
the line feed ends the literal.
-/

namespace GrammarForge

namespace Text

/-- The text with a carriage return in front of every line feed. -/
def crlf (cs : List Char) : List Char :=
  cs.flatMap fun c => if c = '\n' then ['\r', '\n'] else [c]

def crlfString (s : String) : String := String.ofList (crlf s.toList)

section Crlf

variable {c : Char} {cs w : List Char} {p : Char → Bool}

@[simp] theorem crlf_nil : crlf [] = [] := rfl

@[simp] theorem crlf_lineFeed : crlf ('\n' :: cs) = '\r' :: '\n' :: crlf cs := rfl

theorem crlf_cons (hc : c ≠ '\n') : crlf (c :: cs) = c :: crlf cs := by
  simp [crlf, hc]

@[simp] theorem crlf_append : crlf (w ++ cs) = crlf w ++ crlf cs := List.flatMap_append

theorem crlf_eq_self (h : '\n' ∉ cs) : crlf cs = cs := by
  induction cs with
  | nil => rfl
  | cons c cs ih =>
    have hc : c ≠ '\n' := Ne.symm (List.ne_of_not_mem_cons h)
    rw [crlf_cons hc, ih (List.not_mem_of_not_mem_cons h)]

theorem crlf_eq_nil_iff : crlf cs = [] ↔ cs = [] := by
  cases cs with
  | nil => simp
  | cons c cs =>
    by_cases hc : c = '\n'
    · simp [hc]
    · simp [crlf_cons hc]

theorem crlf_append_left (h : '\n' ∉ w) : crlf (w ++ cs) = w ++ crlf cs := by
  rw [crlf_append, crlf_eq_self h]

theorem takeWhile_crlf (hn : p '\n' = false) (hr : p '\r' = false) :
    (crlf cs).takeWhile p = cs.takeWhile p := by
  induction cs with
  | nil => rfl
  | cons c cs ih =>
    by_cases hc : c = '\n'
    · simp [hc, hn, hr]
    · rw [crlf_cons hc, List.takeWhile_cons, List.takeWhile_cons, ih]

theorem lineFeed_not_mem_takeWhile (hn : p '\n' = false) : '\n' ∉ cs.takeWhile p := fun h => by
  simpa [hn] using List.mem_takeWhile_imp h

theorem head?_crlf_any (hn : p '\n' = false) (hr : p '\r' = false) :
    (crlf cs).head?.any p = cs.head?.any p := by
  cases cs with
  | nil => rfl
  | cons c cs =>
    by_cases hc : c = '\n'
    · simp [hc, hn, hr]
    · simp [crlf_cons hc]

theorem isPrefix_crlf_iff (hn : '\n' ∉ w) (hr : '\r' ∉ w) : w <+: crlf cs ↔ w <+: cs := by
  induction w generalizing cs with
  | nil => simp
  | cons d w ih =>
    have hd : d ≠ '\n' ∧ d ≠ '\r' :=
      ⟨Ne.symm (List.ne_of_not_mem_cons hn), Ne.symm (List.ne_of_not_mem_cons hr)⟩
    cases cs with
    | nil => simp
    | cons c cs =>
      by_cases hc : c = '\n'
      · simp [hc, List.cons_prefix_cons, hd]
      · rw [crlf_cons hc, List.cons_prefix_cons, List.cons_prefix_cons,
          ih (List.not_mem_of_not_mem_cons hn) (List.not_mem_of_not_mem_cons hr)]

theorem take_crlf_eq_iff {n : Nat} (hn : '\n' ∉ w) (hr : '\r' ∉ w) :
    (crlf cs).take n = w ↔ cs.take n = w := by
  induction cs generalizing n w with
  | nil => rfl
  | cons c cs ih =>
    cases n with
    | zero => rfl
    | succ n =>
      by_cases hc : c = '\n'
      · subst hc
        rw [crlf_lineFeed, List.take_succ_cons, List.take_succ_cons]
        constructor
        · rintro rfl
          exact absurd List.mem_cons_self hr
        · rintro rfl
          exact absurd List.mem_cons_self hn
      · rw [crlf_cons hc, List.take_succ_cons, List.take_succ_cons]
        cases w with
        | nil => simp
        | cons d w =>
          rw [List.cons.injEq, List.cons.injEq, ih (List.not_mem_of_not_mem_cons hn)
            (List.not_mem_of_not_mem_cons hr)]

theorem drop_crlf (hw : '\n' ∉ w) (h : w <+: cs) :
    (crlf cs).drop w.length = crlf (cs.drop w.length) := by
  obtain ⟨rest, rfl⟩ := h
  rw [crlf_append_left hw, List.drop_left, List.drop_left]

end Crlf
end Text

open Text

theorem Quote.lineEnd_not_mem_text {q : Quote} (hq : q.mark ∈ ['\x27', '\x22']) :
    '\n' ∉ q.text ∧ '\r' ∉ q.text := by
  have hmark : '\n' ≠ q.mark ∧ '\r' ≠ q.mark := by
    obtain hq | hq : q.mark = '\x27' ∨ q.mark = '\x22' := by simpa using hq
    · simp [hq]
    · simp [hq]
  unfold text
  split <;> simp [hmark]

theorem Quote.opening?_crlf (cs : List Char) : opening? (crlf cs) = opening? cs := by
  cases cs with
  | nil => rfl
  | cons c cs =>
    by_cases hc : c = '\n'
    · subst hc
      rfl
    · rw [crlf_cons hc, opening?, opening?]
      by_cases hquote : (c = '\x27' || c = '\x22') = true
      · have hends : '\n' ∉ [c, c] ∧ '\r' ∉ [c, c] := by
          obtain rfl | rfl : c = '\x27' ∨ c = '\x22' := by simpa using hquote
          · decide
          · decide
        have htriple : [c, c].isPrefixOf (crlf cs) = [c, c].isPrefixOf cs := by
          rw [Bool.eq_iff_iff, List.isPrefixOf_iff_prefix, List.isPrefixOf_iff_prefix,
            isPrefix_crlf_iff hends.1 hends.2]
        rw [htriple]
      · rw [if_neg hquote, if_neg hquote]

def Quote.holds (q : Quote) (body : List Char) : Bool := q.triple || !body.contains '\n'

namespace Literal

variable {c : Char} {q : Quote} {b cs : List Char} {l : Literal}

def crlf (l : Literal) : Literal := { l with body := Text.crlf l.body }

theorem isPrefixOf_text (hc : c ∉ q.text) : q.text.isPrefixOf (c :: cs) = false := by
  rw [Bool.eq_false_iff, Ne, List.isPrefixOf_iff_prefix]
  refine Quote.not_isPrefix_of_ne fun hmark => hc ?_
  obtain ⟨marks, hmarks⟩ := q.exists_text
  simp [hmarks, hmark]

/-- A line end is a part of the body in a literal of three marks, and ends one of a single mark. -/
theorem body?_lineFeed (hn : '\n' ∉ q.text) :
    body? q ('\n' :: cs) = if q.triple then (body? q cs).map ('\n' :: ·) else none := by
  rw [body?.eq_def]
  cases q.triple <;> simp [isPrefixOf_text hn]

theorem body?_return (hn : '\n' ∉ q.text) (hr : '\r' ∉ q.text) :
    body? q ('\r' :: '\n' :: cs) =
      if q.triple then (body? q cs).map ('\r' :: '\n' :: ·) else none := by
  rw [body?.eq_def]
  cases htriple : q.triple <;> cases hb : body? q cs <;>
    simp [isPrefixOf_text hr, body?_lineFeed hn, htriple, hb]

theorem holds_append {w : List Char} (hw : '\n' ∉ w) : q.holds (w ++ b) = q.holds b := by
  simp [Quote.holds, hw]

theorem filter_holds_append {w : List Char} {body : Option (List Char)} (hw : '\n' ∉ w) :
    ((body.map (w ++ ·)).filter q.holds).map Text.crlf =
      ((body.filter q.holds).map Text.crlf).map (w ++ ·) := by
  cases body with
  | none => rfl
  | some b =>
    rw [Option.map_some, Option.filter_some, Option.filter_some, holds_append hw]
    cases q.holds b <;> simp [crlf_eq_self hw]

/-- A literal of a single mark is lost with a line end in its body, and all others are kept. -/
theorem body?_crlf (hq : q.mark ∈ ['\x27', '\x22']) :
    body? q (Text.crlf cs) = ((body? q cs).filter q.holds).map Text.crlf := by
  obtain ⟨hn, hr⟩ := Quote.lineEnd_not_mem_text hq
  fun_induction body? q cs with
  | case1 => rfl
  | case2 => rfl
  | case3 d rest ih =>
    rw [crlf_cons (by decide)]
    by_cases hd : d = '\n'
    · -- The backslash hides the carriage return, and the line feed is looked at.
      subst hd
      rw [crlf_lineFeed, body?.eq_def]
      simp only [if_true, body?_lineFeed hn, ih]
      cases htriple : q.triple <;> cases body? q rest <;>
        simp [Quote.holds, htriple, Option.filter_some, crlf_cons]
    · have hplain : '\n' ∉ ['\\', d] := by simp [Ne.symm hd]
      rw [crlf_cons hd, body?.eq_def]
      simp only [if_true, ih]
      exact (filter_holds_append hplain).symm
  | case4 c cs hc hquote =>
    have hleft := List.isPrefixOf_iff_prefix.mp hquote
    have hcn : c ≠ '\n' := by
      rintro rfl
      simp [isPrefixOf_text hn] at hquote
    rw [← isPrefix_crlf_iff hn hr, ← List.isPrefixOf_iff_prefix, crlf_cons hcn] at hleft
    rw [crlf_cons hcn, body?.eq_def]
    simp [hc, hleft, Quote.holds, Option.filter_some]
  | case5 c cs hc hquote hend =>
    obtain ⟨rfl, htriple⟩ : c = '\n' ∧ q.triple = false := by simpa using hend
    rw [crlf_lineFeed, body?_return hn hr, htriple]
    rfl
  | case6 c cs hc hquote hend ih =>
    by_cases hcn : c = '\n'
    · subst hcn
      have htriple : q.triple = true := by simpa using hend
      rw [crlf_lineFeed, body?_return hn hr, if_pos htriple, ih]
      cases body? q cs <;> simp [Quote.holds, htriple, Option.filter_some]
    · have hnot : q.text.isPrefixOf (c :: Text.crlf cs) = false := by
        rw [← crlf_cons hcn, Bool.eq_false_iff, Ne, List.isPrefixOf_iff_prefix,
          isPrefix_crlf_iff hn hr, ← List.isPrefixOf_iff_prefix]
        exact hquote
      have hplain : '\n' ∉ [c] := by simp [Ne.symm hcn]
      rw [crlf_cons hcn, body?.eq_def]
      simp only [hc, hnot, hcn, ih, if_false, decide_false, Bool.false_and, Bool.false_eq_true]
      exact (filter_holds_append hplain).symm

theorem lineFeed_not_mem_leadLetters : '\n' ∉ leadLetters cs := fun h =>
  absurd ((leadLetters_spec cs).2 _ h) (by decide)

theorem leadLetters_crlf : leadLetters (Text.crlf cs) = leadLetters cs := by
  rw [leadLetters, leadLetters, ← List.take_takeWhile, ← List.take_takeWhile,
    takeWhile_crlf (by decide) (by decide)]

def Reading.crlf : Reading → Reading
  | .closed l => if l.quote.holds l.body then .closed l.crlf else .unclosed l.lead l.quote
  | r => r

theorem read_crlf : read (Text.crlf cs) = (read cs).crlf := by
  unfold read
  dsimp only
  rw [leadLetters_crlf, drop_crlf lineFeed_not_mem_leadLetters (leadLetters_isPrefix cs),
    Quote.opening?_crlf]
  cases hopen : Quote.opening? (cs.drop (leadLetters cs).length) with
  | none => rfl
  | some q =>
    obtain ⟨hleft, hmark⟩ := Quote.opening?_spec hopen
    dsimp only
    rw [drop_crlf (Quote.lineEnd_not_mem_text hmark).1 hleft, body?_crlf hmark]
    cases body? q ((cs.drop (leadLetters cs).length).drop q.text.length) with
    | none => rfl
    | some b => by_cases hb : q.holds b = true <;> simp [Reading.crlf, Option.filter_some, hb, crlf]

theorem source_crlf (hlead : '\n' ∉ l.lead) (hq : l.quote.mark ∈ ['\x27', '\x22']) :
    l.crlf.source = Text.crlf l.source := by
  have htext := crlf_eq_self (Quote.lineEnd_not_mem_text hq).1
  simp [source, crlf, htext, crlf_eq_self hlead]

/-- A literal is read from its own source. -/
theorem read_source (h : read cs = .closed l) : read l.source = .closed l := by
  obtain ⟨rest, hopening, hbody⟩ := read_eq_closed_iff.mp h
  refine read_eq_closed_iff.mpr ⟨[], ?_, hbody⟩
  have hsource := hopening.of_isPrefix (List.prefix_append (l.body ++ l.quote.text) rest)
  simpa [source] using hsource

theorem lineFeed_not_mem_of_unclosed {lead : List Char} (h : read cs = .unclosed lead q) :
    '\n' ∉ lead ++ q.text := by
  obtain ⟨rest, hopening, -⟩ := read_eq_unclosed_iff.mp h
  have hlead : '\n' ∉ lead := isLead_iff.mp hopening.isLead ▸ lineFeed_not_mem_leadLetters
  simp [hlead, (Quote.lineEnd_not_mem_text hopening.opens.mark).1]

end Literal

def Token.Kind.crlf (k : Token.Kind) (text? : Option String) : Option String :=
  if k = .string then text?.map Text.crlfString else text?

namespace Lexeme

variable {c : Char} {cs : List Char}

def Form.crlf : Form → Form
  | .token k text? => .token k (k.crlf text?)
  | form => form

def crlf (l : Lexeme) : Lexeme := ⟨l.form.crlf, Text.crlf l.source⟩

/-- The lexeme is a literal in quotes of one mark that goes on behind a line end. -/
def hidesLineEnd (l : Lexeme) : Bool :=
  match l.form, Literal.read l.source with
  | .token .string _, .closed literal => !literal.quote.holds literal.body
  | _, _ => false

theorem startsNumber_crlf : startsNumber c (Text.crlf cs) = startsNumber c cs := by
  rw [startsNumber, startsNumber, head?_crlf_any (by decide) (by decide)]

theorem isNumberChar_lineEnd : isNumberChar '\n' = false ∧ isNumberChar '\r' = false := by
  decide +kernel

theorem numberTail_eq_nil (hc : isNumberChar c = false) : numberTail (c :: cs) = [] := by
  have hletter : ¬ (c = 'e' ∨ c = 'E') := by
    rintro (rfl | rfl)
    · exact absurd hc (by decide +kernel)
    · exact absurd hc (by decide +kernel)
  cases cs with
  | nil => simp [numberTail, hc]
  | cons d cs => simp [numberTail, hc, hletter]

theorem numberTail_crlf_eq_nil (hc : isNumberChar c = false) :
    numberTail (Text.crlf (c :: cs)) = [] := by
  by_cases hn : c = '\n'
  · rw [hn, crlf_lineFeed]
    exact numberTail_eq_nil isNumberChar_lineEnd.2
  · rw [crlf_cons hn]
    exact numberTail_eq_nil hc

theorem ne_lineFeed_of_isNumberChar (hc : isNumberChar c = true) : c ≠ '\n' := by
  rintro rfl
  exact absurd hc (by simp [isNumberChar_lineEnd.1])

theorem ne_lineFeed_of_exponent {d : Char}
    (h : ((c == 'e' || c == 'E') && (d == '+' || d == '-')) = true) : c ≠ '\n' ∧ d ≠ '\n' := by
  simp only [Bool.and_eq_true, Bool.or_eq_true, beq_iff_eq] at h
  constructor
  · rcases h.1 with rfl | rfl <;> decide
  · rcases h.2 with rfl | rfl <;> decide

theorem numberTail_crlf : numberTail (Text.crlf cs) = numberTail cs := by
  fun_induction numberTail cs with
  | case1 => rfl
  | case2 c hc =>
    rw [crlf_cons (ne_lineFeed_of_isNumberChar hc)]
    simp [numberTail, hc]
  | case3 c hc => exact numberTail_crlf_eq_nil (by simpa using hc)
  | case4 c d cs hexponent ih =>
    obtain ⟨hc, hd⟩ := ne_lineFeed_of_exponent hexponent
    rw [crlf_cons hc, crlf_cons hd, numberTail, if_pos hexponent, ih]
  | case5 c d cs hexponent hc ih =>
    rw [← ih, crlf_cons (ne_lineFeed_of_isNumberChar hc)]
    by_cases hd : d = '\n'
    · rw [hd, crlf_lineFeed, numberTail, if_neg (by simp), if_pos hc]
    · rw [crlf_cons hd, numberTail, if_neg hexponent, if_pos hc]
  | case6 c d cs hexponent hc => exact numberTail_crlf_eq_nil (by simpa using hc)

theorem lineFeed_not_mem_numberTail : '\n' ∉ numberTail cs := by
  fun_induction numberTail cs with
  | case2 c hc => simpa using (ne_lineFeed_of_isNumberChar hc).symm
  | case4 c d cs hexponent ih =>
    obtain ⟨hc, hd⟩ := ne_lineFeed_of_exponent hexponent
    simp [hc.symm, hd.symm, ih]
  | case5 c d cs hexponent hc ih => simp [(ne_lineFeed_of_isNumberChar hc).symm, ih]
  | _ => exact List.not_mem_nil

theorem lineEnd_not_mem_spelling (o : Token.Operator) :
    '\n' ∉ o.spelling.toList ∧ '\r' ∉ o.spelling.toList := by
  cases o <;> decide

theorem ofSpelling?_eq_some_iff {o : Token.Operator} :
    Token.Operator.ofSpelling? (String.ofList cs) = some o ↔ cs = o.spelling.toList := by
  constructor
  · intro h
    rw [Token.Operator.spelling_of_ofSpelling? h, String.toList_ofList]
  · rintro rfl
    rw [String.ofList_toList]
    exact o.ofSpelling?_spelling

theorem ofSpelling?_take_crlf (n : Nat) :
    Token.Operator.ofSpelling? (String.ofList ((Text.crlf cs).take n)) =
      Token.Operator.ofSpelling? (String.ofList (cs.take n)) := by
  ext o
  rw [ofSpelling?_eq_some_iff, ofSpelling?_eq_some_iff]
  obtain ⟨hn, hr⟩ := lineEnd_not_mem_spelling o
  exact take_crlf_eq_iff hn hr

theorem operator?_crlf : operator? (Text.crlf cs) = operator? cs := by
  simp only [operator?, ofSpelling?_take_crlf]

theorem crlf_wordForm (w : List Char) : (wordForm w).crlf = wordForm w := by
  unfold wordForm
  split <;> rfl

theorem solid_crlf (hc : c ≠ '\n')
    (hholds : ∀ l, Literal.read (c :: cs) = .closed l → l.quote.holds l.body = true) :
    solid c (Text.crlf cs) = (solid c cs).crlf := by
  have hread : Literal.read (c :: Text.crlf cs) = (Literal.read (c :: cs)).crlf := by
    rw [← crlf_cons hc, Literal.read_crlf]
  unfold solid
  rw [hread]
  cases hl : Literal.read (c :: cs) with
  | closed l =>
    obtain ⟨-, hlead, hmark⟩ := Literal.source_isPrefix_of_read hl
    have hlead : '\n' ∉ l.lead := hlead ▸ Literal.lineFeed_not_mem_leadLetters
    simp only [Literal.Reading.crlf, hholds l hl, if_true, crlf, Form.crlf, Token.Kind.crlf,
      Literal.source_crlf hlead hmark]
    simp [Literal.crlf, Text.crlfString]
  | unclosed lead q =>
    simp only [Literal.Reading.crlf, crlf, Form.crlf,
      crlf_eq_self (Literal.lineFeed_not_mem_of_unclosed hl)]
  | absent =>
    dsimp only [Literal.Reading.crlf]
    rw [startsNumber_crlf, numberTail_crlf, takeWhile_crlf (by decide) (by decide),
      ← crlf_cons hc, operator?_crlf]
    split
    · have hsource : '\n' ∉ c :: numberTail cs :=
        List.not_mem_cons_of_ne_of_not_mem (Ne.symm hc) lineFeed_not_mem_numberTail
      rw [crlf, crlf_eq_self hsource]
      rfl
    · split
      · have hsource : '\n' ∉ c :: cs.takeWhile Text.isWordChar :=
          List.not_mem_cons_of_ne_of_not_mem (Ne.symm hc) (lineFeed_not_mem_takeWhile (by decide))
        rw [crlf, crlf_eq_self hsource, crlf_wordForm]
      · split
        · rename_i o ho
          rw [crlf, crlf_eq_self (lineEnd_not_mem_spelling o).1]
          rfl
        · rw [crlf, crlf_cons hc]
          rfl

theorem solid_crlf_of_closed {l : Literal} (hc : c ≠ '\n')
    (h : Literal.read (c :: cs) = .closed l) (hl : l.quote.holds l.body = false) :
    solid c (Text.crlf cs) = ⟨.fault .unterminatedString, l.lead ++ l.quote.text⟩ := by
  have hread : Literal.read (c :: Text.crlf cs) = .unclosed l.lead l.quote := by
    rw [← crlf_cons hc, Literal.read_crlf, h]
    simp [Literal.Reading.crlf, hl]
  rw [solid, hread]

theorem lineEnd_crlf (hr : '\r' ∉ cs) : lineEnd (Text.crlf cs) = Text.crlf (lineEnd cs) := by
  cases cs with
  | nil => rfl
  | cons c cs =>
    have hcr : c ≠ '\r' := Ne.symm (List.ne_of_not_mem_cons hr)
    by_cases hc : c = '\n'
    · rw [hc]
      rfl
    · rw [crlf_cons hc]
      simp [lineEnd, isLineEnd, hc, hcr]

section Closed

variable {l : Literal} {text? : Option String}

theorem ne_of_closed (h : Literal.read (c :: cs) = .closed l) :
    c ∉ [' ', '\t', '\x0c', '#', '\n', '\r', '\\'] := by
  have hread : Literal.read (c :: cs) ≠ .absent := by simp [h]
  exact ne_of_read hread

theorem first_of_closed (h : Literal.read (c :: cs) = .closed l) :
    first c cs = ⟨.token .string (some (String.ofList l.body)), l.source⟩ := by
  exact first_of_lexeme? (by rw [h]; rfl)

theorem wordForm_ne_string (w : List Char) : wordForm w ≠ .token .string text? := by
  unfold wordForm
  split <;> simp

theorem closed_of_form_string (h : (first c cs).form = .token .string text?) :
    ∃ l, Literal.read (c :: cs) = .closed l := by
  unfold first at h
  split at h
  · cases h
  · split at h
    · cases h
    · split at h
      · cases h
      · split at h
        · cases h
        · unfold solid at h
          split at h
          · exact ⟨_, ‹_›⟩
          · cases h
          · split at h
            · cases h
            · split at h
              · exact absurd h (wordForm_ne_string _)
              · split at h <;> cases h

theorem hidesLineEnd_of_closed (h : Literal.read (c :: cs) = .closed l) :
    (first c cs).hidesLineEnd = !l.quote.holds l.body := by
  rw [first_of_closed h, hidesLineEnd]
  simp only [Literal.read_source h]

end Closed

/-- A line end of two characters makes no difference to a lexeme that does not hide one. -/
theorem first_crlf (hc : c ≠ '\n') (hr : '\r' ∉ c :: cs)
    (hh : (first c cs).hidesLineEnd = false) : first c (Text.crlf cs) = (first c cs).crlf := by
  have hrest := List.not_mem_of_not_mem_cons hr
  have hsolid : solid c (Text.crlf cs) = (solid c cs).crlf :=
    solid_crlf hc fun l hl => by simpa [hidesLineEnd_of_closed hl] using hh
  have hline : ¬ isLineEnd c = true := by
    simp [isLineEnd, hc, Ne.symm (List.ne_of_not_mem_cons hr)]
  have hcontinued : (Text.crlf (lineEnd cs) != []) = (lineEnd cs != []) := by
    rw [Bool.eq_iff_iff, bne_iff_ne, bne_iff_ne, Ne, Ne, crlf_eq_nil_iff]
  unfold first
  rw [takeWhile_crlf (by decide) (by decide), takeWhile_crlf (by decide) (by decide),
    lineEnd_crlf hrest, hsolid, hcontinued]
  by_cases hblank : isBlank c = true
  · rw [if_pos hblank, if_pos hblank, crlf, crlf_cons hc,
      crlf_eq_self (lineFeed_not_mem_takeWhile (by decide))]
    rfl
  · rw [if_neg hblank, if_neg hblank]
    by_cases hcomment : c = '#'
    · rw [if_pos hcomment, if_pos hcomment, crlf, crlf_cons hc,
        crlf_eq_self (lineFeed_not_mem_takeWhile (by decide))]
      rfl
    · rw [if_neg hcomment, if_neg hcomment, if_neg hline, if_neg hline]
      split
      · rw [crlf, crlf_cons hc]
        rfl
      · rfl

theorem form_of_hidesLineEnd {l : Lexeme} (h : l.hidesLineEnd = true) :
    ∃ text?, l.form = .token .string text? := by
  unfold hidesLineEnd at h
  split at h
  · exact ⟨_, ‹_›⟩
  · cases h

/-- With line ends of two characters, a literal that hides a line end is not closed. -/
theorem first_crlf_of_hidesLineEnd (hh : (first c cs).hidesLineEnd = true) :
    c ≠ '\n' ∧ (first c (Text.crlf cs)).form = .fault .unterminatedString := by
  obtain ⟨text?, hform⟩ := form_of_hidesLineEnd hh
  obtain ⟨l, hl⟩ := closed_of_form_string hform
  have hc : c ≠ '\n' := by
    rintro rfl
    exact absurd (ne_of_closed hl) (by decide)
  have hholds : l.quote.holds l.body = false := by simpa [hidesLineEnd_of_closed hl] using hh
  rw [first_eq_solid (ne_of_closed hl), solid_crlf_of_closed hc hl hholds]
  exact ⟨hc, rfl⟩

theorem form_solid_ne_blank : (solid c cs).form ≠ .blank := by
  unfold solid
  split
  · simp
  · simp
  · split
    · simp
    · split
      · unfold wordForm
        dsimp only
        split <;> simp
      · split <;> simp

theorem lineFeed_not_mem_of_form_blank (h : (first c cs).form = .blank) :
    '\n' ∉ (first c cs).source := by
  unfold first at h ⊢
  by_cases hblank : isBlank c = true
  · rw [if_pos hblank]
    refine List.not_mem_cons_of_ne_of_not_mem ?_ (lineFeed_not_mem_takeWhile (by decide))
    rintro rfl
    exact absurd hblank (by decide)
  · rw [if_neg hblank] at h
    split at h
    · cases h
    · split at h
      · cases h
      · split at h
        · cases h
        · exact absurd h form_solid_ne_blank

end Lexeme

section Lexemes

variable {text rest : List Char} {l : Lexeme} {front ls : List Lexeme}

theorem lexemes_of_first_source {c : Char} {cs : List Char} (h : Lexeme.first c cs = l)
    (hrest : c :: cs = l.source ++ rest) : lexemes (c :: cs) = l :: lexemes rest := by
  rw [lexemes_cons, h, hrest, List.drop_left]

theorem lexemes_crlf_of_cons (hr : '\r' ∉ text) (h : lexemes text = l :: ls)
    (hl : l.hidesLineEnd = false) :
    ∃ rest, '\r' ∉ rest ∧ ls = lexemes rest ∧
      lexemes (Text.crlf text) = l.crlf :: lexemes (Text.crlf rest) := by
  obtain ⟨rest, hrest, -, hls⟩ := lexemes_eq_cons h
  have hr' : '\r' ∉ rest := fun hmem => hr (hrest ▸ List.mem_append_right l.source hmem)
  refine ⟨rest, hr', hls, ?_⟩
  cases text with
  | nil => cases h
  | cons c cs =>
    rw [lexemes_cons] at h
    obtain ⟨rfl, -⟩ := List.cons.inj h
    have hsource : Text.crlf (c :: cs) = (Lexeme.first c cs).crlf.source ++ Text.crlf rest := by
      rw [hrest, crlf_append]
      rfl
    by_cases hc : c = '\n'
    · subst hc
      exact lexemes_of_first_source rfl hsource
    · rw [crlf_cons hc] at hsource ⊢
      exact lexemes_of_first_source (Lexeme.first_crlf hc hr hl) hsource

theorem lexemes_crlf_of_append (hr : '\r' ∉ text) (h : lexemes text = front ++ ls)
    (hfront : ∀ l ∈ front, l.hidesLineEnd = false) :
    ∃ rest, '\r' ∉ rest ∧ ls = lexemes rest ∧
      lexemes (Text.crlf text) = front.map Lexeme.crlf ++ lexemes (Text.crlf rest) := by
  induction front generalizing text with
  | nil => exact ⟨text, hr, h.symm, rfl⟩
  | cons l front ih =>
    obtain ⟨hl, hfront⟩ := List.forall_mem_cons.mp hfront
    obtain ⟨rest, hrest, hls, hcrlf⟩ := lexemes_crlf_of_cons hr h hl
    obtain ⟨rest', hrest', hls', hcrlf'⟩ := ih hrest hls.symm hfront
    exact ⟨rest', hrest', hls', by rw [hcrlf, hcrlf', List.map_cons, List.cons_append]⟩

/-- Where no lexeme hides a line end, line ends of two characters make no difference. -/
theorem lexemes_crlf (hr : '\r' ∉ text) (h : ∀ l ∈ lexemes text, l.hidesLineEnd = false) :
    lexemes (Text.crlf text) = (lexemes text).map Lexeme.crlf := by
  obtain ⟨rest, -, hrest, hcrlf⟩ := lexemes_crlf_of_append hr (List.append_nil _).symm h
  cases rest with
  | nil => simpa using hcrlf
  | cons c cs => simp [lexemes_cons] at hrest

theorem exists_lexemes_crlf_fault (h : lexemes text = l :: ls) (hl : l.hidesLineEnd = true) :
    ∃ l' ls', lexemes (Text.crlf text) = l' :: ls' ∧ l'.form = .fault .unterminatedString := by
  cases text with
  | nil => cases h
  | cons c cs =>
    rw [lexemes_cons] at h
    obtain ⟨rfl, -⟩ := List.cons.inj h
    obtain ⟨hc, hform⟩ := Lexeme.first_crlf_of_hidesLineEnd hl
    rw [crlf_cons hc, lexemes_cons]
    exact ⟨_, _, rfl, hform⟩

end Lexemes
end GrammarForge
