import GrammarForge.Proofs.ReadRules
import GrammarForge.Proofs.ReadingModes
import Mathlib.Data.List.Induction
import Mathlib.Data.List.TakeWhile

/-!
Where the tokens of a text stand in it. From the start to the end, a text is made of the spellings
of its tokens, each at the place that the token records, and of pieces that a reader passes over. A
strict reader passes over blanks, line ends, comments and continued lines only.
-/

namespace GrammarForge

/-- The place behind a text, by counting: its line feeds, and the characters behind the last one. -/
def Position.counted (before : List Char) : Position :=
  ⟨before.count '\n' + 1, (before.reverse.takeWhile (· != '\n')).length + 1⟩

theorem Position.behind_start (before : List Char) :
    Position.start.behind before = Position.counted before := by
  induction before using List.reverseRecOn with
  | nil => rfl
  | append_singleton before c ih =>
    rw [Position.behind_append, ih]
    by_cases hc : c = '\n'
    · simp [Position.next, Position.counted, hc]
    · simp [Position.next, Position.counted, hc]

/-- The texts that a token can be written as. An operator or a keyword is written as in the table, a
name or a number as its own text, and a literal with a quote on both sides of its text and at most
two letters in front. -/
inductive Token.SpelledBy : Token → List Char → Prop where
  | fixed {k : Token.Kind} {p : Position} :
    k.spelling ≠ "" → SpelledBy ⟨k, none, p⟩ k.spelling.toList
  | plain {k : Token.Kind} {w : List Char} {p : Position} :
    k = .name ∨ k = .number → w ≠ [] → SpelledBy ⟨k, some (String.ofList w), p⟩ w
  | quoted {l : Literal} {p : Position} :
    l.lead.length ≤ 2 → (∀ c ∈ l.lead, c ∈ ['r', 'R', 'b', 'B', 'u', 'U', 'f', 'F']) →
    l.quote.mark ∈ ['\x27', '\x22'] →
    SpelledBy ⟨.string, some (String.ofList l.body), p⟩ l.source

def lineEnds : List (List Char) := [['\r', '\n'], ['\n'], ['\r']]

/-- A piece of text without a token, in front of the rest: a blank, a line end, a comment with
all of its line, or a line end behind a backslash. -/
inductive Skipped : List Char → List Char → Prop where
  | blank {piece rest : List Char} : (∀ c ∈ piece, c ∈ [' ', '\t', '\x0c']) → Skipped piece rest
  | lineEnd {e rest : List Char} : e ∈ lineEnds → Skipped e rest
  | comment {body rest : List Char} : (∀ c ∈ body, c ∉ ['\n', '\r']) →
    (∀ c ∈ rest.head?, c ∈ ['\n', '\r']) → Skipped ('#' :: body) rest
  | continuation {e rest : List Char} : e ∈ lineEnds → Skipped ('\\' :: e) rest

/-- What a reader passes over between two tokens. The lenient one drops what is no token. -/
inductive Mode.Passes : Mode → List Char → List Char → Prop where
  | skipped {mode : Mode} {piece rest : List Char} : Skipped piece rest → Passes mode piece rest
  | dropped {piece rest : List Char} : Passes .lenient piece rest

/-- The text behind `before` is made of the spellings of the tokens, in their order and each at the
place that its token records, and of pieces that are passed over. -/
inductive Covers (mode : Mode) : List Char → List Char → List Token → Prop where
  | nil {before : List Char} : Covers mode before [] []
  | gap {before piece rest : List Char} {ts : List Token} :
    mode.Passes piece rest → Covers mode (before ++ piece) rest ts →
    Covers mode before (piece ++ rest) ts
  | token {before spelling rest : List Char} {t : Token} {ts : List Token} :
    t.SpelledBy spelling → t.position = .counted before →
    Covers mode (before ++ spelling) rest ts → Covers mode before (spelling ++ rest) (t :: ts)

namespace Quote

variable {q : Quote} {cs : List Char}

theorem opening?_spec (h : opening? cs = some q) :
    q.text <+: cs ∧ q.mark ∈ ['\x27', '\x22'] := by
  cases cs with
  | nil => cases h
  | cons c cs =>
    rw [opening?] at h
    split at h
    · rename_i hc
      obtain rfl := Option.some.inj h
      refine ⟨?_, by simpa using hc⟩
      by_cases htriple : [c, c] <+: cs
      · simp [text, htriple]
      · simp [text, htriple]
    · cases h

end Quote

namespace Literal

variable {q : Quote} {b cs lead : List Char} {l : Literal}

theorem isPrefix_of_body? (h : body? q cs = some b) : b ++ q.text <+: cs := by
  fun_induction body? q cs generalizing b with
  | case1 => cases h
  | case2 => cases h
  | case3 d rest ih =>
    obtain ⟨b, hb, rfl⟩ := Option.map_eq_some_iff.mp h
    simpa using ih hb
  | case4 c cs _ hquote =>
    obtain rfl := Option.some.inj h
    exact List.isPrefixOf_iff_prefix.mp hquote
  | case5 => cases h
  | case6 c cs _ _ _ ih =>
    obtain ⟨b, hb, rfl⟩ := Option.map_eq_some_iff.mp h
    simpa using ih hb

theorem leadLetters_isPrefix (cs : List Char) : leadLetters cs <+: cs :=
  (List.takeWhile_prefix _).trans (List.take_prefix 2 cs)

theorem leadLetters_spec (cs : List Char) : (leadLetters cs).length ≤ 2 ∧
    ∀ c ∈ leadLetters cs, c ∈ ['r', 'R', 'b', 'B', 'u', 'U', 'f', 'F'] := by
  refine ⟨Nat.le_trans (List.takeWhile_prefix _).length_le (List.length_take_le 2 cs), ?_⟩
  exact fun c hc => by simpa [isLeadLetter] using List.mem_takeWhile_imp hc

theorem append_isPrefix_of_drop {a : List Char} (ha : a <+: cs) (hb : b <+: cs.drop a.length) :
    a ++ b <+: cs := by
  obtain ⟨rest, rfl⟩ := ha
  rw [List.drop_left] at hb
  exact (List.prefix_append_right_inj a).mpr hb

theorem lead_isPrefix_of_opening?
    (h : Quote.opening? (cs.drop (leadLetters cs).length) = some q) :
    leadLetters cs ++ q.text <+: cs :=
  append_isPrefix_of_drop (leadLetters_isPrefix cs) (Quote.opening?_spec h).1

theorem source_isPrefix_of_read (h : read cs = .closed l) :
    l.source <+: cs ∧ l.lead = leadLetters cs ∧ l.quote.mark ∈ ['\x27', '\x22'] := by
  unfold read at h
  dsimp only at h
  split at h
  · cases h
  · rename_i q hq
    split at h
    · rename_i b hb
      cases h
      have hbody := isPrefix_of_body? hb
      rw [List.drop_drop, ← List.length_append] at hbody
      refine ⟨?_, rfl, (Quote.opening?_spec hq).2⟩
      simpa [source] using append_isPrefix_of_drop (lead_isPrefix_of_opening? hq) hbody
    · cases h

theorem opening_isPrefix_of_read (h : read cs = .unclosed lead q) : lead ++ q.text <+: cs := by
  unfold read at h
  dsimp only at h
  split at h
  · cases h
  · rename_i hq
    split at h
    · cases h
    · cases h
      exact lead_isPrefix_of_opening? hq

end Literal

namespace Lexeme

variable {cs rest : List Char}

theorem numberTail_isPrefix (cs : List Char) : numberTail cs <+: cs := by
  fun_induction numberTail cs with
  | case4 c d cs _ ih => simpa using ih
  | case5 c d cs _ _ ih => simpa using ih
  | _ => simp

theorem isPrefix_of_operator? {o : Token.Operator} (h : operator? cs = some o) :
    o.spelling.toList <+: cs := by
  obtain ⟨n, -, hn⟩ := List.exists_of_findSome?_eq_some h
  rw [Token.Operator.spelling_of_ofSpelling? hn, String.toList_ofList]
  exact List.take_prefix n cs

/-- What the lexeme in front of the rest of a text is: the spelling of a token, a piece without one,
or a fault. -/
inductive Stands (rest : List Char) : Lexeme → Prop where
  | token {k : Token.Kind} {text? : Option String} {s : List Char} :
    (∀ p, Token.SpelledBy ⟨k, text?, p⟩ s) → Stands rest ⟨.token k text?, s⟩
  | skipped {form : Form} {s : List Char} :
    (∀ k text?, form ≠ .token k text?) → Skipped s rest → Stands rest ⟨form, s⟩
  | fault {f : Fault} {s : List Char} : Stands rest ⟨.fault f, s⟩

theorem stands_word {w : List Char} (hw : w ≠ []) : Stands rest ⟨wordForm w, w⟩ := by
  unfold wordForm
  cases hk : Token.Keyword.ofSpelling? (String.ofList w) with
  | none => exact .token fun p => .plain (.inl rfl) hw
  | some k =>
    have hspelling : (Token.Kind.keyword k).spelling = String.ofList w :=
      Token.Keyword.spelling_of_ofSpelling? hk
    obtain rfl : (Token.Kind.keyword k).spelling.toList = w := by
      rw [hspelling, String.toList_ofList]
    exact .token fun p => .fixed (by simpa using hw)

theorem exists_rest_of_isPrefix {form : Form} {s text : List Char} (h : s <+: text)
    (hs : ∀ rest, Stands rest ⟨form, s⟩) : ∃ rest, text = s ++ rest ∧ Stands rest ⟨form, s⟩ := by
  obtain ⟨rest, rfl⟩ := h
  exact ⟨rest, rfl, hs rest⟩

theorem exists_rest_solid (c : Char) (cs : List Char) :
    ∃ rest, c :: cs = (solid c cs).source ++ rest ∧ (solid c cs).Stands rest := by
  unfold solid
  split
  · rename_i l hl
    obtain ⟨hsource, hlead, hmark⟩ := Literal.source_isPrefix_of_read hl
    obtain ⟨hlength, hletters⟩ := Literal.leadLetters_spec (c :: cs)
    rw [← hlead] at hlength hletters
    exact exists_rest_of_isPrefix hsource fun _ => .token fun _ => .quoted hlength hletters hmark
  · rename_i hq
    exact exists_rest_of_isPrefix (Literal.opening_isPrefix_of_read hq) fun _ => .fault
  · split
    · have hnumber : c :: numberTail cs <+: c :: cs := by simpa using numberTail_isPrefix cs
      exact exists_rest_of_isPrefix hnumber fun _ =>
        .token fun _ => .plain (.inr rfl) (List.cons_ne_nil c _)
    · split
      · have hword : c :: cs.takeWhile Text.isWordChar <+: c :: cs := by
          simpa using List.takeWhile_prefix Text.isWordChar
        exact exists_rest_of_isPrefix hword fun _ => stands_word (List.cons_ne_nil c _)
      · split
        · rename_i o ho
          have hspelling : (Token.Kind.op o).spelling ≠ "" := fun h => by
            simpa [show o.spelling = "" from h] using o.length_spelling_pos
          exact exists_rest_of_isPrefix (isPrefix_of_operator? ho) fun _ =>
            .token fun _ => .fixed hspelling
        · exact ⟨cs, rfl, .fault⟩

theorem lineEnd_isPrefix (cs : List Char) : lineEnd cs <+: cs := by
  unfold lineEnd
  split
  · simp
  · split <;> simp
  · simp

theorem lineEnd_mem_lineEnds (h : lineEnd cs ≠ []) : lineEnd cs ∈ lineEnds := by
  unfold lineEnd at h ⊢
  split
  · decide
  · rename_i c cs _
    by_cases hc : isLineEnd c = true
    · rw [if_pos hc]
      have hc' : c = '\n' ∨ c = '\r' := by simpa [isLineEnd] using hc
      rcases hc' with rfl | rfl <;> decide
    · simp [hc] at h
  · simp at h

theorem exists_rest_first (c : Char) (cs : List Char) :
    ∃ rest, c :: cs = (first c cs).source ++ rest ∧ (first c cs).Stands rest := by
  unfold first
  split
  · rename_i hc
    have hpiece : c :: cs.takeWhile isBlank <+: c :: cs := by
      simpa using List.takeWhile_prefix isBlank
    have hblank : ∀ d ∈ c :: cs.takeWhile isBlank, isBlank d = true :=
      List.forall_mem_cons.mpr ⟨hc, fun d => List.mem_takeWhile_imp⟩
    exact exists_rest_of_isPrefix hpiece fun _ => .skipped (by simp)
      (.blank fun d hd => by simpa [isBlank, or_assoc] using hblank d hd)
  · split
    · rename_i hc
      subst hc
      refine ⟨cs.dropWhile (! isLineEnd ·), ?_, .skipped (by simp) (.comment ?_ ?_)⟩
      · rw [List.cons_append, List.takeWhile_append_dropWhile]
      · exact fun d hd => by simpa [isLineEnd] using List.mem_takeWhile_imp hd
      · intro d hd
        have hnot := List.head?_dropWhile_not (! isLineEnd ·) cs
        rw [Option.mem_def.mp hd] at hnot
        simpa [isLineEnd, or_iff_not_imp_left] using hnot
    · split
      · rename_i hc
        exact exists_rest_of_isPrefix (lineEnd_isPrefix (c :: cs)) fun _ =>
          .skipped (by simp) (.lineEnd (lineEnd_mem_lineEnds (lineEnd_ne_nil hc)))
      · split
        · rename_i hc
          obtain ⟨rfl, hend⟩ : c = '\\' ∧ lineEnd cs ≠ [] := by simpa using hc
          have hline : '\\' :: lineEnd cs <+: '\\' :: cs := by simpa using lineEnd_isPrefix cs
          exact exists_rest_of_isPrefix hline fun _ =>
            .skipped (by simp) (.continuation (lineEnd_mem_lineEnds hend))
        · exact exists_rest_solid c cs

end Lexeme

theorem Token.SpelledBy.isLayout_eq_false {t : Token} {spelling : List Char}
    (h : t.SpelledBy spelling) : t.kind.isLayout = false := by
  cases h with
  | @fixed k p hk =>
    cases k with
    | op | keyword | name | number | string => rfl
    | _ => exact absurd rfl hk
  | plain hk => rcases hk with rfl | rfl <;> rfl
  | quoted => rfl

/-- A piece of the text is the spelling of the next token, or it is passed over. -/
theorem lexemes_eq_cons {text : List Char} {l : Lexeme} {ls : List Lexeme}
    (h : lexemes text = l :: ls) :
    ∃ rest, text = l.source ++ rest ∧ l.Stands rest ∧ ls = lexemes rest := by
  cases text with
  | nil => cases h
  | cons c cs =>
    obtain ⟨rest, hrest, hstands⟩ := Lexeme.exists_rest_first c cs
    rw [lexemes_cons] at h
    obtain ⟨rfl, rfl⟩ := List.cons.inj h
    refine ⟨rest, hrest, hstands, ?_⟩
    rw [hrest, List.drop_left]

def Event.solid? : Event → Option Token
  | .token t => if t.kind.isLayout then none else some t
  | .fault _ _ => none

namespace Mode

variable {mode : Mode} {es : List Event} {ts : List Token}

theorem filter_of_collect (h : mode.collect es = .ok ts) :
    ts.filter (! ·.kind.isLayout) = es.filterMap Event.solid? := by
  induction es generalizing ts with
  | nil =>
    cases h
    rfl
  | cons e es ih =>
    cases e with
    | token t =>
      obtain ⟨later, hlater, rfl⟩ := collect_cons_token_eq_ok_iff.mp h
      by_cases ht : t.kind.isLayout = true <;> simp [Event.solid?, ht, ih hlater]
    | fault p f =>
      cases mode with
      | strict => cases h
      | lenient => exact ih h

theorem eq_lenient_of_fault {p : Position} {f : Fault} (h : mode.collect es = .ok ts)
    (hf : .fault p f ∈ es) : mode = .lenient := by
  cases mode with
  | lenient => rfl
  | strict =>
    obtain ⟨front, behind, rfl⟩ := List.append_of_mem hf
    obtain ⟨-, later, -, hlater, -⟩ := collect_append_eq_ok_iff.mp h
    cases hlater

end Mode

namespace Layout

variable {mode : Mode} {s s' : Layout} {p : Position} {l : Lexeme} {ls : List Lexeme}
  {ts now : List Token}

theorem solid_eq_nil {es : List Event} (h : ∀ t, .token t ∈ es → t.kind.isLayout = true) :
    es.filterMap Event.solid? = [] := by
  rw [List.filterMap_eq_nil_iff]
  intro e he
  cases e with
  | token t => simp [Event.solid?, h t he]
  | fault => rfl

theorem solid_step_token {k : Token.Kind} {text? : Option String} (hl : l.form = .token k text?)
    (hk : k.isLayout = false) : (s.step p l).2.filterMap Event.solid? = [⟨k, text?, p⟩] := by
  unfold step
  cases s.margin? with
  | none => simp [hl, inLine, Event.solid?, hk]
  | some w =>
    have hsettle := solid_eq_nil fun t => isLayout_of_mem_settle (s := s) (t := t) (p := p) (w := w)
    simp [hl, inLine, Event.solid?, hk, hsettle]

theorem solid_step_of_not_token (hl : ∀ k text?, l.form ≠ .token k text?) :
    (s.step p l).2.filterMap Event.solid? = [] :=
  solid_eq_nil fun _ ht => (form_of_mem_step ht).resolve_right fun h => hl _ _ h.1

theorem fault_mem_step {f : Fault} (hl : l.form = .fault f) : .fault p f ∈ (s.step p l).2 := by
  unfold step
  cases s.margin? <;> simp [hl, inLine]

theorem Advances.solid {rest : List Char} (h : s.Advances mode p l now s') (hl : l.Stands rest) :
    (∃ t, t.SpelledBy l.source ∧ t.position = p ∧ now.filter (! ·.kind.isLayout) = [t]) ∨
      mode.Passes l.source rest ∧ now.filter (! ·.kind.isLayout) = [] := by
  obtain ⟨hnow, -⟩ := h
  rw [Mode.filter_of_collect hnow]
  cases hl with
  | token hspelled =>
    have hk := (hspelled p).isLayout_eq_false
    exact .inl ⟨_, hspelled p, rfl, solid_step_token rfl hk⟩
  | skipped hform hskipped => exact .inr ⟨.skipped hskipped, solid_step_of_not_token hform⟩
  | fault =>
    obtain rfl := Mode.eq_lenient_of_fault hnow (fault_mem_step rfl)
    exact .inr ⟨.dropped, solid_step_of_not_token (by simp)⟩

theorem Reads.covers {before text : List Char} (h : Reads mode s p ls ts)
    (hls : ls = lexemes text) (hp : p = Position.start.behind before) :
    Covers mode before text (ts.filter (! ·.kind.isLayout)) := by
  -- The position goes with what has been read, so both grow by the same lexeme.
  induction h generalizing before text with
  | @close s p ts h =>
    obtain rfl : text = [] := by
      cases text with
      | nil => rfl
      | cons c cs => simp [lexemes_cons] at hls
    have hclose : (s.close p).filterMap Event.solid? = [] :=
      solid_eq_nil fun t (ht : .token t ∈ s.events p []) =>
        (form_of_mem_events ht).resolve_right (by simp)
    rw [Mode.filter_of_collect h, hclose]
    exact .nil
  | @step s s' p l ls now later hnow _ ih =>
    obtain ⟨rest, rfl, hstands, hrest⟩ := lexemes_eq_cons hls.symm
    have hbehind : p.behind l.source = Position.start.behind (before ++ l.source) := by
      rw [hp, Position.behind_append]
    have hcovers := ih hrest hbehind
    rw [List.filter_append]
    obtain ⟨t, ht, hposition, hsolid⟩ | ⟨hpasses, hsolid⟩ := hnow.solid hstands
    · rw [hsolid]
      exact .token ht (by rw [hposition, hp, Position.behind_start]) hcovers
    · rw [hsolid]
      exact .gap hpasses hcovers

end Layout

/-- Every token of a text stands where it says, in its own spelling. -/
theorem covers_of_tokens {mode : Mode} {text : String} {ts : List Token}
    (h : tokens mode text = .ok ts) :
    Covers mode [] text.toList (ts.filter (! ·.kind.isLayout)) :=
  (tokens_eq_ok_iff.mp h).covers rfl rfl

/-- A continued line, and a literal over two lines in front of a comment. -/
def spread : String := "if\\\r\n rb'''y\nz'''# w"

def spreadTokens : List Token :=
  [⟨.keyword .ifWord, none, ⟨1, 1⟩⟩, ⟨.string, some "y\nz", ⟨2, 2⟩⟩, ⟨.newline, none, ⟨3, 8⟩⟩,
    ⟨.endMarker, none, ⟨3, 8⟩⟩]

/-- The lenient reader drops the question mark, which no token is spelled with. -/
theorem covers_of_tokens_spread :
    tokens .strict spread = .ok spreadTokens ∧
      Covers .strict [] spread.toList (spreadTokens.filter (! ·.kind.isLayout)) ∧
      tokens .lenient "? 1." = .ok [⟨.number, some "1.", ⟨1, 3⟩⟩, ⟨.newline, none, ⟨1, 5⟩⟩,
        ⟨.endMarker, none, ⟨1, 5⟩⟩] ∧
      Covers .lenient [] "? 1.".toList [⟨.number, some "1.", ⟨1, 3⟩⟩] := by
  have hstrict : tokens .strict spread = .ok spreadTokens := by decide +kernel
  have hlenient : tokens .lenient "? 1." = .ok [⟨.number, some "1.", ⟨1, 3⟩⟩,
      ⟨.newline, none, ⟨1, 5⟩⟩, ⟨.endMarker, none, ⟨1, 5⟩⟩] := by decide +kernel
  exact ⟨hstrict, covers_of_tokens hstrict, hlenient, covers_of_tokens hlenient⟩

end GrammarForge
