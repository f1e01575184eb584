import GrammarForge.Proofs.TokenSpans

/-!
Where a literal ends. The first quote behind the opening one that no backslash hides closes it. A
literal without one, or with a line feed in front of it between single marks, is never closed, and
reading goes on behind the opening quote.
-/

namespace GrammarForge

namespace Literal

/-- Read from the left, each backslash hides the character behind it, and none is left alone. -/
inductive Paired : List Char → Prop where
  | nil : Paired []
  | plain {c : Char} {cs : List Char} : c ≠ '\\' → Paired cs → Paired (c :: cs)
  | hidden {c : Char} {cs : List Char} : Paired cs → Paired ('\\' :: c :: cs)

/-- The word stands in the text behind `before`, and no backslash hides its start. -/
def Unhidden (word before text : List Char) : Prop := Paired before ∧ before ++ word <+: text

def IsLeading (word : List Char) : Prop :=
  word.length ≤ 2 ∧ ∀ c ∈ word, c ∈ ['r', 'R', 'b', 'B', 'u', 'U', 'f', 'F']

/-- The longest start of a text that is made of at most two prefix letters. -/
structure IsLead (lead text : List Char) : Prop where
  isPrefix : lead <+: text
  isLeading : IsLeading lead
  longest : ∀ word, word <+: text → IsLeading word → word.length ≤ lead.length

end Literal

open Literal

/-- The quote stands at the start of the text, with three marks wherever three stand there. -/
structure Quote.Opens (q : Quote) (text : List Char) : Prop where
  mark : q.mark ∈ ['\x27', '\x22']
  isPrefix : q.text <+: text
  triple : [q.mark, q.mark, q.mark] <+: text → q.triple = true

/-- The quote behind the body closes it, and none does before. Between single marks the body stays
within its line. -/
structure Quote.Encloses (q : Quote) (body : List Char) : Prop where
  /-- No backslash at the end hides the closing quote. -/
  paired : Paired body
  first : ∀ before, Unhidden q.text before (body ++ q.text) → before = body
  inLine : q.triple = false → ∀ before, ¬ Unhidden ['\n'] before body

/-- The text opens a literal with these prefix letters and this quote, in front of the rest. -/
structure Literal.Opening (lead : List Char) (q : Quote) (rest text : List Char) : Prop where
  eq : text = lead ++ q.text ++ rest
  isLead : IsLead lead text
  opens : q.Opens (q.text ++ rest)

def Literal.Reading.lexeme? : Reading → Option Lexeme
  | .closed l => some ⟨.token .string (some (String.ofList l.body)), l.source⟩
  | .unclosed lead q => some ⟨.fault .unterminatedString, lead ++ q.text⟩
  | .absent => none

namespace Literal

variable {c : Char} {cs word : List Char}

theorem paired_cons_iff (hc : c ≠ '\\') : Paired (c :: cs) ↔ Paired cs := by
  constructor
  · intro h
    cases h with
    | plain _ h => exact h
    | hidden => exact absurd rfl hc
  · exact .plain hc

theorem paired_backslash_iff : Paired ('\\' :: c :: cs) ↔ Paired cs := by
  constructor
  · intro h
    cases h with
    | plain hc => exact absurd rfl hc
    | hidden h => exact h
  · exact .hidden

/-- What stands unhidden in a text stands at its start or in what follows the first character. -/
theorem forall_unhidden_cons {P : List Char → Prop} (hc : c ≠ '\\') :
    (∀ before, Unhidden word before (c :: cs) → P before) ↔
      (word <+: c :: cs → P []) ∧ ∀ before, Unhidden word before cs → P (c :: before) := by
  constructor
  · intro h
    refine ⟨fun hword => h [] ⟨.nil, hword⟩, fun before ⟨hpaired, hleft⟩ => ?_⟩
    exact h (c :: before) ⟨.plain hc hpaired, by simpa using hleft⟩
  · rintro ⟨hstart, hbehind⟩ before ⟨hpaired, hleft⟩
    cases hpaired with
    | nil => exact hstart hleft
    | plain _ hpaired =>
      rw [List.cons_append, List.cons_prefix_cons] at hleft
      rw [hleft.1]
      exact hbehind _ ⟨hpaired, hleft.2⟩
    | hidden => exact absurd (List.cons_prefix_cons.mp hleft).1.symm hc

theorem forall_unhidden_backslash {P : List Char → Prop} :
    (∀ before, Unhidden word before ('\\' :: c :: cs) → P before) ↔
      (word <+: '\\' :: c :: cs → P []) ∧
        ∀ before, Unhidden word before cs → P ('\\' :: c :: before) := by
  constructor
  · intro h
    refine ⟨fun hword => h [] ⟨.nil, hword⟩, fun before ⟨hpaired, hleft⟩ => ?_⟩
    exact h ('\\' :: c :: before) ⟨.hidden hpaired, by simpa using hleft⟩
  · rintro ⟨hstart, hbehind⟩ before ⟨hpaired, hleft⟩
    cases hpaired with
    | nil => exact hstart hleft
    | plain hd => exact absurd (List.cons_prefix_cons.mp hleft).1 hd
    | hidden hpaired =>
      rw [List.cons_append, List.cons_append, List.cons_prefix_cons, List.cons_prefix_cons] at hleft
      rw [hleft.2.1]
      exact hbehind _ ⟨hpaired, hleft.2.2⟩

end Literal

namespace Quote

variable {c : Char} {q : Quote} {b cs : List Char}

theorem exists_text (q : Quote) : ∃ marks, q.text = q.mark :: marks := by
  unfold text
  split
  · exact ⟨[q.mark, q.mark], rfl⟩
  · exact ⟨[], rfl⟩

theorem mark_ne_backslash (hq : q.mark ∈ ['\x27', '\x22']) : q.mark ≠ '\\' := by
  intro h
  simp [h] at hq

theorem not_isPrefix_of_ne (hc : q.mark ≠ c) : ¬ q.text <+: c :: cs := by
  obtain ⟨marks, hmarks⟩ := q.exists_text
  rw [hmarks, List.cons_prefix_cons]
  exact fun h => hc h.1

theorem encloses_nil : q.Encloses [] where
  paired := .nil
  first before h := by
    have hlength : before.length + q.text.length ≤ q.text.length := by simpa using h.2.length_le
    exact List.eq_nil_of_length_eq_zero (by omega)
  inLine _ before h := by simpa using h.2

theorem encloses_cons_iff (hc : c ≠ '\\') :
    q.Encloses (c :: b) ↔
      ¬ q.text <+: c :: (b ++ q.text) ∧ (c = '\n' → q.triple = true) ∧ q.Encloses b := by
  have hfirst : (∀ before, Unhidden q.text before (c :: (b ++ q.text)) → before = c :: b) ↔ _ :=
    forall_unhidden_cons hc
  have hline : (∀ before, ¬ Unhidden ['\n'] before (c :: b)) ↔ _ := forall_unhidden_cons hc
  constructor
  · rintro ⟨hpaired, h, hl⟩
    obtain ⟨hstart, hbehind⟩ := hfirst.mp h
    refine ⟨by simpa using hstart, ?_, (paired_cons_iff hc).mp hpaired, ?_, ?_⟩
    · rintro rfl
      exact Bool.of_not_eq_false fun ht => (hline.mp (hl ht)).1 (by simp)
    · exact fun before hb => (List.cons.inj (hbehind before hb)).2
    · exact fun ht => (hline.mp (hl ht)).2
  · rintro ⟨hstart, hc', hpaired, h, hl⟩
    refine ⟨.plain hc hpaired, hfirst.mpr ⟨fun hq => absurd hq hstart, ?_⟩, fun ht => ?_⟩
    · exact fun before hb => by rw [h before hb]
    · refine hline.mpr ⟨fun hleft => ?_, hl ht⟩
      have hfeed : c = '\n' := by simpa [eq_comm] using hleft
      simp [hc' hfeed] at ht

theorem encloses_backslash_iff (hq : q.mark ≠ '\\') :
    q.Encloses ('\\' :: c :: b) ↔ q.Encloses b := by
  have hfirst : (∀ before, Unhidden q.text before ('\\' :: c :: (b ++ q.text)) →
      before = '\\' :: c :: b) ↔ _ := forall_unhidden_backslash
  have hline : (∀ before, ¬ Unhidden ['\n'] before ('\\' :: c :: b)) ↔ _ :=
    forall_unhidden_backslash
  constructor
  · rintro ⟨hpaired, h, hl⟩
    refine ⟨paired_backslash_iff.mp hpaired, fun before hb => ?_, fun ht => (hline.mp (hl ht)).2⟩
    simpa using (hfirst.mp h).2 before hb
  · rintro ⟨hpaired, h, hl⟩
    refine ⟨.hidden hpaired, hfirst.mpr ⟨fun hleft => ?_, ?_⟩, fun ht => ?_⟩
    · exact absurd hleft (not_isPrefix_of_ne hq)
    · exact fun before hb => by rw [h before hb]
    · exact hline.mpr ⟨by simp, hl ht⟩

theorem Opens.eq_mark (h : q.Opens (c :: cs)) : q.mark = c := by
  obtain ⟨marks, hmarks⟩ := q.exists_text
  exact (List.cons_prefix_cons.mp (hmarks ▸ h.isPrefix)).1

theorem opening?_eq_some_iff : opening? cs = some q ↔ q.Opens cs := by
  constructor
  · intro h
    obtain ⟨hleft, hmark⟩ := opening?_spec h
    refine ⟨hmark, hleft, fun htriple => ?_⟩
    cases cs with
    | nil => cases h
    | cons c cs =>
      rw [opening?] at h
      split at h
      · obtain rfl := Option.some.inj h
        exact List.isPrefixOf_iff_prefix.mpr (List.cons_prefix_cons.mp htriple).2
      · cases h
  · intro h
    cases cs with
    | nil => exact absurd (List.prefix_nil.mp h.isPrefix) q.text_ne_nil
    | cons c cs =>
      obtain rfl := h.eq_mark
      have hquote : (q.mark = '\x27' || q.mark = '\x22') = true := by simpa using h.mark
      have htriple : [q.mark, q.mark].isPrefixOf cs = q.triple := by
        rw [Bool.eq_iff_iff, List.isPrefixOf_iff_prefix]
        constructor
        · exact fun hmarks => h.triple (List.cons_prefix_cons.mpr ⟨rfl, hmarks⟩)
        · intro ht
          simpa [text, ht] using h.isPrefix
      rw [opening?, if_pos hquote, htriple]

theorem opening?_eq_none_iff :
    opening? cs = none ↔ ∀ c ∈ cs.head?, c ∉ ['\x27', '\x22'] := by
  cases cs with
  | nil => simp [opening?]
  | cons c cs => simp [opening?]

end Quote

namespace Literal

variable {b cs lead rest text : List Char} {q : Quote}

theorem isLead_leadLetters (cs : List Char) : IsLead (leadLetters cs) cs where
  isPrefix := leadLetters_isPrefix cs
  isLeading := leadLetters_spec cs
  longest := by
    rintro word ⟨rest, rfl⟩ ⟨hlength, hletters⟩
    have hword : ∀ c ∈ word, isLeadLetter c = true := fun c hc => by
      simpa [isLeadLetter] using hletters c hc
    rw [leadLetters, ← List.take_takeWhile, List.takeWhile_append_of_pos hword, List.length_take,
      List.length_append]
    omega

theorem isLead_iff : IsLead lead cs ↔ lead = leadLetters cs := by
  constructor
  · intro h
    have hlead := isLead_leadLetters cs
    have hle := hlead.longest lead h.isPrefix h.isLeading
    have hge := h.longest _ hlead.isPrefix hlead.isLeading
    exact (List.prefix_of_prefix_length_le h.isPrefix hlead.isPrefix hle).eq_of_length_le hge
  · rintro rfl
    exact isLead_leadLetters cs

/-- A body that is read has its quote behind it, and none before. -/
theorem encloses_of_body? (hq : q.mark ≠ '\\') (h : body? q cs = some b) : q.Encloses b := by
  fun_induction body? q cs generalizing b with
  | case1 => cases h
  | case2 => cases h
  | case3 d rest ih =>
    obtain ⟨b, hb, rfl⟩ := Option.map_eq_some_iff.mp h
    exact (Quote.encloses_backslash_iff hq).mpr (ih hb)
  | case4 =>
    obtain rfl := Option.some.inj h
    exact Quote.encloses_nil
  | case5 => cases h
  | case6 c cs hc hquote hend ih =>
    obtain ⟨b, hb, rfl⟩ := Option.map_eq_some_iff.mp h
    refine (Quote.encloses_cons_iff hc).mpr ⟨fun hleft => ?_, by simpa using hend, ih hb⟩
    -- Marks of the closing quote could make an earlier one together with the end of the body, but
    -- they stand in the text as well, where the scan has looked for the quote.
    have hcs : c :: (b ++ q.text) <+: c :: cs :=
      List.cons_prefix_cons.mpr ⟨rfl, isPrefix_of_body? hb⟩
    exact hquote (List.isPrefixOf_iff_prefix.mpr (hleft.trans hcs))

/-- The scan stops at the end of a body with its quote behind it, whatever follows. -/
theorem body?_of_encloses (hq : q.mark ≠ '\\') (h : q.Encloses b) :
    body? q (b ++ (q.text ++ rest)) = some b := by
  have hpaired := h.paired
  -- The scan takes the body by the same steps by which its backslashes are paired.
  induction hpaired with
  | nil =>
    obtain ⟨marks, hmarks⟩ := q.exists_text
    rw [List.nil_append, hmarks, List.cons_append, body?.eq_def]
    simp [hq, hmarks]
  | @plain c b hc _ ih =>
    obtain ⟨hquote, hline, hb⟩ := (Quote.encloses_cons_iff hc).mp h
    have hleft : c :: (b ++ q.text) <+: c :: (b ++ (q.text ++ rest)) := ⟨rest, by simp⟩
    have hnot : ¬ q.text <+: c :: (b ++ (q.text ++ rest)) := fun hp =>
      hquote (List.prefix_of_prefix_length_le hp hleft (by simp; omega))
    rw [List.cons_append, body?.eq_def]
    simpa [hc, hnot, ih hb] using hline
  | @hidden c b _ ih =>
    rw [List.cons_append, List.cons_append, body?.eq_def]
    simp [ih ((Quote.encloses_backslash_iff hq).mp h)]

theorem body?_eq_some_iff (hq : q.mark ∈ ['\x27', '\x22']) :
    body? q cs = some b ↔ q.Encloses b ∧ b ++ q.text <+: cs := by
  have hmark := Quote.mark_ne_backslash hq
  constructor
  · exact fun h => ⟨encloses_of_body? hmark h, isPrefix_of_body? h⟩
  · rintro ⟨hb, rest, rfl⟩
    rw [List.append_assoc]
    exact body?_of_encloses hmark hb

theorem Opening.read_eq (h : Opening lead q rest text) :
    read text = (body? q rest).elim (.unclosed lead q) fun b => .closed ⟨lead, q, b⟩ := by
  obtain ⟨rfl, hlead, hopens⟩ := h
  unfold read
  dsimp only
  rw [← isLead_iff.mp hlead, List.append_assoc, List.drop_left,
    Quote.opening?_eq_some_iff.mpr hopens]
  dsimp only
  rw [List.drop_left]
  cases body? q rest <;> rfl

theorem exists_opening_or_absent (text : List Char) :
    (∃ lead q rest, Opening lead q rest text) ∨
      read text = .absent ∧ ∃ lead rest, text = lead ++ rest ∧ IsLead lead text ∧
        ∀ c ∈ rest.head?, c ∉ ['\x27', '\x22'] := by
  obtain ⟨behind, hbehind⟩ := leadLetters_isPrefix text
  have hlead := isLead_leadLetters text
  have hdrop : text.drop (leadLetters text).length = behind :=
    calc text.drop (leadLetters text).length
      _ = (leadLetters text ++ behind).drop (leadLetters text).length := by rw [hbehind]
      _ = behind := List.drop_left
  cases hopen : Quote.opening? behind with
  | some q =>
    have hopens := Quote.opening?_eq_some_iff.mp hopen
    obtain ⟨rest, rfl⟩ := hopens.isPrefix
    exact .inl ⟨_, q, rest, by rw [List.append_assoc, hbehind], hlead, hopens⟩
  | none =>
    refine .inr ⟨?_, _, behind, hbehind.symm, hlead, Quote.opening?_eq_none_iff.mp hopen⟩
    simp [read, hdrop, hopen]

theorem read_eq_closed_iff :
    read text = .closed ⟨lead, q, b⟩ ↔
      ∃ rest, Opening lead q (b ++ q.text ++ rest) text ∧ q.Encloses b := by
  constructor
  · intro hread
    obtain ⟨lead', q', behind, h⟩ | ⟨habsent, -⟩ := exists_opening_or_absent text
    · rw [h.read_eq] at hread
      cases hbody : body? q' behind with
      | none => simp [hbody] at hread
      | some b' =>
        obtain ⟨rfl, rfl, rfl⟩ : lead' = lead ∧ q' = q ∧ b' = b := by simpa [hbody] using hread
        obtain ⟨hencloses, rest, rfl⟩ := (body?_eq_some_iff h.opens.mark).mp hbody
        exact ⟨rest, h, hencloses⟩
    · simp [habsent] at hread
  · rintro ⟨rest, h, hencloses⟩
    have hbody := (body?_eq_some_iff h.opens.mark).mpr ⟨hencloses, List.prefix_append _ rest⟩
    rw [h.read_eq, hbody]
    rfl

theorem read_eq_unclosed_iff :
    read text = .unclosed lead q ↔
      ∃ rest, Opening lead q rest text ∧ ¬ ∃ b, q.Encloses b ∧ b ++ q.text <+: rest := by
  constructor
  · intro hread
    obtain ⟨lead', q', rest, h⟩ | ⟨habsent, -⟩ := exists_opening_or_absent text
    · rw [h.read_eq] at hread
      cases hbody : body? q' rest with
      | some b => simp [hbody] at hread
      | none =>
        obtain ⟨rfl, rfl⟩ : lead' = lead ∧ q' = q := by simpa [hbody] using hread
        refine ⟨rest, h, fun ⟨b, hb⟩ => ?_⟩
        simp [(body?_eq_some_iff h.opens.mark).mpr hb] at hbody
    · simp [habsent] at hread
  · rintro ⟨rest, h, hnone⟩
    have hbody : body? q rest = none := Option.eq_none_iff_forall_ne_some.mpr fun b hb =>
      hnone ⟨b, (body?_eq_some_iff h.opens.mark).mp hb⟩
    rw [h.read_eq, hbody]
    rfl

theorem read_eq_absent_iff :
    read text = .absent ↔ ∃ lead rest, text = lead ++ rest ∧ IsLead lead text ∧
      ∀ c ∈ rest.head?, c ∉ ['\x27', '\x22'] := by
  constructor
  · intro hread
    obtain ⟨lead, q, rest, h⟩ | ⟨-, habsent⟩ := exists_opening_or_absent text
    · rw [h.read_eq] at hread
      cases hbody : body? q rest <;> simp [hbody] at hread
    · exact habsent
  · rintro ⟨lead, rest, rfl, hlead, hrest⟩
    have hopen := Quote.opening?_eq_none_iff.mpr hrest
    simp [read, ← isLead_iff.mp hlead, hopen]

theorem Opening.drop_eq (h : Opening lead q rest text) :
    text.drop (lead ++ q.text).length = rest := by
  rw [h.eq, List.drop_left]

theorem Opening.drop_append_eq {w : List Char} (h : Opening lead q (w ++ rest) text) :
    text.drop (lead ++ q.text ++ w).length = rest := by
  rw [List.length_append, ← List.drop_drop, h.drop_eq, List.drop_left]

theorem Opening.of_isPrefix {rest' : List Char} (h : Opening lead q rest text)
    (hrest : rest' <+: rest) : Opening lead q rest' (lead ++ q.text ++ rest') := by
  have hquote : q.text ++ rest' <+: q.text ++ rest := (List.prefix_append_right_inj _).mpr hrest
  have htext : lead ++ q.text ++ rest' <+: text := by
    rw [h.eq]
    exact (List.prefix_append_right_inj _).mpr hrest
  refine ⟨rfl, ⟨⟨q.text ++ rest', by simp⟩, h.isLead.isLeading, ?_⟩, h.opens.mark, ?_, ?_⟩
  · exact fun word hword => h.isLead.longest word (hword.trans htext)
  · exact List.prefix_append _ rest'
  · exact fun htriple => h.opens.triple (htriple.trans hquote)

end Literal

namespace Lexeme

variable {c : Char} {cs text : List Char} {x : Lexeme}

theorem ne_of_read (h : Literal.read (c :: cs) ≠ .absent) :
    c ∉ [' ', '\t', '\x0c', '#', '\n', '\r', '\\'] := by
  have hplain : ∀ d ∈ [' ', '\t', '\x0c', '#', '\n', '\r', '\\'],
      Literal.isLeadLetter d = false ∧ d ∉ ['\x27', '\x22'] := by
    simp [Literal.isLeadLetter]
  intro hc
  obtain ⟨hlead, hquote⟩ := hplain c hc
  exact h (read_eq_absent hlead hquote)

theorem first_of_lexeme? (h : (read (c :: cs)).lexeme? = some x) : first c cs = x := by
  have hread : read (c :: cs) ≠ .absent := fun habsent => by simp [habsent, Reading.lexeme?] at h
  rw [first_eq_solid (ne_of_read hread), solid]
  cases hr : read (c :: cs) with
  | closed l => simpa [hr, Reading.lexeme?] using h
  | unclosed lead q => simpa [hr, Reading.lexeme?] using h
  | absent => exact absurd hr hread

theorem lexemes_of_lexeme? (h : (read text).lexeme? = some x) :
    lexemes text = x :: lexemes (text.drop x.source.length) := by
  cases text with
  | nil => cases h
  | cons c cs => rw [lexemes_cons, first_of_lexeme? h]

end Lexeme

namespace Literal

/-- A literal ends at the first closing quote that no backslash hides. It is read exactly where
there is such a quote, with the text in front of it as its body. Where a literal is opened and there
is none, it is unclosed, and what is left stands behind the opening quote. Without a quote behind
the prefix letters there is no literal. A literal, or the opening quote of an unclosed one, is one
lexeme in front of the lexemes of what is left. -/
theorem read_outcome (text : List Char) :
    (∀ lead q body rest,
      (read text = .closed ⟨lead, q, body⟩ ∧
          text.drop (lead ++ q.text ++ body ++ q.text).length = rest) ↔
        Opening lead q (body ++ q.text ++ rest) text ∧ q.Encloses body) ∧
    (∀ lead q rest,
      (read text = .unclosed lead q ∧ text.drop (lead ++ q.text).length = rest) ↔
        Opening lead q rest text ∧ ¬ ∃ body, q.Encloses body ∧ body ++ q.text <+: rest) ∧
    (read text = .absent ↔
      ∃ lead rest, text = lead ++ rest ∧ IsLead lead text ∧
        ∀ c ∈ rest.head?, c ∉ ['\x27', '\x22']) ∧
    ∀ x ∈ (read text).lexeme?, lexemes text = x :: lexemes (text.drop x.source.length) := by
  refine ⟨fun lead q body rest => ?_, fun lead q rest => ?_, read_eq_absent_iff,
    fun x hx => Lexeme.lexemes_of_lexeme? hx⟩
  · rw [read_eq_closed_iff, List.append_assoc _ body]
    constructor
    · rintro ⟨⟨rest', h, hbody⟩, rfl⟩
      rw [h.drop_append_eq]
      exact ⟨h, hbody⟩
    · rintro ⟨h, hbody⟩
      exact ⟨⟨rest, h, hbody⟩, h.drop_append_eq⟩
  · rw [read_eq_unclosed_iff]
    constructor
    · rintro ⟨⟨rest', h, hnone⟩, rfl⟩
      rw [h.drop_eq]
      exact ⟨h, hnone⟩
    · rintro ⟨h, hnone⟩
      exact ⟨⟨rest, h, hnone⟩, h.drop_eq⟩

/-- A backslash hides the first of three marks, and the first three of six marks close. -/
def crowded : Literal := ⟨['R', 'b'], ⟨'\x27', true⟩, "a\\'''b".toList⟩

/-- The only mark behind the opening one of `u'a\'` is hidden. -/
theorem read_outcome_crowded :
    read "Rb'''a\\'''b''''''c".toList = .closed crowded ∧
      Opening crowded.lead crowded.quote (crowded.body ++ crowded.quote.text ++ "'''c".toList)
        "Rb'''a\\'''b''''''c".toList ∧
      crowded.quote.Encloses crowded.body ∧
      read "u'a\\'".toList = .unclosed ['u'] ⟨'\x27', false⟩ ∧
      (¬ ∃ body, Quote.Encloses ⟨'\x27', false⟩ body ∧ body ++ ['\x27'] <+: "a\\'".toList) ∧
      lexemes "u'a\\'".toList =
        ⟨.fault .unterminatedString, "u'".toList⟩ :: lexemes "a\\'".toList := by
  have hclosed : read "Rb'''a\\'''b''''''c".toList = .closed crowded := by decide +kernel
  have hunclosed : read "u'a\\'".toList = .unclosed ['u'] ⟨'\x27', false⟩ := by decide +kernel
  have hrest : "Rb'''a\\'''b''''''c".toList.drop (crowded.lead ++ crowded.quote.text ++
      crowded.body ++ crowded.quote.text).length = "'''c".toList := by decide +kernel
  have hbehind : "u'a\\'".toList.drop "u'".toList.length = "a\\'".toList := by decide +kernel
  obtain ⟨hopening, hbody⟩ := ((read_outcome _).1 _ _ _ _).mp ⟨hclosed, hrest⟩
  obtain ⟨-, hnone⟩ := ((read_outcome _).2.1 _ _ _).mp ⟨hunclosed, hbehind⟩
  have hlexeme := (read_outcome "u'a\\'".toList).2.2.2
    ⟨.fault .unterminatedString, "u'".toList⟩ (by rw [hunclosed]; rfl)
  rw [hbehind] at hlexeme
  exact ⟨hclosed, hopening, hbody, hunclosed, hnone, hlexeme⟩

end Literal
end GrammarForge
