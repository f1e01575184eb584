import GrammarForge.Proofs.LineEndLexemes

/-!
Line ends of two characters make no difference to the tokens of a text, unless a literal in quotes
of one mark goes on behind a line end. Such a literal is not closed then, and neither mode gives its
token.
-/

namespace GrammarForge

open Text

def Token.crlf (t : Token) : Token := { t with text? := t.kind.crlf t.text? }

def Event.crlf : Event → Event
  | .token t => .token t.crlf
  | e => e

/-- The column behind a carriage return does not count, since a line feed follows. -/
@[simp] theorem Position.behind_crlf (p : Position) (cs : List Char) :
    p.behind (crlf cs) = p.behind cs := by
  induction cs generalizing p with
  | nil => rfl
  | cons c cs ih =>
    by_cases hc : c = '\n'
    · rw [hc, crlf_lineFeed, behind_cons, behind_cons, behind_cons, ih]
      rfl
    · rw [crlf_cons hc, behind_cons, behind_cons, ih]

theorem Mode.collect_crlf (mode : Mode) (es : List Event) :
    mode.collect (es.map Event.crlf) = (mode.collect es).map (List.map Token.crlf) := by
  induction es with
  | nil => rfl
  | cons e es ih =>
    cases e with
    | token t =>
      rw [List.map_cons, Event.crlf, collect, collect, ih]
      cases mode.collect es <;> rfl
    | fault p f =>
      cases mode with
      | strict => rfl
      | lenient => exact ih

namespace Layout

variable {s : Layout} {p : Position} {l : Lexeme} {ls : List Lexeme}

theorem crlf_newline : (s.newline p).map Event.crlf = s.newline p := by
  unfold newline
  split <;> rfl

theorem crlf_dedents (ws : List Nat) :
    (ws.map fun _ => Event.token ⟨.dedent, none, p⟩).map Event.crlf =
      ws.map fun _ => .token ⟨.dedent, none, p⟩ :=
  List.map_map

theorem crlf_settle (w : Nat) : (s.settle w p).2.map Event.crlf = (s.settle w p).2 := by
  unfold settle
  dsimp only
  split
  · rfl
  · split
    · exact crlf_dedents _
    · rw [List.map_append, crlf_dedents]
      rfl

theorem crlf_close : (s.close p).map Event.crlf = s.close p := by
  rw [close, List.map_append, List.map_append, crlf_newline, crlf_dedents]
  rfl

theorem inLine_crlf (form : Lexeme.Form) :
    s.inLine p form.crlf = ((s.inLine p form).1, (s.inLine p form).2.map Event.crlf) := by
  cases form with
  | lineEnd =>
    simp only [Lexeme.Form.crlf, inLine]
    split
    · rw [crlf_newline]
    · rfl
  | _ => rfl

/-- A reader makes the same of a lexeme with line ends of two characters. -/
theorem step_crlf (hl : l.form = .blank → '\n' ∉ l.source) :
    s.step p l.crlf = ((s.step p l).1, (s.step p l).2.map Event.crlf) := by
  unfold step
  cases s.margin? with
  | none => exact inLine_crlf l.form
  | some w =>
    rw [Lexeme.crlf]
    cases hform : l.form with
    | blank => simp only [Lexeme.Form.crlf, crlf_eq_self (hl hform), List.map_nil]
    | comment => rfl
    | lineEnd => rfl
    | _ =>
      simp only [Lexeme.Form.crlf, inLine, List.map_append, crlf_settle]
      rfl

theorem events_crlf (hls : ∀ l ∈ ls, l.form = .blank → '\n' ∉ l.source) :
    s.events p (ls.map Lexeme.crlf) = (s.events p ls).map Event.crlf := by
  induction ls generalizing s p with
  | nil => exact crlf_close.symm
  | cons l ls ih =>
    obtain ⟨hl, hls⟩ := List.forall_mem_cons.mp hls
    rw [List.map_cons, events, events, step_crlf hl, List.map_append, ← ih hls]
    dsimp only
    rw [Lexeme.crlf, Position.behind_crlf]

theorem token_mem_step {k : Token.Kind} {text? : Option String} (hl : l.form = .token k text?) :
    .token ⟨k, text?, p⟩ ∈ (s.step p l).2 := by
  unfold step
  cases s.margin? <;> simp [hl, inLine]

theorem mem_events_of_form {front back : List Lexeme} {k : Token.Kind} {text? : Option String}
    (hl : l.form = .token k text?) :
    .token ⟨k, text?, p.behind (front.flatMap Lexeme.source)⟩ ∈
      s.events p (front ++ l :: back) := by
  induction front generalizing s p with
  | nil => exact List.mem_append_left _ (token_mem_step hl)
  | cons l' front ih =>
    rw [List.flatMap_cons, Position.behind_append]
    exact List.mem_append_right _ ih

theorem fault_mem_events {f : Fault} (hl : l ∈ ls) (hform : l.form = .fault f) :
    ∃ q, .fault q f ∈ s.events p ls := by
  induction ls generalizing s p with
  | nil => cases hl
  | cons l' ls ih =>
    rcases List.mem_cons.mp hl with rfl | hl
    · exact ⟨p, List.mem_append_left _ (fault_mem_step hform)⟩
    · obtain ⟨q, hq⟩ := ih hl
      exact ⟨q, List.mem_append_right _ hq⟩

end Layout

theorem Position.line_behind (p : Position) (cs : List Char) :
    (p.behind cs).line = p.line + cs.count '\n' := by
  induction cs generalizing p with
  | nil => rfl
  | cons c cs ih =>
    rw [behind_cons, ih]
    by_cases hc : c = '\n'
    · simp [next, hc]
      omega
    · simp [next, hc]

theorem Position.column_behind {p : Position} {cs : List Char} (h : '\n' ∉ cs) :
    (p.behind cs).column = p.column + cs.length := by
  induction cs generalizing p with
  | nil => rfl
  | cons c cs ih =>
    have hc : c ≠ '\n' := Ne.symm (List.ne_of_not_mem_cons h)
    rw [behind_cons, ih (List.not_mem_of_not_mem_cons h)]
    simp [next, hc]
    omega

theorem Position.behind_ne {p : Position} {cs : List Char} (h : cs ≠ []) : p ≠ p.behind cs := by
  intro hp
  have hline := p.line_behind cs
  rw [← hp] at hline
  have hn : '\n' ∉ cs := List.count_eq_zero.mp (by omega)
  have hcolumn := column_behind (p := p) hn
  rw [← hp] at hcolumn
  have hlength := List.length_pos_iff.mpr h
  omega

theorem flatMap_source_ne_nil {l : Lexeme} {ls : List Lexeme} (h : l.source ≠ []) :
    (l :: ls).flatMap Lexeme.source ≠ [] := by
  simp [h]

theorem flatMap_source_crlf (ls : List Lexeme) :
    (ls.map Lexeme.crlf).flatMap Lexeme.source = crlf (ls.flatMap Lexeme.source) := by
  induction ls with
  | nil => rfl
  | cons l ls ih =>
    rw [List.map_cons, List.flatMap_cons, List.flatMap_cons, crlf_append, ih]
    rfl

theorem source_ne_nil_of_mem {text : List Char} {l : Lexeme} (h : l ∈ lexemes text) :
    l.source ≠ [] := by
  obtain ⟨c, cs, rfl⟩ := Lexeme.exists_eq_first_of_mem h
  exact Lexeme.source_first_ne_nil c cs

theorem eq_of_behind_eq {p : Position} {front front' back back' : List Lexeme} {l l' : Lexeme}
    (hsource : ∀ x ∈ front ++ l :: back, x.source ≠ [])
    (h : front ++ l :: back = front' ++ l' :: back')
    (hp : p.behind (front.flatMap Lexeme.source) = p.behind (front'.flatMap Lexeme.source)) :
    l = l' := by
  induction front generalizing p front' with
  | nil =>
    cases front' with
    | nil => exact List.head_eq_of_cons_eq h
    | cons x front' =>
      obtain ⟨rfl, -⟩ := List.cons.inj h
      have hl : l.source ≠ [] := hsource l List.mem_cons_self
      exact absurd hp (Position.behind_ne (flatMap_source_ne_nil hl))
  | cons x front ih =>
    have hx : x.source ≠ [] := hsource x List.mem_cons_self
    cases front' with
    | nil => exact absurd hp.symm (Position.behind_ne (flatMap_source_ne_nil hx))
    | cons y front' =>
      obtain ⟨rfl, hrest⟩ := List.cons.inj h
      simp only [List.flatMap_cons, Position.behind_append] at hp
      exact ih (fun l hl => hsource l (List.mem_cons_of_mem _ hl)) hrest hp

theorem Mode.mem_of_collect {mode : Mode} {es : List Event} {ts : List Token} {t : Token}
    (h : mode.collect es = .ok ts) (ht : .token t ∈ es) : t ∈ ts := by
  obtain ⟨before, behind, rfl⟩ := List.append_of_mem ht
  obtain ⟨first, later, -, hlater, rfl⟩ := collect_append_eq_ok_iff.mp h
  obtain ⟨last, -, rfl⟩ := collect_cons_token_eq_ok_iff.mp hlater
  exact List.mem_append_right _ List.mem_cons_self

section Tokens

variable {text : String} {l : Lexeme}

theorem tokens_crlf_of_not_hidden (hr : '\r' ∉ text.toList)
    (h : ∀ l ∈ lexemes text.toList, l.hidesLineEnd = false) (mode : Mode) :
    tokens mode (crlfString text) = (tokens mode text).map (List.map Token.crlf) := by
  have hblank : ∀ l ∈ lexemes text.toList, l.form = .blank → '\n' ∉ l.source := by
    intro l hl
    obtain ⟨c, cs, rfl⟩ := Lexeme.exists_eq_first_of_mem hl
    exact Lexeme.lineFeed_not_mem_of_form_blank
  rw [tokens, events, crlfString, String.toList_ofList, lexemes_crlf hr h,
    Layout.events_crlf hblank, Mode.collect_crlf]
  rfl

/-- In the place of the first literal that hides a line end there is a fault. -/
theorem exists_lost_literal (hr : '\r' ∉ text.toList) (hl : l ∈ lexemes text.toList)
    (hh : l.hidesLineEnd = true) :
    ∃ front l text? back l' back', lexemes text.toList = front ++ l :: back ∧
      l.form = .token .string text? ∧
      lexemes (crlfString text).toList = front.map Lexeme.crlf ++ l' :: back' ∧
      l'.form = .fault .unterminatedString := by
  obtain ⟨l, hfind⟩ := Option.isSome_iff_exists.mp (List.find?_isSome.mpr ⟨l, hl, hh⟩)
  obtain ⟨hl, front, back, htext, hfront⟩ := List.find?_eq_some_iff_append.mp hfind
  obtain ⟨rest, -, hrest, hcrlf⟩ :=
    lexemes_crlf_of_append hr htext fun l hl => by simpa using hfront l hl
  obtain ⟨l', back', hl', hform⟩ := exists_lexemes_crlf_fault hrest.symm hl
  obtain ⟨text?, hstring⟩ := Lexeme.form_of_hidesLineEnd hl
  refine ⟨front, l, text?, back, l', back', htext, hstring, ?_, hform⟩
  rw [crlfString, String.toList_ofList, hcrlf, hl']

theorem tokens_crlf_ne {mode : Mode} {ts : List Token} (hr : '\r' ∉ text.toList)
    (hl : l ∈ lexemes text.toList) (hh : l.hidesLineEnd = true) (hts : tokens mode text = .ok ts) :
    tokens mode (crlfString text) ≠ .ok (ts.map Token.crlf) := by
  obtain ⟨front, l, text?, back, l', back', htext, hl, hcrlf, hl'⟩ := exists_lost_literal hr hl hh
  intro hlost
  have ht : .token ⟨.string, text?, Position.start.behind (front.flatMap Lexeme.source)⟩ ∈
      Layout.start.events .start (lexemes text.toList) := htext ▸ Layout.mem_events_of_form hl
  have hmem := Mode.mem_events_of_collect hlost (List.mem_map_of_mem (Mode.mem_of_collect hts ht))
  rcases Layout.form_of_mem_events hmem with hlayout | ⟨front', l₀, back₀, hcrlf', hl₀, hplace⟩
  · cases hlayout
  · -- Only one lexeme stands where the literal does, and that is the fault.
    have hsame : Position.start.behind ((front.map Lexeme.crlf).flatMap Lexeme.source) =
        Position.start.behind (front'.flatMap Lexeme.source) := by
      rw [flatMap_source_crlf, Position.behind_crlf, ← hplace]
      rfl
    have hsource : ∀ x ∈ front.map Lexeme.crlf ++ l' :: back', x.source ≠ [] := by
      rw [← hcrlf]
      exact fun x => source_ne_nil_of_mem
    obtain rfl := eq_of_behind_eq hsource (hcrlf.symm.trans hcrlf') hsame
    rw [hl₀] at hl'
    cases hl'

theorem tokens_strict_crlf_ne (hr : '\r' ∉ text.toList) (hl : l ∈ lexemes text.toList)
    (hh : l.hidesLineEnd = true) (ts : List Token) : tokens .strict (crlfString text) ≠ .ok ts := by
  obtain ⟨front, l, text?, back, l', back', -, -, hcrlf, hl'⟩ := exists_lost_literal hr hl hh
  intro hts
  have hmem : l' ∈ lexemes (crlfString text).toList := by simp [hcrlf]
  obtain ⟨q, hq⟩ := Layout.fault_mem_events (s := .start) (p := .start) hmem hl'
  cases Mode.eq_lenient_of_fault hts hq

end Tokens

/-- Line ends of two characters make no difference to the tokens of a text, and none to the fault
that ends a strict reading, if no literal in quotes of one mark goes on behind a line end. If there
is one, the strict reading fails and the lenient one has other tokens. -/
theorem tokens_crlf (text : String) (hr : '\r' ∉ text.toList) :
    ((∀ l ∈ lexemes text.toList, l.hidesLineEnd = false) → ∀ mode,
      tokens mode (crlfString text) = (tokens mode text).map (List.map Token.crlf)) ∧
    ((∃ l ∈ lexemes text.toList, l.hidesLineEnd = true) →
      (∀ ts, tokens .strict (crlfString text) ≠ .ok ts) ∧
      ∀ ts, tokens .lenient text = .ok ts →
        tokens .lenient (crlfString text) ≠ .ok (ts.map Token.crlf)) :=
  ⟨tokens_crlf_of_not_hidden hr, fun ⟨_, hl, hh⟩ =>
    ⟨tokens_strict_crlf_ne hr hl hh, fun _ hts => tokens_crlf_ne hr hl hh hts⟩⟩

def openLine : String := "x\n'''y\n'''"

def hiddenLine : String := "'y\\\nz'"

def openLineTokens : List Token :=
  [⟨.name, some "x", ⟨1, 1⟩⟩, ⟨.newline, none, ⟨1, 2⟩⟩, ⟨.string, some "y\n", ⟨2, 1⟩⟩,
    ⟨.newline, none, ⟨3, 4⟩⟩, ⟨.endMarker, none, ⟨3, 4⟩⟩]

theorem tokens_crlf_openLine :
    tokens .strict openLine = .ok openLineTokens ∧
      tokens .strict (crlfString openLine) = (tokens .strict openLine).map (List.map Token.crlf) ∧
      openLineTokens.map Token.crlf = [⟨.name, some "x", ⟨1, 1⟩⟩, ⟨.newline, none, ⟨1, 2⟩⟩,
        ⟨.string, some "y\r\n", ⟨2, 1⟩⟩, ⟨.newline, none, ⟨3, 4⟩⟩, ⟨.endMarker, none, ⟨3, 4⟩⟩] ∧
      ∀ ts, tokens .strict (crlfString hiddenLine) ≠ .ok ts := by
  have hopen : ∀ l ∈ lexemes openLine.toList, l.hidesLineEnd = false := by decide +kernel
  have hhidden : ∃ l ∈ lexemes hiddenLine.toList, l.hidesLineEnd = true := by decide +kernel
  exact ⟨by decide +kernel, (tokens_crlf openLine (by decide)).1 hopen .strict, by decide +kernel,
    ((tokens_crlf hiddenLine (by decide)).2 hhidden).1⟩

/-- With a line feed alone the literal is read, and with a carriage return in front of it the
literal is not closed. -/
theorem exists_tokens_crlf_eq_error :
    '\r' ∉ hiddenLine.toList ∧
      tokens .strict hiddenLine = .ok [⟨.string, some "y\\\nz", ⟨1, 1⟩⟩, ⟨.newline, none, ⟨2, 3⟩⟩,
        ⟨.endMarker, none, ⟨2, 3⟩⟩] ∧
      tokens .strict (crlfString hiddenLine) = .error (.lexical ⟨1, 1⟩ .unterminatedString) := by
  decide +kernel

end GrammarForge
