import GrammarForge.Token.Stream
import Mathlib.Data.List.Basic

/-!
Strict and lenient reading. Two readers of the same text, one of each mode, keep the same layout and
have the same tokens for as long as there is no fault. At a fault the strict one stops; the lenient
one goes on, and always comes to the end of the text.
-/

namespace GrammarForge

namespace Mode

variable {mode : Mode} {es es' : List Event} {ts : List Token}

theorem exists_collect_lenient (es : List Event) : ∃ ts, lenient.collect es = .ok ts := by
  induction es with
  | nil => exact ⟨[], rfl⟩
  | cons e es ih =>
    obtain ⟨ts, hts⟩ := ih
    cases e with
    | token t => exact ⟨t :: ts, by simp [collect, hts, Except.map]⟩
    | fault p f => exact ⟨ts, hts⟩

theorem collect_cons_token_eq_ok_iff {t : Token} :
    mode.collect (.token t :: es) = .ok ts ↔
      ∃ later, mode.collect es = .ok later ∧ ts = t :: later := by
  rw [collect]
  cases mode.collect es with
  | ok later => simp [Except.map, eq_comm]
  | error p => simp [Except.map]

theorem collect_lenient_of_strict (h : strict.collect es = .ok ts) :
    lenient.collect es = .ok ts := by
  induction es generalizing ts with
  | nil => exact h
  | cons e es ih =>
    cases e with
    | token t =>
      obtain ⟨later, hlater, rfl⟩ := collect_cons_token_eq_ok_iff.mp h
      exact collect_cons_token_eq_ok_iff.mpr ⟨later, ih hlater, rfl⟩
    | fault p f => cases h

theorem collect_append_eq_ok_iff : mode.collect (es ++ es') = .ok ts ↔
    ∃ now later, mode.collect es = .ok now ∧ mode.collect es' = .ok later ∧ ts = now ++ later := by
  induction es generalizing ts with
  | nil => simp [collect]
  | cons e es ih =>
    cases e with
    | token t =>
      simp only [List.cons_append, collect_cons_token_eq_ok_iff, ih]
      constructor
      · rintro ⟨_, ⟨now, later, hnow, hlater, rfl⟩, rfl⟩
        exact ⟨t :: now, later, ⟨now, hnow, rfl⟩, hlater, rfl⟩
      · rintro ⟨_, later, ⟨now, hnow, rfl⟩, hlater, rfl⟩
        exact ⟨now ++ later, ⟨now, later, hnow, hlater, rfl⟩, rfl⟩
    | fault p f =>
      cases mode with
      | strict => simp [collect]
      | lenient => exact ih

end Mode

namespace Layout

variable {mode : Mode} {s s' : Layout} {p : Position} {l : Lexeme} {ls : List Lexeme}
  {ts now : List Token}

/-- What a reader makes of the next lexeme: its tokens and the layout behind it, unless there is a
fault that it does not pass over. -/
def Advances (mode : Mode) (s : Layout) (p : Position) (l : Lexeme) (now : List Token)
    (s' : Layout) : Prop :=
  mode.collect (s.step p l).2 = .ok now ∧ s' = (s.step p l).1

/-- A reader that goes from lexeme to lexeme up to the end of the text, and the tokens it has
then. -/
inductive Reads (mode : Mode) : Layout → Position → List Lexeme → List Token → Prop
  | close {s : Layout} {p : Position} {ts : List Token} :
    mode.collect (s.close p) = .ok ts → Reads mode s p [] ts
  | step {s s' : Layout} {p : Position} {l : Lexeme} {ls : List Lexeme} {now later : List Token} :
    s.Advances mode p l now s' → Reads mode s' (p.behind l.source) ls later →
    Reads mode s p (l :: ls) (now ++ later)

theorem reads_iff : Reads mode s p ls ts ↔ mode.collect (s.events p ls) = .ok ts := by
  induction ls generalizing s p ts with
  | nil =>
    refine ⟨fun h => ?_, .close⟩
    cases h with
    | close h => exact h
  | cons l ls ih =>
    rw [events, Mode.collect_append_eq_ok_iff]
    constructor
    · intro h
      cases h with
      | step hnow hlater =>
        obtain ⟨hnow, rfl⟩ := hnow
        exact ⟨_, _, hnow, ih.mp hlater, rfl⟩
    · rintro ⟨now, later, hnow, hlater, rfl⟩
      exact .step ⟨hnow, rfl⟩ (ih.mpr hlater)

/-- Where the strict reader goes on, the lenient one has the same tokens and the same layout. -/
theorem Advances.lenient (h : s.Advances .strict p l now s') : s.Advances .lenient p l now s' :=
  ⟨Mode.collect_lenient_of_strict h.1, h.2⟩

theorem exists_advances_lenient (s : Layout) (p : Position) (l : Lexeme) :
    ∃ now s', s.Advances .lenient p l now s' := by
  obtain ⟨now, hnow⟩ := Mode.exists_collect_lenient (s.step p l).2
  exact ⟨now, _, hnow, rfl⟩

theorem Reads.lenient (h : Reads .strict s p ls ts) : Reads .lenient s p ls ts := by
  induction h with
  | close h => exact .close (Mode.collect_lenient_of_strict h)
  | step hnow _ ih => exact .step hnow.lenient ih

theorem exists_reads_lenient (s : Layout) (p : Position) (ls : List Lexeme) :
    ∃ ts, Reads .lenient s p ls ts := by
  induction ls generalizing s p with
  | nil =>
    obtain ⟨ts, hts⟩ := Mode.exists_collect_lenient (s.close p)
    exact ⟨ts, .close hts⟩
  | cons l ls ih =>
    obtain ⟨now, s', hnow⟩ := s.exists_advances_lenient p l
    obtain ⟨later, hlater⟩ := ih s' (p.behind l.source)
    exact ⟨now ++ later, .step hnow hlater⟩

end Layout

/-- The tokens of a text are those of a reader that starts with the first lexeme. -/
theorem tokens_eq_ok_iff {mode : Mode} {text : String} {ts : List Token} :
    tokens mode text = .ok ts ↔ Layout.Reads mode .start .start (lexemes text.toList) ts :=
  Layout.reads_iff.symm

/-- The lenient mode never fails, and where the strict one does not either, they agree. -/
theorem tokens_lenient (text : String) :
    (∃ ts, tokens .lenient text = .ok ts) ∧
    ∀ ts, tokens .strict text = .ok ts → tokens .lenient text = .ok ts := by
  constructor
  · obtain ⟨ts, hts⟩ := Layout.exists_reads_lenient .start .start (lexemes text.toList)
    exact ⟨ts, tokens_eq_ok_iff.mpr hts⟩
  · intro ts h
    exact tokens_eq_ok_iff.mpr (tokens_eq_ok_iff.mp h).lenient

/-- An indented line behind a comment, a continued line, and an open bracket. -/
theorem tokens_lenient_indented :
    ∃ ts, tokens .strict "# sum\nx: \\\n  (y\n 'z')\n  w\n" = .ok ts ∧ ts.length = 12 ∧
      tokens .lenient "# sum\nx: \\\n  (y\n 'z')\n  w\n" = .ok ts := by
  have hrun : (tokens .strict "# sum\nx: \\\n  (y\n 'z')\n  w\n").map List.length = .ok 12 := by
    decide +kernel
  cases hts : tokens .strict "# sum\nx: \\\n  (y\n 'z')\n  w\n" with
  | error p => simp [hts, Except.map] at hrun
  | ok ts =>
    have hlength : ts.length = 12 := by simpa [hts, Except.map] using hrun
    exact ⟨ts, rfl, hlength, (tokens_lenient _).2 ts hts⟩

end GrammarForge
