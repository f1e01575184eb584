import GrammarForge.Rule.Reader
import GrammarForge.Rule.Spelling

/-!
The body of a rule is read exactly as its tokens spell it. What has been read at any time is a stack
of unfinished groups, and the tokens read so far spell that stack.
-/

namespace GrammarForge

namespace Bracket

def opening : Bracket → Token.Kind
  | .round => .op .lPar
  | .square => .op .lSqr

def closing : Bracket → Token.Kind
  | .round => .op .rPar
  | .square => .op .rSqr

end Bracket

/-- The kind of token that puts a mark on the component in front of it. -/
def Repeat.kind? : Repeat → Option Token.Kind
  | .once => none
  | .star => some (.op .star)
  | .plus => some (.op .plus)

namespace Spells

theorem sequence {ts : List Token} {c : Component} (hc : Spells ts (.component c)) :
    Spells ts (.sequence [c]) := by
  simpa using Spells.cons hc .nil

theorem snoc {ts us : List Token} {p : Production} {c : Component}
    (hp : Spells ts (.sequence p)) (hc : Spells us (.component c)) :
    Spells (ts ++ us) (.sequence (p ++ [c])) := by
  generalize hx : BodyPart.sequence p = x at hp
  induction hp generalizing p with
  | nil =>
    cases hx
    exact hc.sequence
  | @cons ts' us' c' p' hc' hp' _ ih =>
    cases hx
    simpa using Spells.cons hc' (ih rfl)
  | _ => cases hx

theorem mark {ts : List Token} {t : Token} {c : Component} {m : Repeat}
    (hc : Spells ts (.component c)) (ht : m.kind? = some t.kind) :
    Spells (ts ++ [t]) (.component ⟨c.symbol, m⟩) := by
  cases m with
  | once => cases ht
  | star => exact .star hc (Option.some.inj ht).symm
  | plus => exact .plus hc (Option.some.inj ht).symm

theorem bracketed {b : Bracket} {first last : Token} {ts : List Token} {ps : List Production}
    (hf : first.kind = b.opening) (h : Spells ts (.alternatives ps)) (hl : last.kind = b.closing) :
    Spells (first :: ts ++ [last]) (.symbol (.group ⟨b == .square, false, ps⟩)) := by
  cases b with
  | round => exact .group hf h hl
  | square => exact .optional hf h hl

end Spells

section Words

variable {word : String}

theorem wordSymbol?_eq_some_iff {s : Symbol} : wordSymbol? word = some s ↔ StandsFor word s := by
  constructor
  · intro h
    unfold wordSymbol? at h
    split at h
    case isTrue hupper =>
      cases h
      exact .terminal hupper
    case isFalse hupper =>
      split at h
      case isTrue hlower =>
        cases h
        exact .reference (by simpa using hupper) hlower
      case isFalse => cases h
  · intro h
    cases h with
    | terminal hupper => simp [wordSymbol?, hupper]
    | reference hupper hlower => simp [wordSymbol?, hupper, hlower]

/-- A word of mixed case, or one without a letter, stands for nothing. -/
theorem wordSymbol?_eq_none_iff :
    wordSymbol? word = none ↔ (Text.isUpperWord word || Text.isLowerWord word) = false := by
  cases hupper : Text.isUpperWord word <;> cases hlower : Text.isLowerWord word <;>
    simp [wordSymbol?, hupper, hlower]

end Words

def IsAtom (t : Token) (s : Symbol) : Prop :=
  (t.kind = .name ∧ StandsFor t.text s) ∨ (t.kind = .string ∧ s = .literal t.text)

theorem IsAtom.spells {t : Token} {s : Symbol} (h : IsAtom t s) : Spells [t] (.symbol s) := by
  rcases h with ⟨hk, hs⟩ | ⟨hk, rfl⟩
  · exact .word hk hs
  · exact .literal hk

namespace Progress

/-- What one more token can do. -/
inductive Takes (t : Token) : Progress → Progress → Prop where
  | bar {d : Draft} {e : List (Bracket × Draft)} :
      t.kind = .op .pipe → Takes t ⟨d, e⟩ ⟨d.next, e⟩
  | opens {s : Progress} (b : Bracket) : t.kind = b.opening → Takes t s (s.openGroup b)
  | closes {b : Bracket} {d outer : Draft} {e : List (Bracket × Draft)} : t.kind = b.closing →
      Takes t ⟨d, (b, outer) :: e⟩
        ⟨outer.push (.once (.group ⟨b == .square, false, d.productions⟩)), e⟩
  | marks {m : Repeat} {f : List Production} {c : Component} {p : Production}
      {e : List (Bracket × Draft)} : m.kind? = some t.kind →
      Takes t ⟨⟨f, c :: p⟩, e⟩ ⟨⟨f, ⟨c.symbol, m⟩ :: p⟩, e⟩
  | atom {d : Draft} {e : List (Bracket × Draft)} {sym : Symbol} :
      IsAtom t sym → Takes t ⟨d, e⟩ ⟨d.push (.once sym), e⟩

theorem takes_of_closeGroup? {s s' : Progress} {t : Token} {b : Bracket} (hk : t.kind = b.closing)
    (h : s.closeGroup? b = some s') : Takes t s s' := by
  obtain ⟨d, e⟩ := s
  match e with
  | [] => cases h
  | (b', outer) :: e =>
    simp only [closeGroup?] at h
    split at h
    · rename_i hb
      subst hb
      cases h
      exact .closes hk
    · cases h

theorem takes_of_mark? {s : Progress} {d : Draft} {t : Token} {m : Repeat}
    (hk : m.kind? = some t.kind) (h : s.draft.mark? m = some d) :
    Takes t s ⟨d, s.enclosing⟩ := by
  obtain ⟨⟨f, p⟩, e⟩ := s
  match p with
  | [] => cases h
  | c :: p =>
    cases h
    exact .marks hk

theorem elim_error_eq_ok_iff {α : Type} {o : Option α} {f : α → Progress} {e : Problem}
    {s : Progress} :
    o.elim (Except.error e) (fun a => .ok (f a)) = .ok s ↔ ∃ a, o = some a ∧ f a = s := by
  cases o <;> simp

theorem step_eq_ok_iff {rule : String} {s s' : Progress} {t : Token} :
    s.step rule t = .ok s' ↔ Takes t s s' := by
  constructor
  · intro h
    unfold step at h
    split at h
    case h_1 hk => cases h; exact .bar hk
    case h_2 hk => cases h; exact .opens .round hk
    case h_3 hk => cases h; exact .opens .square hk
    case h_4 hk =>
      obtain ⟨_, hc, rfl⟩ := (elim_error_eq_ok_iff (f := id)).mp h
      exact takes_of_closeGroup? (b := .round) hk hc
    case h_5 hk =>
      obtain ⟨_, hc, rfl⟩ := (elim_error_eq_ok_iff (f := id)).mp h
      exact takes_of_closeGroup? (b := .square) hk hc
    case h_6 hk =>
      obtain ⟨_, hm, rfl⟩ := elim_error_eq_ok_iff.mp h
      exact takes_of_mark? (m := .star) (congrArg some hk.symm) hm
    case h_7 hk =>
      obtain ⟨_, hm, rfl⟩ := elim_error_eq_ok_iff.mp h
      exact takes_of_mark? (m := .plus) (congrArg some hk.symm) hm
    case h_8 hk =>
      obtain ⟨_, hs, rfl⟩ := elim_error_eq_ok_iff.mp h
      exact .atom (.inl ⟨hk, wordSymbol?_eq_some_iff.mp hs⟩)
    case h_9 hk => cases h; exact .atom (.inr ⟨hk, rfl⟩)
    case h_10 => cases h
  · intro h
    cases h with
    | bar hk => simp [step, hk]
    | opens b hk => cases b <;> simp [step, hk, Bracket.opening]
    | @closes b d outer e hk => cases b <;> simp [step, hk, Bracket.closing, closeGroup?]
    | @marks m f c p e hm =>
      cases m with
      | once => cases hm
      | star => simp [step, ← Option.some.inj hm, mark, Draft.mark?]
      | plus => simp [step, ← Option.some.inj hm, mark, Draft.mark?]
    | atom ha =>
      rcases ha with ⟨hk, hs⟩ | ⟨hk, rfl⟩
      · simp [step, hk, wordSymbol?_eq_some_iff.mpr hs, push]
      · simp [step, hk, push]

end Progress

/-- The tokens read since the start of an unfinished group spell it. -/
inductive Draft.Reads : List Token → Draft → Prop where
  | empty : Reads [] .empty
  | push {ts us : List Token} {d : Draft} {c : Component} :
      Reads ts d → Spells us (.component c) → Reads (ts ++ us) (d.push c)
  | next {ts : List Token} {d : Draft} {bar : Token} :
      Reads ts d → bar.kind = .op .pipe → Reads (ts ++ [bar]) d.next

namespace Draft.Reads

variable {ts us : List Token} {d : Draft}

/-- A group whose end is read is a list of alternatives, of which the running one is the last. -/
theorem spells (h : Reads ts d) : Spells ts (.alternatives d.productions) := by
  have split : ∃ front back, ts = front ++ back ∧ Spells back (.sequence d.current.reverse) ∧
      ∀ us p ps, Spells us (.alternatives (p :: ps)) →
        Spells (front ++ us) (.alternatives (d.finished.reverse ++ p :: ps)) := by
    induction h with
    | empty => exact ⟨[], [], rfl, .nil, fun us p ps h => h⟩
    | @push ts us d c _ hc ih =>
      obtain ⟨front, back, rfl, hback, hfront⟩ := ih
      refine ⟨front, back ++ us, by simp, ?_, hfront⟩
      simpa [Draft.push] using hback.snoc hc
    | @next ts d bar _ hbar ih =>
      obtain ⟨front, back, rfl, hback, hfront⟩ := ih
      refine ⟨front ++ back ++ [bar], [], by simp, .nil, fun us p ps h => ?_⟩
      simpa [Draft.next] using hfront _ _ _ (.choice hback hbar h)
  obtain ⟨front, back, rfl, hback, hfront⟩ := split
  simpa [productions] using hfront back _ [] (.single hback)

theorem mark {t : Token} {f : List Production} {c : Component} {p : Production} {m : Repeat}
    (h : Reads ts ⟨f, c :: p⟩) (hm : m.kind? = some t.kind) :
    Reads (ts ++ [t]) ⟨f, ⟨c.symbol, m⟩ :: p⟩ := by
  generalize hd : (⟨f, c :: p⟩ : Draft) = d at h
  cases h with
  | empty => cases hd
  | @push ts us d' c' h hc =>
    obtain ⟨rfl, hcur⟩ := Draft.mk.inj hd
    obtain ⟨rfl, rfl⟩ := List.cons.inj hcur
    simpa [Draft.push] using Reads.push h (hc.mark hm)
  | next => cases hd

end Draft.Reads

/-- The tokens read so far spell the stack of unfinished groups. -/
inductive Progress.Reads : List Token → Progress → Prop where
  | outermost {ts : List Token} {d : Draft} : d.Reads ts → Reads ts ⟨d, []⟩
  | inside {ts us : List Token} {first : Token} {b : Bracket} {d outer : Draft}
      {e : List (Bracket × Draft)} : Reads ts ⟨outer, e⟩ → first.kind = b.opening → d.Reads us →
      Reads (ts ++ first :: us) ⟨d, (b, outer) :: e⟩

namespace Progress

inductive Runs : List Token → Progress → Progress → Prop where
  | nil {s : Progress} : Runs [] s s
  | cons {t : Token} {ts : List Token} {s s' s'' : Progress} :
      Takes t s s' → Runs ts s' s'' → Runs (t :: ts) s s''

namespace Runs

variable {ts us : List Token} {t : Token} {s s' s'' : Progress}

theorem append (h : Runs ts s s') (h' : Runs us s' s'') : Runs (ts ++ us) s s'' := by
  induction h with
  | nil => exact h'
  | cons ht _ ih => exact .cons ht (ih h')

theorem snoc (h : Runs ts s s') (ht : Takes t s' s'') : Runs (ts ++ [t]) s s'' :=
  h.append (.cons ht .nil)

end Runs

theorem foldlM_step_eq_ok_iff (rule : String) {ts : List Token} {s s' : Progress} :
    ts.foldlM (step rule) s = .ok s' ↔ Runs ts s s' := by
  induction ts generalizing s with
  | nil =>
    constructor
    · intro h
      cases h
      exact .nil
    · intro h
      cases h
      rfl
  | cons t ts ih =>
    rw [List.foldlM_cons]
    constructor
    · intro h
      cases ht : s.step rule t with
      | error e => simp [ht, bind, Except.bind] at h
      | ok s₁ =>
        rw [ht] at h
        exact .cons (step_eq_ok_iff.mp ht) (ih.mp h)
    · intro h
      cases h with
      | cons ht h =>
        rw [step_eq_ok_iff.mpr ht]
        exact ih.mpr h

namespace Reads

variable {ts us : List Token} {t : Token} {s s' : Progress} {d d' : Draft}
  {e : List (Bracket × Draft)}

/-- What is read next changes the innermost group only. -/
theorem extend (h : Reads ts ⟨d, e⟩) (hd : ∀ vs, d.Reads vs → d'.Reads (vs ++ us)) :
    Reads (ts ++ us) ⟨d', e⟩ := by
  cases h with
  | outermost h => exact .outermost (hd _ h)
  | inside h hf hin =>
    have := inside h hf (hd _ hin)
    simpa using this

theorem step (h : Reads ts s) (ht : Takes t s s') : Reads (ts ++ [t]) s' := by
  cases ht with
  | bar hk => exact h.extend fun _ hd => hd.next hk
  | opens b hk => exact .inside h hk .empty
  | closes hk =>
    cases h with
    | inside hout hf hin =>
      have hgroup := Spells.bracketed hf hin.spells hk
      have := hout.extend fun _ hd => hd.push (.once hgroup)
      simpa using this
  | marks hm => exact h.extend fun _ hd => hd.mark hm
  | atom ha => exact h.extend fun _ hd => hd.push (.once ha.spells)

theorem run (h : Reads ts s) (hr : Runs us s s') : Reads (ts ++ us) s' := by
  induction hr generalizing ts with
  | nil => simpa using h
  | cons ht _ ih => simpa using ih (h.step ht)

end Reads

end Progress

namespace Draft

def pushAll (d : Draft) (p : Production) : Draft := ⟨d.finished, p.reverse ++ d.current⟩

/-- The draft whose running alternative went on with the first of `ps`, and the others behind. -/
def pushAlternatives : Draft → List Production → Draft
  | d, [] => d
  | d, [p] => d.pushAll p
  | d, p :: q :: ps => (d.pushAll p).next.pushAlternatives (q :: ps)

theorem productions_pushAlternatives {ps : List Production} (hps : ps ≠ []) :
    ∀ {d : Draft}, d.current = [] →
      (d.pushAlternatives ps).productions = d.finished.reverse ++ ps := by
  induction ps with
  | nil => exact absurd rfl hps
  | cons p ps ih =>
    intro d hd
    cases ps with
    | nil => simp [pushAlternatives, pushAll, productions, hd]
    | cons q ps =>
      have h := ih (List.cons_ne_nil q ps) (d := (d.pushAll p).next) rfl
      simpa [pushAlternatives, next, pushAll, hd] using h

/-- What reading a part of a body makes of the group it stands in. -/
def extend (d : Draft) : BodyPart → Draft
  | .alternatives ps => d.pushAlternatives ps
  | .sequence p => d.pushAll p
  | .component c => d.push c
  | .symbol s => d.push (.once s)

end Draft

namespace Spells

variable {ts : List Token} {ps : List Production} {x : BodyPart}

theorem alternatives_ne_nil (h : Spells ts (.alternatives ps)) : ps ≠ [] := by
  cases h <;> simp

theorem productions_empty (h : Spells ts (.alternatives ps)) :
    (Draft.empty.pushAlternatives ps).productions = ps :=
  Draft.productions_pushAlternatives h.alternatives_ne_nil rfl

/-- Spelled tokens can be read wherever they stand. -/
theorem runs (h : Spells ts x) :
    ∀ d e, Progress.Runs ts ⟨d, e⟩ ⟨d.extend x, e⟩ := by
  induction h with
  | single _ ih => exact ih
  | @choice ts us bar p ps _ hbar hps ihp ihps =>
    intro d e
    obtain ⟨q, ps, rfl⟩ := List.exists_cons_of_ne_nil hps.alternatives_ne_nil
    exact (ihp d e).append (.cons (.bar hbar) (ihps _ e))
  | nil => exact fun d e => .nil
  | @cons ts us c p _ _ ihc ihp =>
    intro d e
    have h := (ihc d e).append (ihp _ e)
    simpa [Draft.extend, Draft.push, Draft.pushAll] using h
  | once _ ih => exact ih
  | star _ ht ih => exact fun d e => (ih d e).snoc (.marks (m := .star) (congrArg some ht.symm))
  | plus _ ht ih => exact fun d e => (ih d e).snoc (.marks (m := .plus) (congrArg some ht.symm))
  | word hk hs => exact fun d e => .cons (.atom (.inl ⟨hk, hs⟩)) .nil
  | literal hk => exact fun d e => .cons (.atom (.inr ⟨hk, rfl⟩)) .nil
  | group hf hps hl ih =>
    intro d e
    have h := (ih .empty ((.round, d) :: e)).snoc (.closes hl)
    simp only [Draft.extend, hps.productions_empty] at h
    exact .cons (.opens .round hf) h
  | optional hf hps hl ih =>
    intro d e
    have h := (ih .empty ((.square, d) :: e)).snoc (.closes hl)
    simp only [Draft.extend, hps.productions_empty] at h
    exact .cons (.opens .square hf) h

end Spells

theorem Progress.Runs.spells {ts : List Token} {d : Draft} (h : Runs ts .start ⟨d, []⟩) :
    Spells ts (.alternatives d.productions) := by
  have hstart : Reads [] .start := .outermost .empty
  cases hstart.run h with
  | outermost hd => exact hd.spells

/-- A body is read exactly when its tokens spell it, and as what they spell. -/
theorem readBody_eq_ok_iff (rule : String) {ts : List Token} {ps : List Production} :
    readBody rule ts = .ok ps ↔ Spells ts (.alternatives ps) := by
  have hrun : readBody rule ts = .ok ps ↔
      ∃ d, Progress.Runs ts .start ⟨d, []⟩ ∧ d.productions = ps := by
    unfold readBody
    cases hs : ts.foldlM (Progress.step rule) .start with
    | error e => simp [← Progress.foldlM_step_eq_ok_iff rule, hs, bind, Except.bind]
    | ok s =>
      obtain ⟨d, e⟩ := s
      cases e <;> simp [← Progress.foldlM_step_eq_ok_iff rule, hs, bind, Except.bind]
  rw [hrun]
  constructor
  · rintro ⟨d, hr, rfl⟩
    exact hr.spells
  · intro h
    exact ⟨_, h.runs .empty [], h.productions_empty⟩

end GrammarForge
