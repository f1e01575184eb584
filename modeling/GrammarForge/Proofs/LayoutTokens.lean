import GrammarForge.Proofs.TokenSpans
import Mathlib.Data.List.Induction

/-!
The layout among the tokens of a text. A reader takes a lexeme by single actions, and each of them
keeps its indentations, its brackets and its open line in step with the tokens it has so far. What
it leaves behind at the end of the text is therefore in order: layout stands at the ends and starts
of lines only, outside of brackets, and indentations are closed as often as they are opened.
-/

namespace GrammarForge

def occurrences (k : Token.Kind) (ts : List Token) : Nat := ts.countP (·.kind == k)

def openers : List Token.Kind := [.op .lPar, .op .lSqr, .op .lBrc]

def closers : List Token.Kind := [.op .rPar, .op .rSqr, .op .rBrc]

/-- The number of open brackets behind the tokens. A closing bracket without an opening one does not
count. -/
def bracketDepth (ts : List Token) : Nat :=
  ts.foldl (fun depth t => if t.kind ∈ openers then depth + 1
    else if t.kind ∈ closers then depth - 1 else depth) 0

def EndsSolid (ts : List Token) : Prop := ∃ u, ts.getLast? = some u ∧ u.kind.isLayout = false

/-- There is no token, or the last one ends a line or stands at the start of one. -/
def EndsLine (ts : List Token) : Prop :=
  ∀ u, ts.getLast? = some u → u.kind = .newline ∨ u.kind = .indent ∨ u.kind = .dedent

def AllPlaced (P : List Token → Token → Prop) (ts : List Token) : Prop :=
  ∀ front t rest, ts = front ++ t :: rest → P front t

/-- The layout among tokens is in order. -/
structure LaidOut (mode : Mode) (ts : List Token) : Prop where
  endMarker : ∃ front last, ts = front ++ [last] ∧ last.kind = .endMarker ∧
    ∀ t ∈ front, t.kind ≠ .endMarker
  newline : AllPlaced (fun front t => t.kind = .newline → EndsSolid front) ts
  indentation : AllPlaced (fun front t => t.kind = .indent ∨ t.kind = .dedent → EndsLine front) ts
  /-- Only the line ends and dedents at the very end may stand within brackets. -/
  brackets : ∀ front t rest, ts = front ++ t :: rest →
    t.kind = .newline ∨ t.kind = .indent ∨ t.kind = .dedent →
    (∃ u ∈ t :: rest, u.kind ∉ [.newline, .dedent, .endMarker]) → bracketDepth front = 0
  strict : mode = .strict →
    (∀ front, front <+: ts → occurrences .dedent front ≤ occurrences .indent front) ∧
      occurrences .dedent ts = occurrences .indent ts
  lenient : mode = .lenient → occurrences .indent ts ≤ occurrences .dedent ts

namespace Layout

/-- The widths of the indentations, the outermost first. -/
def stack (s : Layout) : List Nat := 0 :: s.indents.reverse

/-- A reader of a text on its way: its layout, its place, the lexemes in front of it and the tokens
it has. -/
inductive Reaches (mode : Mode) (text : List Char) :
    Layout → Position → List Lexeme → List Token → Prop
  | start : Reaches mode text .start .start (lexemes text) []
  | step {s s' : Layout} {p : Position} {l : Lexeme} {ls : List Lexeme} {out now : List Token} :
    Reaches mode text s p (l :: ls) out → s.Advances mode p l now s' →
    Reaches mode text s' (p.behind l.source) ls (out ++ now)

/-- The single actions of a reader, and the tokens that come of them. -/
inductive Act (mode : Mode) (p : Position) : Layout → List Token → Layout → Prop
  | margin {s : Layout} {w : Nat} (w' : Nat) : s.margin? = some w →
    Act mode p s [] { s with margin? := some w' }
  | indent {s : Layout} {v w : Nat} : s.margin? = some v → s.indents.headD 0 < w →
    Act mode p s [⟨.indent, none, p⟩] { s with indents := w :: s.indents }
  | dedent {s : Layout} {v w : Nat} {ws : List Nat} : s.margin? = some v → s.indents = w :: ws →
    Act mode p s [⟨.dedent, none, p⟩] { s with indents := ws }
  | adopt {s : Layout} {v w : Nat} : s.margin? = some v → s.indents.headD 0 < w →
    mode = .lenient → Act mode p s [] { s with indents := w :: s.indents }
  | settle {s : Layout} : Act mode p s [] { s with margin? := none }
  | newline {s : Layout} : s.lineOpen = true → s.depth = 0 →
    Act mode p s [⟨.newline, none, p⟩] { s with lineOpen := false, margin? := some 0 }
  | emptyLine {s : Layout} : s.lineOpen = false → s.depth = 0 →
    Act mode p s [] { s with lineOpen := false, margin? := some 0 }
  | token {s : Layout} {k : Token.Kind} (text? : Option String) :
    s.margin? = none → k.isLayout = false →
    Act mode p s [⟨k, text?, p⟩] { s with depth := nest s.depth k, lineOpen := true }

inductive Acts (mode : Mode) (p : Position) : Layout → List Token → Layout → Prop
  | nil {s : Layout} : Acts mode p s [] s
  | snoc {s s' s'' : Layout} {now more : List Token} :
    Acts mode p s now s' → Act mode p s' more s'' → Acts mode p s (now ++ more) s''

section Actions

variable {mode : Mode} {s s' s'' : Layout} {p : Position} {l : Lexeme} {ls : List Lexeme}
  {now more : List Token}

theorem Act.acts (h : Act mode p s now s') : Acts mode p s now s' := .snoc .nil h

theorem Acts.append (h : Acts mode p s now s') (h' : Acts mode p s' more s'') :
    Acts mode p s (now ++ more) s'' := by
  induction h' with
  | nil => simpa using h
  | snoc _ ha ih => simpa using ih.snoc ha

theorem acts_dedents {v : Nat} {inner outer : List Nat} (hm : s.margin? = some v)
    (hs : s.indents = inner ++ outer) :
    Acts mode p s (inner.map fun _ => ⟨.dedent, none, p⟩) { s with indents := outer } := by
  induction inner generalizing s with
  | nil =>
    have hsame : { s with indents := outer } = s := by rw [← List.nil_append outer, ← hs]
    rw [hsame]
    exact .nil
  | cons w ws ih =>
    have hfirst : Act mode p s [⟨.dedent, none, p⟩] { s with indents := ws ++ outer } :=
      .dedent hm hs
    exact hfirst.acts.append (ih hm rfl)

theorem headD_dropWhile_le (indents : List Nat) (w : Nat) :
    (indents.dropWhile (w < ·)).headD 0 ≤ w := by
  induction indents with
  | nil => exact Nat.zero_le w
  | cons v vs ih =>
    by_cases hv : w < v
    · simpa [hv] using ih
    · simpa [hv] using Nat.not_lt.mp hv

theorem collect_dedents {es : List Event} {ws : List Nat} :
    mode.collect ((ws.map fun _ => .token ⟨.dedent, none, p⟩) ++ es) = .ok now ↔
      ∃ later, mode.collect es = .ok later ∧
        now = (ws.map fun _ => ⟨.dedent, none, p⟩) ++ later := by
  have htokens : (ws.map fun _ => Event.token ⟨.dedent, none, p⟩) =
      (ws.map fun _ => ⟨.dedent, none, p⟩).map .token := List.map_map.symm
  rw [htokens, Mode.collect_append_eq_ok_iff, Mode.collect_map_token]
  constructor
  · rintro ⟨_, later, hdedents, hlater, rfl⟩
    cases hdedents
    exact ⟨later, hlater, rfl⟩
  · rintro ⟨later, hlater, rfl⟩
    exact ⟨_, later, rfl, hlater, rfl⟩

theorem acts_settle {v w : Nat} (hm : s.margin? = some v)
    (h : mode.collect (s.settle w p).2 = .ok now) : Acts mode p s now (s.settle w p).1 := by
  unfold settle at h ⊢
  by_cases hw : s.indents.headD 0 < w
  · rw [if_pos hw] at h ⊢
    cases h
    exact (Act.indent hm hw).acts.snoc .settle
  · rw [if_neg hw] at h ⊢
    dsimp only at h ⊢
    have hle := headD_dropWhile_le s.indents w
    have hclose : Acts mode p s ((s.indents.takeWhile (w < ·)).map fun _ => ⟨.dedent, none, p⟩)
        { s with indents := s.indents.dropWhile (w < ·) } :=
      acts_dedents hm List.takeWhile_append_dropWhile.symm
    by_cases heq : (s.indents.dropWhile (w < ·)).headD 0 = w
    · rw [if_pos heq] at h ⊢
      rw [← List.append_nil (List.map _ _), collect_dedents] at h
      obtain ⟨_, hlater, rfl⟩ := h
      cases hlater
      exact hclose.snoc .settle
    · rw [if_neg heq] at h ⊢
      obtain ⟨later, hlater, rfl⟩ := collect_dedents.mp h
      have hmode := Mode.eq_lenient_of_fault hlater List.mem_cons_self
      subst hmode
      cases hlater
      have hadopt : Act .lenient p { s with indents := s.indents.dropWhile (w < ·) } []
          { s with indents := w :: s.indents.dropWhile (w < ·) } :=
        .adopt hm (Nat.lt_of_le_of_ne hle heq) rfl
      simpa using (hclose.snoc hadopt).snoc .settle

theorem acts_inLine {form : Lexeme.Form} (hm : s.margin? = none)
    (hform : ∀ k text?, form = .token k text? → k.isLayout = false)
    (h : mode.collect (s.inLine p form).2 = .ok now) : Acts mode p s now (s.inLine p form).1 := by
  cases form with
  | blank => cases h; exact .nil
  | comment => cases h; exact .nil
  | continuation => cases h; exact .nil
  | lineEnd =>
    rw [inLine] at h ⊢
    by_cases hd : s.depth = 0
    · rw [if_pos hd] at h ⊢
      unfold Layout.newline at h
      by_cases hopen : s.lineOpen = true
      · rw [if_pos hopen] at h
        cases h
        exact (Act.newline hopen hd).acts
      · rw [if_neg hopen] at h
        cases h
        exact (Act.emptyLine (by simpa using hopen) hd).acts
    · rw [if_neg hd] at h ⊢
      cases h
      exact .nil
  | token k text? =>
    cases h
    exact (Act.token text? hm (hform k text? rfl)).acts
  | fault f =>
    have hmode := Mode.eq_lenient_of_fault h List.mem_cons_self
    subst hmode
    cases h
    exact .nil

/-- Every lexeme is taken by actions. -/
theorem Advances.acts (h : s.Advances mode p l now s')
    (hl : ∀ k text?, l.form = .token k text? → k.isLayout = false) : Acts mode p s now s' := by
  obtain ⟨hnow, rfl⟩ := h
  unfold step at hnow ⊢
  cases hm : s.margin? with
  | none =>
    rw [hm] at hnow
    exact acts_inLine hm hl hnow
  | some w =>
    rw [hm] at hnow
    have hsettled : (s.settle w p).1.margin? = none := by
      unfold settle
      split
      · rfl
      · dsimp only
        split <;> rfl
    cases hform : l.form with
    | blank =>
      simp only [hform] at hnow
      cases hnow
      exact (Act.margin _ hm).acts
    | comment =>
      simp only [hform] at hnow
      cases hnow
      exact .nil
    | lineEnd =>
      simp only [hform] at hnow
      cases hnow
      exact (Act.margin 0 hm).acts
    | _ =>
      simp only [hform] at hnow
      rw [Mode.collect_append_eq_ok_iff] at hnow
      obtain ⟨first, more, hfirst, hmore, rfl⟩ := hnow
      exact (acts_settle hm hfirst).append (acts_inLine hsettled (hform ▸ hl) hmore)

end Actions
end Layout

section Counting

variable {P : List Token → Token → Prop} {ts us front : List Token} {t : Token} {k : Token.Kind}

theorem allPlaced_nil : AllPlaced P [] := by
  intro front t rest h
  simp at h

theorem allPlaced_snoc : AllPlaced P (ts ++ [t]) ↔ AllPlaced P ts ∧ P ts t := by
  constructor
  · intro h
    refine ⟨fun front u rest hts => h front u (rest ++ [t]) (by simp [hts]), h ts t [] rfl⟩
  · rintro ⟨hts, ht⟩ front u rest heq
    rcases List.eq_nil_or_concat rest with rfl | ⟨rest, last, rfl⟩
    · obtain ⟨rfl, htu⟩ := List.append_inj' heq rfl
      exact List.head_eq_of_cons_eq htu ▸ ht
    · rw [List.concat_eq_append, ← List.cons_append, ← List.append_assoc] at heq
      exact hts front u rest (List.append_inj' heq rfl).1

theorem AllPlaced.imp {Q : List Token → Token → Prop} (h : AllPlaced P ts)
    (himp : ∀ front t, P front t → Q front t) : AllPlaced Q ts :=
  fun front t rest hts => himp front t (h front t rest hts)

@[simp] theorem occurrences_snoc :
    occurrences k (ts ++ [t]) = occurrences k ts + if t.kind = k then 1 else 0 := by
  simp [occurrences, List.countP_append, List.countP_cons]

theorem mem_openers_iff : k ∈ openers ↔ k.opens = true := by
  simp only [openers, List.mem_cons, List.not_mem_nil, or_false]
  unfold Token.Kind.opens
  split <;> simp_all

theorem mem_closers_iff : k ∈ closers ↔ k.closes = true := by
  simp only [closers, List.mem_cons, List.not_mem_nil, or_false]
  unfold Token.Kind.closes
  split <;> simp_all

/-- A reader counts its brackets as they are counted here. -/
@[simp] theorem bracketDepth_snoc :
    bracketDepth (ts ++ [t]) = Layout.nest (bracketDepth ts) t.kind := by
  simp only [bracketDepth, List.foldl_concat, mem_openers_iff, mem_closers_iff, Layout.nest]

theorem endsSolid_snoc (ht : t.kind.isLayout = false) : EndsSolid (ts ++ [t]) :=
  ⟨t, by simp, ht⟩

theorem endsLine_nil : EndsLine [] := by simp [EndsLine]

theorem endsLine_snoc (ht : t.kind = .newline ∨ t.kind = .indent ∨ t.kind = .dedent) :
    EndsLine (ts ++ [t]) := by
  simpa [EndsLine] using ht

theorem Layout.nest_of_isLayout {depth : Nat} (hk : k.isLayout = true) :
    Layout.nest depth k = depth := by
  cases k <;> first | rfl | cases hk

end Counting

structure Placed (mode : Mode) (front : List Token) (t : Token) : Prop where
  newline : t.kind = .newline → EndsSolid front
  indentation : t.kind = .indent ∨ t.kind = .dedent → EndsLine front
  balance : mode = .strict → t.kind = .dedent →
    occurrences .dedent front < occurrences .indent front

/-- The tokens so far, which are those of a reader with so many indentations, on a line that is open
or not. -/
structure Tracks (mode : Mode) (level : Nat) (lineOpen : Bool) (out : List Token) : Prop where
  placed : AllPlaced (Placed mode) out
  notEnd : ∀ t ∈ out, t.kind ≠ .endMarker
  openLine : lineOpen = true → EndsSolid out
  closedLine : lineOpen = false → EndsLine out
  strict : mode = .strict → occurrences .dedent out + level = occurrences .indent out
  lenient : mode = .lenient → occurrences .indent out ≤ occurrences .dedent out + level

namespace Tracks

variable {mode : Mode} {level : Nat} {lineOpen : Bool} {out : List Token}

theorem start : Tracks mode 0 false [] where
  placed := allPlaced_nil
  notEnd := by simp
  openLine := by simp
  closedLine _ := endsLine_nil
  strict _ := rfl
  lenient _ := Nat.le_refl _

theorem notEnd_snoc {t : Token} (h : Tracks mode level lineOpen out) (ht : t.kind ≠ .endMarker) :
    ∀ u ∈ out ++ [t], u.kind ≠ .endMarker := by
  simpa [or_imp, forall_and, ht] using h.notEnd

theorem token {k : Token.Kind} (h : Tracks mode level lineOpen out) (hk : k.isLayout = false)
    (text? : Option String) (p : Position) :
    Tracks mode level true (out ++ [⟨k, text?, p⟩]) := by
  have hkinds : k ≠ .newline ∧ k ≠ .indent ∧ k ≠ .dedent ∧ k ≠ .endMarker := by
    cases k <;> simp_all [Token.Kind.isLayout]
  obtain ⟨hn, hi, hd, he⟩ := hkinds
  exact
    { placed := allPlaced_snoc.mpr ⟨h.placed, by simp [hn], by simp [hi, hd], by simp [hd]⟩
      notEnd := h.notEnd_snoc he
      openLine := fun _ => endsSolid_snoc hk
      closedLine := by simp
      strict := fun hm => by simpa [hi, hd] using h.strict hm
      lenient := fun hm => by simpa [hi, hd] using h.lenient hm }

theorem newline (h : Tracks mode level true out) (p : Position) :
    Tracks mode level false (out ++ [⟨.newline, none, p⟩]) where
  placed := allPlaced_snoc.mpr ⟨h.placed, fun _ => h.openLine rfl, by simp, by simp⟩
  notEnd := h.notEnd_snoc (by simp)
  openLine := by simp
  closedLine _ := endsLine_snoc (by simp)
  strict hm := by simpa using h.strict hm
  lenient hm := by simpa using h.lenient hm

theorem indent (h : Tracks mode level false out) (p : Position) :
    Tracks mode (level + 1) false (out ++ [⟨.indent, none, p⟩]) where
  placed := allPlaced_snoc.mpr ⟨h.placed, by simp, fun _ => h.closedLine rfl, by simp⟩
  notEnd := h.notEnd_snoc (by simp)
  openLine := by simp
  closedLine _ := endsLine_snoc (by simp)
  strict hm := by
    have hbalance := h.strict hm
    simp only [occurrences_snoc, reduceCtorEq, if_false, if_true]
    omega
  lenient hm := by
    have hbalance := h.lenient hm
    simp only [occurrences_snoc, reduceCtorEq, if_false, if_true]
    omega

theorem dedent (h : Tracks mode (level + 1) false out) (p : Position) :
    Tracks mode level false (out ++ [⟨.dedent, none, p⟩]) where
  placed := allPlaced_snoc.mpr ⟨h.placed, by simp, fun _ => h.closedLine rfl, fun hm _ => by
    have hbalance := h.strict hm
    omega⟩
  notEnd := h.notEnd_snoc (by simp)
  openLine := by simp
  closedLine _ := endsLine_snoc (by simp)
  strict hm := by
    have hbalance := h.strict hm
    simp only [occurrences_snoc, reduceCtorEq, if_false, if_true]
    omega
  lenient hm := by
    have hbalance := h.lenient hm
    simp only [occurrences_snoc, reduceCtorEq, if_false, if_true]
    omega

/-- A width that is adopted gets no token, and a dedent all the same. -/
theorem adopt (h : Tracks .lenient level lineOpen out) :
    Tracks .lenient (level + 1) lineOpen out :=
  { h with
    strict := by simp
    lenient := fun hm => by
      have hbalance := h.lenient hm
      omega }

theorem close (h : Tracks mode level lineOpen out) (p : Position) :
    Tracks mode level false (out ++ if lineOpen then [⟨.newline, none, p⟩] else []) := by
  cases lineOpen with
  | true => exact h.newline p
  | false => simpa using h

theorem dedents {ws : List Nat} (h : Tracks mode ws.length false out) (p : Position) :
    Tracks mode 0 false (out ++ ws.map fun _ => ⟨.dedent, none, p⟩) := by
  induction ws generalizing out with
  | nil => simpa using h
  | cons w ws ih => simpa using ih (h.dedent p)

/-- At no point there are more dedents than indents, since none comes without an indentation to
close. -/
theorem occurrences_dedent_le (h : Tracks .strict level lineOpen out) {front : List Token}
    (hfront : front <+: out) : occurrences .dedent front ≤ occurrences .indent front := by
  induction front using List.reverseRecOn with
  | nil => exact Nat.le_refl _
  | append_singleton front t ih =>
    obtain ⟨rest, hrest⟩ := hfront
    rw [List.append_assoc, List.singleton_append] at hrest
    have hbefore := ih ⟨_, hrest⟩
    have hplaced := h.placed front t rest hrest.symm
    rw [occurrences_snoc, occurrences_snoc]
    by_cases ht : t.kind = .dedent
    · have hlt := hplaced.balance rfl ht
      simp only [ht, reduceCtorEq, if_true, if_false]
      omega
    · rw [if_neg ht]
      omega

theorem occurrences_endMarker (h : Tracks mode 0 false out) (p : Position) :
    (mode = .strict →
      (∀ front, front <+: out ++ [⟨.endMarker, none, p⟩] →
        occurrences .dedent front ≤ occurrences .indent front) ∧
      occurrences .dedent (out ++ [⟨.endMarker, none, p⟩]) =
        occurrences .indent (out ++ [⟨.endMarker, none, p⟩])) ∧
    (mode = .lenient →
      occurrences .indent (out ++ [⟨.endMarker, none, p⟩]) ≤
        occurrences .dedent (out ++ [⟨.endMarker, none, p⟩])) := by
  constructor
  · rintro rfl
    have htotal : occurrences .dedent (out ++ [⟨.endMarker, none, p⟩]) =
        occurrences .indent (out ++ [⟨.endMarker, none, p⟩]) := by simpa using h.strict rfl
    refine ⟨fun front hfront => ?_, htotal⟩
    rcases List.prefix_concat_iff.mp hfront with rfl | hfront
    · exact Nat.le_of_eq htotal
    · exact h.occurrences_dedent_le hfront
  · intro hm
    simpa using h.lenient hm

end Tracks

/-- No layout among the tokens so far stands within brackets, and a reader at the start of a line is
outside of them. -/
structure Outside (s : Layout) (out : List Token) : Prop where
  depth : bracketDepth out = s.depth
  brackets : AllPlaced (fun front t => t.kind.isLayout = true → bracketDepth front = 0) out
  margin : s.margin? ≠ none → s.lineOpen = false ∧ s.depth = 0

namespace Outside

variable {s : Layout} {out : List Token}

theorem layout {k : Token.Kind} (h : Outside s out) (hd : s.depth = 0) (hk : k.isLayout = true)
    (p : Position) :
    bracketDepth (out ++ [⟨k, none, p⟩]) = s.depth ∧
      AllPlaced (fun front t => t.kind.isLayout = true → bracketDepth front = 0)
        (out ++ [⟨k, none, p⟩]) := by
  refine ⟨?_, allPlaced_snoc.mpr ⟨h.brackets, fun _ => h.depth.trans hd⟩⟩
  rw [bracketDepth_snoc, Layout.nest_of_isLayout hk, h.depth]

/-- What comes behind the tokens so far may stand within brackets, where it only closes. -/
theorem bracketDepth_eq_zero {tail front rest : List Token} {t u : Token} (h : Outside s out)
    (htail : ∀ v ∈ tail, v.kind ∈ [.newline, .dedent, .endMarker])
    (heq : out ++ tail = front ++ t :: rest) (ht : t.kind.isLayout = true)
    (hu : u ∈ t :: rest) (hkind : u.kind ∉ [.newline, .dedent, .endMarker]) :
    bracketDepth front = 0 := by
  obtain ⟨passed, -, hpassed⟩ | ⟨more, hout, hmore⟩ := List.append_eq_append_iff.mp heq
  · exact absurd (htail u (hpassed ▸ List.mem_append_right passed hu)) hkind
  · cases more with
    | nil =>
      rw [hmore] at hu
      exact absurd (htail u hu) hkind
    | cons v more =>
      obtain rfl := List.head_eq_of_cons_eq hmore
      exact h.brackets front t more hout ht

end Outside

theorem Lexeme.Stands.isLayout_eq_false {l : Lexeme} {rest : List Char} {k : Token.Kind}
    {text? : Option String} (h : l.Stands rest) (hl : l.form = .token k text?) :
    k.isLayout = false := by
  cases h with
  | token hspelled =>
    obtain ⟨rfl, rfl⟩ := Lexeme.Form.token.inj hl
    exact (hspelled .start).isLayout_eq_false
  | skipped hform => exact absurd hl (hform k text?)
  | fault => cases hl

namespace Layout

variable {mode : Mode} {text : List Char} {s s' : Layout} {p : Position} {l : Lexeme}
  {ls : List Lexeme} {out now : List Token}

/-- What a reader keeps in mind goes with the tokens it has. -/
structure InStep (mode : Mode) (s : Layout) (out : List Token) : Prop where
  tracks : Tracks mode s.indents.length s.lineOpen out
  outside : Outside s out

theorem InStep.act (h : InStep mode s out) (ha : Act mode p s now s') :
    InStep mode s' (out ++ now) := by
  obtain ⟨htracks, houtside⟩ := h
  cases ha with
  | margin w' hm =>
    have hmargin := houtside.margin (by simp [hm])
    rw [List.append_nil]
    exact ⟨htracks, houtside.depth, houtside.brackets, fun _ => hmargin⟩
  | indent hm hw =>
    obtain ⟨hclosed, hdepth⟩ := houtside.margin (by simp [hm])
    obtain ⟨hbrackets, hall⟩ := houtside.layout hdepth (k := .indent) rfl p
    rw [hclosed] at htracks
    refine ⟨?_, hbrackets, hall, fun _ => ⟨hclosed, hdepth⟩⟩
    simpa [hclosed] using htracks.indent p
  | dedent hm hs =>
    obtain ⟨hclosed, hdepth⟩ := houtside.margin (by simp [hm])
    obtain ⟨hbrackets, hall⟩ := houtside.layout hdepth (k := .dedent) rfl p
    rw [hclosed, hs] at htracks
    refine ⟨?_, hbrackets, hall, fun _ => ⟨hclosed, hdepth⟩⟩
    simpa [hclosed] using htracks.dedent p
  | adopt hm hw hmode =>
    subst hmode
    have hmargin := houtside.margin (by simp [hm])
    rw [List.append_nil]
    exact ⟨htracks.adopt, houtside.depth, houtside.brackets, fun _ => hmargin⟩
  | settle =>
    rw [List.append_nil]
    exact ⟨htracks, houtside.depth, houtside.brackets, by simp⟩
  | newline hopen hdepth =>
    obtain ⟨hbrackets, hall⟩ := houtside.layout hdepth (k := .newline) rfl p
    rw [hopen] at htracks
    exact ⟨htracks.newline p, hbrackets, hall, fun _ => ⟨rfl, hdepth⟩⟩
  | emptyLine hclosed hdepth =>
    rw [hclosed] at htracks
    rw [List.append_nil]
    exact ⟨htracks, houtside.depth, houtside.brackets, fun _ => ⟨rfl, hdepth⟩⟩
  | token text? hm hk =>
    refine ⟨htracks.token hk text? p, ?_, ?_, by simp [hm]⟩
    · rw [bracketDepth_snoc, houtside.depth]
    · exact allPlaced_snoc.mpr ⟨houtside.brackets, by simp [hk]⟩

theorem InStep.acts (h : InStep mode s out) (ha : Acts mode p s now s') :
    InStep mode s' (out ++ now) := by
  induction ha with
  | nil => simpa using h
  | snoc _ ha ih => simpa using ih.act ha

theorem pairwise_indents_cons {indents : List Nat} {w : Nat}
    (h : (indents ++ [0]).Pairwise (· > ·)) (hw : indents.headD 0 < w) :
    (w :: indents ++ [0]).Pairwise (· > ·) := by
  refine List.pairwise_cons.mpr ⟨fun v hv => ?_, h⟩
  cases indents with
  | nil =>
    obtain rfl := List.mem_singleton.mp hv
    exact hw
  | cons u us =>
    rcases List.mem_cons.mp hv with rfl | hv
    · exact hw
    · exact Nat.lt_trans (List.rel_of_pairwise_cons h hv) hw

theorem Act.pairwise_indents (ha : Act mode p s now s')
    (h : (s.indents ++ [0]).Pairwise (· > ·)) : (s'.indents ++ [0]).Pairwise (· > ·) := by
  cases ha with
  | indent _ hw => exact pairwise_indents_cons h hw
  | dedent _ hs =>
    rw [hs] at h
    exact h.of_cons
  | adopt _ hw _ => exact pairwise_indents_cons h hw
  | _ => exact h

theorem Acts.pairwise_indents (ha : Acts mode p s now s')
    (h : (s.indents ++ [0]).Pairwise (· > ·)) : (s'.indents ++ [0]).Pairwise (· > ·) := by
  induction ha with
  | nil => exact h
  | snoc _ ha ih => exact ha.pairwise_indents ih

namespace Reaches

theorem exists_rest (h : Reaches mode text s p ls out) : ∃ rest, ls = lexemes rest := by
  induction h with
  | start => exact ⟨text, rfl⟩
  | step _ _ ih =>
    obtain ⟨rest, hrest⟩ := ih
    obtain ⟨rest, -, -, hls⟩ := lexemes_eq_cons hrest.symm
    exact ⟨rest, hls⟩

theorem acts (h : Reaches mode text s p (l :: ls) out) (hnow : s.Advances mode p l now s') :
    Acts mode p s now s' := by
  obtain ⟨rest, hrest⟩ := h.exists_rest
  obtain ⟨rest, -, hstands, -⟩ := lexemes_eq_cons hrest.symm
  exact hnow.acts fun k text? hform => hstands.isLayout_eq_false hform

theorem inStep (h : Reaches mode text s p ls out) : InStep mode s out := by
  induction h with
  | start => exact ⟨.start, rfl, allPlaced_nil, fun _ => ⟨rfl, rfl⟩⟩
  | step h hnow ih => exact ih.acts (h.acts hnow)

theorem pairwise_stack (h : Reaches mode text s p ls out) : s.stack.Pairwise (· < ·) := by
  have hindents : (s.indents ++ [0]).Pairwise (· > ·) := by
    induction h with
    | start => exact List.pairwise_singleton _ _
    | step h hnow ih => exact (h.acts hnow).pairwise_indents ih
  simpa [stack] using List.pairwise_reverse.mpr hindents

end Reaches

theorem Reads.exists_reaches {ts : List Token} (h : Reads mode s p ls ts)
    (hr : Reaches mode text s p ls out) :
    ∃ s' p' front last, Reaches mode text s' p' [] front ∧
      mode.collect (s'.close p') = .ok last ∧ out ++ ts = front ++ last := by
  induction h generalizing out with
  | close h => exact ⟨_, _, _, _, hr, h, rfl⟩
  | step hnow _ ih => simpa using ih (hr.step hnow)

theorem collect_close {last : List Token} (h : mode.collect (s.close p) = .ok last) :
    last = (if s.lineOpen then [⟨.newline, none, p⟩] else []) ++
      (s.indents.map fun _ => ⟨.dedent, none, p⟩) ++ [⟨.endMarker, none, p⟩] := by
  rw [close, List.append_assoc, Mode.collect_append_eq_ok_iff] at h
  obtain ⟨line, later, hline, hlater, rfl⟩ := h
  obtain ⟨later, hmarker, rfl⟩ := collect_dedents.mp hlater
  have hline : line = if s.lineOpen then [⟨.newline, none, p⟩] else [] := by
    unfold Layout.newline at hline
    split <;> simp_all [Mode.collect, Except.map]
  cases hmarker
  rw [hline, List.append_assoc]

theorem InStep.laidOut {last : List Token} (h : InStep mode s out)
    (hlast : mode.collect (s.close p) = .ok last) : LaidOut mode (out ++ last) := by
  rw [collect_close hlast]
  have hends : Tracks mode 0 false (out ++ (if s.lineOpen then [⟨.newline, none, p⟩] else []) ++
      s.indents.map fun _ => ⟨.dedent, none, p⟩) := (h.tracks.close p).dedents p
  have hbalance := hends.occurrences_endMarker p
  have hplaced := hends.placed
  simp only [← List.append_assoc]
  exact
    { endMarker := ⟨_, _, rfl, rfl, hends.notEnd⟩
      newline := allPlaced_snoc.mpr ⟨hplaced.imp fun _ _ ht => ht.newline, by simp⟩
      indentation := allPlaced_snoc.mpr ⟨hplaced.imp fun _ _ ht => ht.indentation, by simp⟩
      brackets := by
        rintro front t rest heq ht ⟨u, hu, hkind⟩
        have hlayout : t.kind.isLayout = true := by
          rcases ht with ht | ht | ht <;> rw [ht] <;> rfl
        simp only [List.append_assoc] at heq
        exact h.outside.bracketDepth_eq_zero (by simp [or_imp, forall_and]) heq hlayout hu hkind
      strict := hbalance.1
      lenient := hbalance.2 }

end Layout

/-- The layout among the tokens of a text is in order. While it is read, the widths of the
indentations go up from zero. -/
theorem laidOut_of_tokens (mode : Mode) (text : String) :
    (∀ ts, tokens mode text = .ok ts → LaidOut mode ts) ∧
      ∀ s p ls out, Layout.Reaches mode text.toList s p ls out →
        s.stack.head? = some 0 ∧ s.stack.Pairwise (· < ·) := by
  refine ⟨fun ts h => ?_, fun s p ls out h => ⟨rfl, h.pairwise_stack⟩⟩
  obtain ⟨s, p, front, last, hfront, hlast, hts⟩ := (tokens_eq_ok_iff.mp h).exists_reaches .start
  rw [← List.nil_append ts, hts]
  exact hfront.inStep.laidOut hlast

/-- An indented line that goes on within brackets of all three sorts. -/
def bracketed : String := "a:\n  (b\n [c \x7b\n d\x7d])\n"

def bracketedTokens : List Token :=
  [⟨.name, some "a", ⟨1, 1⟩⟩, ⟨.op .colon, none, ⟨1, 2⟩⟩, ⟨.newline, none, ⟨1, 3⟩⟩,
    ⟨.indent, none, ⟨2, 3⟩⟩, ⟨.op .lPar, none, ⟨2, 3⟩⟩, ⟨.name, some "b", ⟨2, 4⟩⟩,
    ⟨.op .lSqr, none, ⟨3, 2⟩⟩, ⟨.name, some "c", ⟨3, 3⟩⟩, ⟨.op .lBrc, none, ⟨3, 5⟩⟩,
    ⟨.name, some "d", ⟨4, 2⟩⟩, ⟨.op .rBrc, none, ⟨4, 3⟩⟩, ⟨.op .rSqr, none, ⟨4, 4⟩⟩,
    ⟨.op .rPar, none, ⟨4, 5⟩⟩, ⟨.newline, none, ⟨4, 6⟩⟩, ⟨.dedent, none, ⟨5, 1⟩⟩,
    ⟨.endMarker, none, ⟨5, 1⟩⟩]

/-- The lenient reader closes a width that it adopted without an indent. -/
def unevenTokens : List Token :=
  [⟨.indent, none, ⟨1, 3⟩⟩, ⟨.name, some "a", ⟨1, 3⟩⟩, ⟨.newline, none, ⟨1, 4⟩⟩,
    ⟨.dedent, none, ⟨2, 2⟩⟩, ⟨.name, some "b", ⟨2, 2⟩⟩, ⟨.newline, none, ⟨2, 3⟩⟩,
    ⟨.dedent, none, ⟨2, 3⟩⟩, ⟨.endMarker, none, ⟨2, 3⟩⟩]

theorem laidOut_of_tokens_bracketed :
    tokens .strict bracketed = .ok bracketedTokens ∧ LaidOut .strict bracketedTokens ∧
      tokens .lenient "  a\n b" = .ok unevenTokens ∧ LaidOut .lenient unevenTokens ∧
      ∃ s p ls out, Layout.Reaches .strict "  a".toList s p ls out ∧ s.stack = [0, 2] ∧
        s.stack.head? = some 0 ∧ s.stack.Pairwise (· < ·) := by
  have hstrict : tokens .strict bracketed = .ok bracketedTokens := by decide +kernel
  have hlenient : tokens .lenient "  a\n b" = .ok unevenTokens := by decide +kernel
  have hlexemes : lexemes "  a".toList =
      [⟨.blank, [' ', ' ']⟩, ⟨.token .name (some "a"), ['a']⟩] := by decide +kernel
  have hstart : Layout.Reaches .strict "  a".toList .start .start
      [⟨.blank, [' ', ' ']⟩, ⟨.token .name (some "a"), ['a']⟩] [] := hlexemes ▸ .start
  have hreaches : Layout.Reaches .strict "  a".toList ⟨[2], 0, true, none⟩ ⟨1, 4⟩ []
      [⟨.indent, none, ⟨1, 3⟩⟩, ⟨.name, some "a", ⟨1, 3⟩⟩] :=
    (hstart.step ⟨rfl, rfl⟩).step ⟨rfl, rfl⟩
  exact ⟨hstrict, (laidOut_of_tokens .strict bracketed).1 _ hstrict, hlenient,
    (laidOut_of_tokens .lenient _).1 _ hlenient, _, _, _, _, hreaches, rfl,
    (laidOut_of_tokens .strict "  a").2 _ _ _ _ hreaches⟩

end GrammarForge
