import GrammarForge.Proofs.FlatRules
import GrammarForge.Proofs.PrintedRules

/-!
What can be relied on in rules that were read from a text. Their names and symbols are those of the
tokens, every name among the tokens is a word, and no body and no group is without alternatives.
-/

namespace GrammarForge

section Names

variable {s : Layout} {p : Position} {l : Lexeme} {ls : List Lexeme} {t : Token}

theorem Lexeme.exists_eq_first_of_mem {n : Nat} {text : List Char} (h : l ∈ lexemesBehind n text) :
    ∃ c cs, l = first c cs := by
  induction text generalizing n with
  | nil => cases h
  | cons c cs ih =>
    cases n with
    | zero =>
      rcases List.mem_cons.mp h with rfl | h
      · exact ⟨c, cs, rfl⟩
      · exact ih h
    | succ n => exact ih h

theorem Lexeme.isName_of_first {c : Char} {cs : List Char} {text? : Option String}
    (h : (first c cs).form = .token .name text?) : isName (text?.getD "") = true := by
  -- Of the forms that a lexeme can have only that of a word is a name.
  have hword : ∀ w, isWord w = true → wordForm w = .token .name text? →
      isName (text?.getD "") = true := by
    intro w hw hform
    cases hk : Token.Keyword.ofSpelling? (String.ofList w) with
    | some k => simp [wordForm, hk] at hform
    | none =>
      obtain rfl : some (String.ofList w) = text? := by simpa [wordForm, hk] using hform
      simp [isName, hw, hk]
  have hsolid : (solid c cs).form = .token .name text? → isName (text?.getD "") = true := by
    intro hform
    unfold solid at hform
    split at hform
    · cases hform
    · cases hform
    · split at hform
      · cases hform
      · split at hform
        · rename_i hstart
          exact hword _ (by simp [isWord, hstart]) hform
        · split at hform <;> cases hform
  unfold first at h
  split at h
  · cases h
  · split at h
    · cases h
    · split at h
      · cases h
      · split at h
        · cases h
        · exact hsolid h

namespace Layout

theorem isLayout_of_mem_newline (h : .token t ∈ s.newline p) : t.kind.isLayout = true := by
  unfold newline at h
  split at h
  · obtain rfl : t = _ := by simpa using h
    rfl
  · cases h

theorem isLayout_of_mem_settle {w : Nat} (h : .token t ∈ (s.settle w p).2) :
    t.kind.isLayout = true := by
  unfold settle at h
  split at h
  · obtain rfl : t = _ := by simpa using h
    rfl
  · dsimp only at h
    split at h
    · obtain ⟨-, -, ht⟩ := List.mem_map.mp h
      cases ht
      rfl
    · rcases List.mem_append.mp h with h | h
      · obtain ⟨-, -, ht⟩ := List.mem_map.mp h
        cases ht
        rfl
      · simp at h

theorem form_of_mem_inLine {form : Lexeme.Form} (h : .token t ∈ (s.inLine p form).2) :
    t.kind.isLayout = true ∨ form = .token t.kind t.text? ∧ t.position = p := by
  cases form with
  | lineEnd =>
    simp only [inLine] at h
    split at h
    · exact .inl (isLayout_of_mem_newline h)
    · cases h
  | token k text? =>
    obtain rfl : t = ⟨k, text?, p⟩ := by simpa [inLine] using h
    exact .inr ⟨rfl, rfl⟩
  | _ => simp [inLine] at h

theorem form_of_mem_step (h : .token t ∈ (s.step p l).2) :
    t.kind.isLayout = true ∨ l.form = .token t.kind t.text? ∧ t.position = p := by
  unfold step at h
  split at h
  · exact form_of_mem_inLine h
  · split at h
    · cases h
    · cases h
    · cases h
    · rcases List.mem_append.mp h with h | h
      · exact .inl (isLayout_of_mem_settle h)
      · exact form_of_mem_inLine h

/-- Every token of a text is layout, or a lexeme in its place. -/
theorem form_of_mem_events (h : .token t ∈ s.events p ls) :
    t.kind.isLayout = true ∨ ∃ front l back, ls = front ++ l :: back ∧
      l.form = .token t.kind t.text? ∧ t.position = p.behind (front.flatMap Lexeme.source) := by
  induction ls generalizing s p with
  | nil =>
    left
    simp only [events, close, List.mem_append, List.mem_map, List.mem_singleton] at h
    rcases h with (h | ⟨-, -, ht⟩) | ht
    · exact isLayout_of_mem_newline h
    · cases ht
      rfl
    · cases ht
      rfl
  | cons l ls ih =>
    rcases List.mem_append.mp h with h | h
    · exact (form_of_mem_step h).imp_right fun hl => ⟨[], l, ls, rfl, hl⟩
    · rcases ih h with hlayout | ⟨front, l', back, rfl, hform, hposition⟩
      · exact .inl hlayout
      · refine .inr ⟨l :: front, l', back, rfl, hform, ?_⟩
        rw [hposition, List.flatMap_cons, Position.behind_append]

end Layout

theorem Mode.mem_events_of_collect {mode : Mode} {es : List Event} {ts : List Token}
    (h : mode.collect es = .ok ts) (ht : t ∈ ts) : .token t ∈ es := by
  induction es generalizing ts with
  | nil =>
    cases h
    cases ht
  | cons e es ih =>
    cases e with
    | token u =>
      rw [collect] at h
      cases hrest : mode.collect es with
      | error e => simp [hrest, Except.map] at h
      | ok us =>
        obtain rfl : u :: us = ts := by simpa [hrest, Except.map] using h
        rcases List.mem_cons.mp ht with rfl | ht
        · exact List.mem_cons_self
        · exact List.mem_cons_of_mem _ (ih hrest ht)
    | fault q f =>
      cases mode with
      | strict => cases h
      | lenient => exact List.mem_cons_of_mem _ (ih h ht)

/-- A name among the tokens of a text is a word, and no keyword. -/
theorem isName_of_mem_tokens {mode : Mode} {text : String} {ts : List Token}
    (h : tokens mode text = .ok ts) (ht : t ∈ ts) (hk : t.kind = .name) :
    isName t.text = true := by
  rcases Layout.form_of_mem_events (Mode.mem_events_of_collect h ht) with
    hl | ⟨front, l, back, hls, hform, -⟩
  · simp [hk, Token.Kind.isLayout] at hl
  · have hl : l ∈ lexemes text.toList := by simp [hls]
    obtain ⟨c, cs, rfl⟩ := Lexeme.exists_eq_first_of_mem hl
    rw [hk] at hform
    exact Lexeme.isName_of_first hform

end Names

def BodyPart.symbols : BodyPart → List Symbol
  | .alternatives ps => Production.symbolsList ps
  | .sequence p => Production.symbols p
  | .component c => c.symbol.withInner
  | .symbol s => s.withInner

/-- The symbol is one of the tokens, or a group in brackets that has alternatives. -/
inductive Symbol.ReadFrom (ts : List Token) : Symbol → Prop where
  | atom {t : Token} {s : Symbol} : t ∈ ts → IsAtom t s → ReadFrom ts s
  | group {optional : Bool} {ps : List Production} :
      ps ≠ [] → ReadFrom ts (.group ⟨optional, false, ps⟩)

/-- The name and the symbols of the rule are those of the tokens, and its body has alternatives. -/
structure Rule.ReadFrom (ts : List Token) (r : Rule) : Prop where
  name : ∃ t ∈ ts, t.kind = .name ∧ t.text = r.name
  body : ∃ ps, r.groups = [Group.body ps] ∧ ps ≠ []
  symbols : ∀ s ∈ r.symbols, s.ReadFrom ts

section Bodies

variable {ts us : List Token} {s : Symbol} {r : Rule} {x : BodyPart}

theorem IsAtom.isGroup_eq_false {t : Token} (h : IsAtom t s) : s.isGroup = false := by
  rcases h with ⟨-, hs⟩ | ⟨-, rfl⟩
  · cases hs with
    | terminal => rfl
    | reference => rfl
  · rfl

theorem Symbol.ReadFrom.mono (h : s.ReadFrom ts) (hts : ts ⊆ us) : s.ReadFrom us := by
  cases h with
  | atom ht ha => exact .atom (hts ht) ha
  | group hps => exact .group hps

theorem Symbol.ReadFrom.hasAlternatives (h : s.ReadFrom ts) : s.hasAlternatives = true := by
  cases h with
  | atom _ ha =>
    have hs := ha.isGroup_eq_false
    cases s with
    | group g => cases hs
    | _ => rfl
  | group hps => simpa [Symbol.hasAlternatives] using hps

theorem Symbol.ReadFrom.terminal {v : String} (h : (Symbol.terminal v).ReadFrom ts) :
    ∃ t ∈ ts, t.kind = .name ∧ t.text = v ∧ Text.isUpperWord v = true := by
  cases h with
  | @atom t _ ht ha =>
    rcases ha with ⟨hk, hs⟩ | ⟨-, hs⟩
    · cases hs with
      | terminal hupper => exact ⟨t, ht, hk, rfl, hupper⟩
    · cases hs

theorem Symbol.ReadFrom.isLowerWord {n : String} (h : (Symbol.nonTerminal n).ReadFrom ts) :
    Text.isLowerWord n = true := by
  cases h with
  | @atom t _ ht ha =>
    rcases ha with ⟨-, hs⟩ | ⟨-, hs⟩
    · cases hs with
      | reference _ hlower => exact hlower
    · cases hs

theorem IsAtom.readFrom {t : Token} (h : IsAtom t s) : ∀ y ∈ s.withInner, y.ReadFrom [t] := by
  rw [Symbol.withInner_of_isGroup h.isGroup_eq_false]
  simpa using Symbol.ReadFrom.atom (List.mem_singleton_self t) h

theorem Symbol.readFrom_group {first last : Token} {optional : Bool} {ps : List Production}
    (hps : ps ≠ []) (h : ∀ y ∈ Production.symbolsList ps, y.ReadFrom ts) :
    ∀ y ∈ (Symbol.group ⟨optional, false, ps⟩).withInner,
      y.ReadFrom (first :: ts ++ [last]) := by
  have hsub : ts ⊆ first :: ts ++ [last] := fun t ht => by simp [ht]
  rw [Symbol.withInner, List.forall_mem_cons]
  exact ⟨.group hps, fun y hy => (h y hy).mono hsub⟩

theorem Spells.readFrom (h : Spells ts x) : ∀ y ∈ x.symbols, y.ReadFrom ts := by
  induction h with
  | single _ ih => simpa [BodyPart.symbols, Production.symbolsList] using ih
  | @choice ts us bar p ps _ _ _ ih ih' =>
    simp only [BodyPart.symbols, Production.symbolsList, List.forall_mem_append]
    exact ⟨fun y hy => (ih y hy).mono (by simp),
      fun y hy => (ih' y hy).mono fun t ht => by simp [ht]⟩
  | nil => simp [BodyPart.symbols, Production.symbols]
  | cons _ _ ih ih' =>
    simp only [BodyPart.symbols, Production.symbols_cons, List.forall_mem_append]
    exact ⟨fun y hy => (ih y hy).mono (by simp), fun y hy => (ih' y hy).mono (by simp)⟩
  | once _ ih => exact ih
  | star _ _ ih => exact fun y hy => (ih y hy).mono (by simp)
  | plus _ _ ih => exact fun y hy => (ih y hy).mono (by simp)
  | word hk hs => exact IsAtom.readFrom (.inl ⟨hk, hs⟩)
  | literal hk => exact IsAtom.readFrom (.inr ⟨hk, rfl⟩)
  | group _ hps _ ih => exact Symbol.readFrom_group hps.alternatives_ne_nil ih
  | optional _ hps _ ih => exact Symbol.readFrom_group hps.alternatives_ne_nil ih

theorem Lifts.readFrom {ps qs : List Production} (h : Lifts ps qs) (hps : ps ≠ [])
    (hs : ∀ y ∈ Production.symbolsList ps, y.ReadFrom ts) :
    qs ≠ [] ∧ ∀ y ∈ Production.symbolsList qs, y.ReadFrom ts := by
  cases h with
  | inner =>
    simp only [Production.symbolsList, Production.symbols_cons, Production.symbols,
      Component.symbol_once, Symbol.withInner, List.append_nil, List.forall_mem_cons] at hs
    obtain ⟨hgroup, hinner⟩ := hs
    exact ⟨by simpa [Symbol.hasAlternatives] using hgroup.hasAlternatives, hinner⟩
  | whole => exact ⟨hps, hs⟩

theorem SpellsRule.readFrom (h : SpellsRule ts r) : r.ReadFrom ts := by
  cases h with
  | @intro name colon body ps qs hn hc _ hs hl =>
    obtain ⟨hqs, hsyms⟩ := hl.readFrom hs.alternatives_ne_nil hs.readFrom
    have hsub : body.filter (! ·.kind.isLayout) ⊆ name :: colon :: body := by
      intro t ht
      simp [(List.mem_filter.mp ht).1]
    refine ⟨⟨name, List.mem_cons_self, hn, rfl⟩, ⟨qs, rfl, hqs⟩, fun y hy => ?_⟩
    have hy : y ∈ Production.symbolsList qs := by simpa [Rule.symbols, Rule.ofBody, Group.body] using hy
    exact (hsyms y hy).mono hsub

namespace Rule.ReadFrom

theorem mono (h : r.ReadFrom ts) (hts : ts ⊆ us) : r.ReadFrom us := by
  obtain ⟨t, ht, hname⟩ := h.name
  exact ⟨⟨t, hts ht, hname⟩, h.body, fun s hs => (h.symbols s hs).mono hts⟩

theorem wellFormed (h : r.ReadFrom ts) : r.WellFormed :=
  ⟨h.body, fun s hs => (h.symbols s hs).hasAlternatives⟩

end Rule.ReadFrom

end Bodies

namespace Dictionary

variable {d : Dictionary} {ts : List Token} {text : String}

/-- Rules that were read stand under their own names and are made of the tokens. -/
theorem readFrom_of_ofTokens (h : Dictionary.ofTokens ts = .ok d) :
    d.Named ∧ ∀ r ∈ d.rules, r.ReadFrom ts := by
  obtain ⟨-, -, hread⟩ := ofTokens_eq_ok_iff_segments.mp h
  obtain ⟨rs, hrs, hdeclare⟩ := readRules_eq_ok_iff.mp hread
  obtain ⟨-, hentries⟩ := declareAll_eq_ok_iff.mp hdeclare
  have hd : d.entries = rs.map fun r => (r.name, r) := by simpa [empty] using hentries
  refine ⟨named_of_entries hd, fun r hr => ?_⟩
  rw [rules_of_entries hd] at hr
  obtain ⟨seg, hseg, hok⟩ := exists_of_forall₂_mem hrs hr
  obtain ⟨t, tail, rfl, hhead⟩ := exists_of_mem_segments hseg
  have hsub : t :: tail ⊆ ts := by
    intro u hu
    rw [← append_flatten_segments ts]
    exact List.mem_append_right _ (List.mem_flatten_of_mem hseg hu)
  exact ((Rule.ofTokens_cons_eq_ok_iff hhead).mp hok).readFrom.mono hsub

theorem ofText_eq_ok_iff :
    ofText text = .ok d ↔ ∃ ts, tokens .lenient text = .ok ts ∧ Dictionary.ofTokens ts = .ok d := by
  unfold ofText
  cases tokens .lenient text with
  | error e => simp [bind, Except.bind]
  | ok ts => simp [bind, Except.bind]

theorem named_of_ofText (h : ofText text = .ok d) : d.Named := by
  obtain ⟨ts, -, hd⟩ := ofText_eq_ok_iff.mp h
  exact (readFrom_of_ofTokens hd).1

theorem wellFormed_of_ofText (h : ofText text = .ok d) : ∀ r ∈ d.rules, r.WellFormed := by
  obtain ⟨ts, -, hd⟩ := ofText_eq_ok_iff.mp h
  exact fun r hr => ((readFrom_of_ofTokens hd).2 r hr).wellFormed

end Dictionary

end GrammarForge
