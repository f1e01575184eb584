import Mathlib.Data.List.Forall2
import GrammarForge.Proofs.BodyReading
import GrammarForge.Proofs.Declaration

/-!
Rules are read from a list of tokens exactly when the list is layout followed by spelled rules with
different names, and as the rules spelled.
-/

namespace GrammarForge

/-- The alternatives of a rule whose body is written as `ps`: those of a plain group that is the
whole body, and else `ps`. -/
inductive Lifts : List Production → List Production → Prop where
  | inner {implicit : Bool} {qs : List Production} :
      Lifts [[.once (.group ⟨false, implicit, qs⟩)]] qs
  | whole {ps : List Production} :
      (∀ implicit qs, ps ≠ [[.once (.group ⟨false, implicit, qs⟩)]]) → Lifts ps ps

/-- Tokens spell a rule: a name, a colon and a body in which layout does not count. -/
inductive SpellsRule : List Token → Rule → Prop where
  | intro {name colon : Token} {body : List Token} {ps qs : List Production} :
      name.kind = .name → colon.kind = .op .colon → body.filter (! ·.kind.isLayout) ≠ [] →
      Spells (body.filter (! ·.kind.isLayout)) (.alternatives ps) → Lifts ps qs →
      SpellsRule (name :: colon :: body) (.ofBody name.text qs)

theorem Group.unwrap_body_eq_iff {ps : List Production} {g : Group} :
    (Group.body ps).unwrap = g ↔ ∃ qs, Lifts ps qs ∧ g = .body qs := by
  have hu : ∃ qs, Lifts ps qs ∧ (Group.body ps).unwrap = .body qs := by
    unfold Group.unwrap
    split
    case h_1 inner hps =>
      obtain ⟨o, i, qs⟩ := inner
      obtain rfl : ps = _ := hps
      cases o with
      | false => exact ⟨qs, .inner, rfl⟩
      | true => exact ⟨_, .whole (by simp [Component.once]), rfl⟩
    case h_2 hps => exact ⟨ps, .whole fun i qs h => hps ⟨false, i, qs⟩ h, rfl⟩
  have hunique : ∀ {qs qs'}, Lifts ps qs → Lifts ps qs' → qs = qs' := by
    intro qs qs' h h'
    cases h with
    | inner =>
      cases h' with
      | inner => rfl
      | whole hps => exact absurd rfl (hps _ _)
    | whole hps =>
      cases h' with
      | inner => exact absurd rfl (hps _ _)
      | whole => rfl
  obtain ⟨qs, hqs, he⟩ := hu
  rw [he]
  constructor
  · rintro rfl
    exact ⟨qs, hqs, rfl⟩
  · rintro ⟨qs', hqs', rfl⟩
    rw [hunique hqs hqs']

theorem Spells.kind_ne_colon {ts : List Token} {x : BodyPart} (h : Spells ts x) :
    ∀ t ∈ ts, t.kind ≠ .op .colon := by
  induction h <;> simp_all [or_imp]

theorem Spells.isLayout_eq_false {ts : List Token} {x : BodyPart} (h : Spells ts x) :
    ∀ t ∈ ts, t.kind.isLayout = false := by
  induction h <;> simp_all [or_imp, Token.Kind.isLayout]

theorem Spells.eq_of_nil {ts : List Token} {x : BodyPart} (h : Spells ts x) (hts : ts = []) :
    x = .sequence [] ∨ x = .alternatives [[]] := by
  induction h <;> simp_all

section Segments

variable {ts us xs : List Token} {t colon : Token} {segs : List (List Token)}

theorem segments_cons :
    segments (t :: ts) = if ts.head?.any (·.kind == .op .colon)
      then ([], (t :: (segments ts).1) :: (segments ts).2)
      else (t :: (segments ts).1, (segments ts).2) := rfl

theorem head_append_ne_colon (hxs : ∀ t ∈ xs, t.kind ≠ .op .colon)
    (hts : ∀ t ∈ ts.head?, t.kind ≠ .op .colon) :
    (xs ++ ts).head?.any (·.kind == .op .colon) = false := by
  cases xs with
  | nil => cases ts <;> simp_all
  | cons x xs => simpa using hxs x (by simp)

theorem segments_append (hxs : ∀ t ∈ xs, t.kind ≠ .op .colon)
    (hts : ∀ t ∈ ts.head?, t.kind ≠ .op .colon) :
    segments (xs ++ ts) = (xs ++ (segments ts).1, (segments ts).2) := by
  induction xs with
  | nil => rfl
  | cons x xs ih =>
    have hxs' : ∀ t ∈ xs, t.kind ≠ .op .colon := fun t ht => hxs t (List.mem_cons_of_mem _ ht)
    rw [List.cons_append, segments_cons, head_append_ne_colon hxs' hts, ih hxs']
    rfl

/-- The start of a rule and its body up to the next rule. -/
theorem segments_rule (hc : colon.kind = .op .colon) (hxs : ∀ t ∈ xs, t.kind ≠ .op .colon)
    (hts : ∀ t ∈ ts.head?, t.kind ≠ .op .colon) :
    segments (t :: colon :: xs ++ ts) =
      ([], (t :: colon :: (xs ++ (segments ts).1)) :: (segments ts).2) := by
  have hbody : segments (colon :: xs ++ ts) =
      (colon :: (xs ++ (segments ts).1), (segments ts).2) := by
    rw [List.cons_append, segments_cons, head_append_ne_colon hxs hts, segments_append hxs hts]
    rfl
  rw [List.cons_append, segments_cons, hbody]
  simp [hc]

theorem append_flatten_segments (ts : List Token) :
    (segments ts).1 ++ (segments ts).2.flatten = ts := by
  induction ts with
  | nil => rfl
  | cons t ts ih =>
    rw [segments_cons]
    split <;> simpa using ih

theorem exists_of_mem_segments {seg : List Token} (h : seg ∈ (segments ts).2) :
    ∃ t tail, seg = t :: tail ∧ ∀ u ∈ tail.head?, u.kind = .op .colon := by
  induction ts with
  | nil => cases h
  | cons t ts ih =>
    have hts := append_flatten_segments ts
    rw [segments_cons] at h
    split at h
    · rename_i hhead
      rcases List.mem_cons.mp h with rfl | h
      · refine ⟨t, _, rfl, fun u hu => ?_⟩
        cases hb : (segments ts).1 with
        | nil => simp [hb] at hu
        | cons x xs =>
          rw [hb] at hu hts
          rw [← hts] at hhead
          obtain rfl : x = u := by simpa using hu
          simpa using hhead
      · exact ih h
    · exact ih h

end Segments

namespace Rule

variable {t : Token} {tail : List Token} {r : Rule}

theorem ofTokens_eq {colon : Token} {body : List Token} (ht : t.kind = .name)
    (hc : colon.kind = .op .colon) :
    Rule.ofTokens (t :: colon :: body) =
      if (body.filter (! ·.kind.isLayout)).isEmpty then
        .error (.malformedRule t.position.line (.emptyBody t.text))
      else (readBody t.text (body.filter (! ·.kind.isLayout))).map fun ps =>
        ⟨t.text, [(Group.body ps).unwrap]⟩ := by
  have hfilter : (body.filter (·.kind != .newline)).filter (! ·.kind.isLayout) =
      body.filter (! ·.kind.isLayout) := by
    rw [List.filter_filter]
    refine List.filter_congr fun u _ => ?_
    cases hu : u.kind <;> simp [Token.Kind.isLayout]
  have hseg : (t :: colon :: body).filter (·.kind != .newline) =
      t :: colon :: body.filter (·.kind != .newline) := by
    simp [ht, hc]
  simp only [Rule.ofTokens, hseg, hfilter, ht, hc, and_self, if_true]
  rfl

theorem ofTokens_cons_eq_ok_iff (hhead : ∀ u ∈ tail.head?, u.kind = .op .colon) :
    Rule.ofTokens (t :: tail) = .ok r ↔ SpellsRule (t :: tail) r := by
  cases tail with
  | nil =>
    have hno : Rule.ofTokens [t] ≠ .ok r := by
      by_cases ht : t.kind = .newline <;> simp [Rule.ofTokens, ht]
    have hno' : ¬ SpellsRule [t] r := fun h => by cases h
    simp [hno, hno']
  | cons colon body =>
    have hc : colon.kind = .op .colon := hhead colon rfl
    by_cases ht : t.kind = .name
    · have hread : Rule.ofTokens (t :: colon :: body) = .ok r ↔
          body.filter (! ·.kind.isLayout) ≠ [] ∧
            ∃ ps, Spells (body.filter (! ·.kind.isLayout)) (.alternatives ps) ∧
              ⟨t.text, [(Group.body ps).unwrap]⟩ = r := by
        rw [ofTokens_eq ht hc]
        simp only [← readBody_eq_ok_iff t.text]
        cases body.filter (! ·.kind.isLayout) with
        | nil => simp
        | cons u us => cases readBody t.text (u :: us) <;> simp [Except.map]
      rw [hread]
      constructor
      · rintro ⟨hne, ps, hs, rfl⟩
        obtain ⟨qs, hl, hg⟩ := Group.unwrap_body_eq_iff.mp rfl
        rw [hg]
        exact .intro ht hc hne hs hl
      · intro h
        cases h with
        | @intro _ _ _ ps qs _ _ hne hs hl =>
          refine ⟨hne, ps, hs, ?_⟩
          rw [Group.unwrap_body_eq_iff.mpr ⟨qs, hl, rfl⟩]
          rfl
    · have hno : Rule.ofTokens (t :: colon :: body) ≠ .ok r := by
        by_cases hl : t.kind = .newline
        · have hseg : (t :: colon :: body).filter (·.kind != .newline) =
              colon :: body.filter (·.kind != .newline) := by
            simp [hl, hc]
          simp only [Rule.ofTokens, hseg]
          cases body.filter (·.kind != .newline) <;> simp [hc]
        · simp [Rule.ofTokens, hl, ht, hc]
      have hno' : ¬ SpellsRule (t :: colon :: body) r := fun h => by
        cases h
        contradiction
      simp [hno, hno']

end Rule

theorem exists_of_forall₂_mem {α β : Type} {R : α → β → Prop} {as : List α} {bs : List β}
    (h : List.Forall₂ R as bs) {b : β} (hb : b ∈ bs) : ∃ a ∈ as, R a b := by
  induction h with
  | nil => cases hb
  | cons hab _ ih =>
    rcases List.mem_cons.mp hb with rfl | hb
    · exact ⟨_, List.mem_cons_self, hab⟩
    · obtain ⟨a, ha, hR⟩ := ih hb
      exact ⟨a, List.mem_cons_of_mem _ ha, hR⟩

/-- A name, a colon, and no other colon behind it. -/
def IsSegment (seg : List Token) : Prop :=
  ∃ name colon body, seg = name :: colon :: body ∧ name.kind = .name ∧
    colon.kind = .op .colon ∧ ∀ t ∈ body, t.kind ≠ .op .colon

theorem SpellsRule.isSegment {seg : List Token} {r : Rule} (h : SpellsRule seg r) :
    IsSegment seg := by
  cases h with
  | @intro name colon body ps qs hn hc _ hs _ =>
    refine ⟨name, colon, body, rfl, hn, hc, fun t ht hk => ?_⟩
    have hm : t ∈ body.filter (! ·.kind.isLayout) := by simp [ht, hk, Token.Kind.isLayout]
    exact hs.kind_ne_colon t hm hk

namespace IsSegment

variable {segs : List (List Token)}

theorem head_flatten (h : ∀ seg ∈ segs, IsSegment seg) :
    ∀ t ∈ segs.flatten.head?, t.kind ≠ .op .colon := by
  cases segs with
  | nil => simp
  | cons seg segs =>
    obtain ⟨name, colon, body, rfl, hn, -, -⟩ := h seg List.mem_cons_self
    simp [hn]

theorem segments_flatten (h : ∀ seg ∈ segs, IsSegment seg) :
    segments segs.flatten = ([], segs) := by
  induction segs with
  | nil => rfl
  | cons seg segs ih =>
    obtain ⟨hseg, hsegs⟩ := List.forall_mem_cons.mp h
    obtain ⟨name, colon, body, rfl, hn, hc, hbody⟩ := hseg
    have hrule := segments_rule (t := name) hc hbody (head_flatten hsegs)
    simpa [ih hsegs] using hrule

/-- Layout in front of segments is cut off, and they are cut where they start. -/
theorem segments_append_flatten {before : List Token}
    (hbefore : ∀ t ∈ before, t.kind.isLayout = true) (h : ∀ seg ∈ segs, IsSegment seg) :
    segments (before ++ segs.flatten) = (before, segs) ∧
      (before ++ segs.flatten).head?.any (·.kind == .op .colon) = false := by
  have hcolon : ∀ t ∈ before, t.kind ≠ .op .colon := by
    intro t ht hk
    simpa [hk, Token.Kind.isLayout] using hbefore t ht
  have hsegs := segments_append hcolon (head_flatten h)
  rw [segments_flatten h, List.append_nil] at hsegs
  exact ⟨hsegs, head_append_ne_colon hcolon (head_flatten h)⟩

end IsSegment

namespace Dictionary

variable {d d' : Dictionary} {ts before : List Token} {segs : List (List Token)} {rs : List Rule}

theorem readRules_eq_ok_iff : d.readRules segs = .ok d' ↔
    ∃ rs, List.Forall₂ (fun seg r => Rule.ofTokens seg = .ok r) segs rs ∧
      d.declareAll rs = .ok d' := by
  induction segs generalizing d with
  | nil => simp [readRules, declareAll]
  | cons seg segs ih =>
    have hcons : d.readRules (seg :: segs) = .ok d' ↔
        ∃ r d₁, Rule.ofTokens seg = .ok r ∧ d.declare r = .ok d₁ ∧ d₁.readRules segs = .ok d' := by
      simp only [readRules, List.foldlM_cons]
      cases Rule.ofTokens seg with
      | error e => simp [bind, Except.bind]
      | ok r => cases hd : d.declare r <;> simp [bind, Except.bind, hd]
    rw [hcons]
    constructor
    · rintro ⟨r, d₁, hr, hd₁, h⟩
      obtain ⟨rs, hrs, hd'⟩ := ih.mp h
      exact ⟨r :: rs, .cons hr hrs, declareAll_cons_eq_ok_iff.mpr ⟨d₁, hd₁, hd'⟩⟩
    · rintro ⟨rs, hrs, hd'⟩
      cases hrs with
      | @cons _ r _ rs hr hrs =>
        obtain ⟨d₁, hd₁, hd'⟩ := declareAll_cons_eq_ok_iff.mp hd'
        exact ⟨r, d₁, hr, hd₁, ih.mpr ⟨rs, hrs, hd'⟩⟩

theorem ofTokens_eq_ok_iff_segments : Dictionary.ofTokens ts = .ok d ↔
    ts.head?.any (·.kind == .op .colon) = false ∧
      (∀ t ∈ (segments ts).1, t.kind.isLayout = true) ∧ empty.readRules (segments ts).2 = .ok d := by
  unfold ofTokens
  split
  case h_1 t ht =>
    obtain ⟨hhead, hk⟩ : ts.head? = some t ∧ t.kind = .op .colon := by
      simpa [Option.filter_eq_some_iff] using ht
    simp [hhead, hk]
  case h_2 hnone =>
    have hhead : ts.head?.any (·.kind == .op .colon) = false := by
      cases h : ts.head? with
      | none => rfl
      | some t => simpa [h] using hnone
    dsimp only
    split
    case h_1 t ht =>
      have hno : ¬ ∀ t ∈ (segments ts).1, t.kind.isLayout = true := fun h => by
        have hlayout := List.find?_some ht
        simp [h t (List.mem_of_find?_eq_some ht)] at hlayout
      simp [hno]
    case h_2 hlayout =>
      rw [List.find?_eq_none] at hlayout
      have hlayout : ∀ t ∈ (segments ts).1, t.kind.isLayout = true := by simpa using hlayout
      exact ⟨fun h => ⟨hhead, hlayout, h⟩, fun h => h.2.2⟩

theorem ofTokens_of_spellsRule (hbefore : ∀ t ∈ before, t.kind.isLayout = true)
    (hrs : List.Forall₂ SpellsRule segs rs) (hnames : (rs.map Rule.name).Nodup)
    (hd : d.entries = rs.map fun r => (r.name, r)) :
    Dictionary.ofTokens (before ++ segs.flatten) = .ok d := by
  have hsegs : ∀ seg ∈ segs, IsSegment seg := by
    intro seg hseg
    obtain ⟨r, -, hr⟩ := exists_of_forall₂_mem hrs.flip hseg
    exact SpellsRule.isSegment hr
  obtain ⟨hcut, hhead⟩ := IsSegment.segments_append_flatten hbefore hsegs
  rw [ofTokens_eq_ok_iff_segments, hcut]
  refine ⟨hhead, hbefore, readRules_eq_ok_iff.mpr ⟨rs, ?_, ?_⟩⟩
  · refine hrs.imp fun seg r hr => ?_
    obtain ⟨name, colon, body, rfl, -, hc, -⟩ := hr.isSegment
    exact (Rule.ofTokens_cons_eq_ok_iff (by simpa using hc)).mpr hr
  · exact declareAll_eq_ok_iff.mpr ⟨by simpa [keys, empty] using hnames, by simpa [empty] using hd⟩

/-- Reading a list of tokens succeeds exactly on layout followed by spelled rules with different
names, and gives these rules in their order. -/
theorem ofTokens_eq_ok_iff : Dictionary.ofTokens ts = .ok d ↔
    ∃ before segs rs, ts = before ++ segs.flatten ∧
      (∀ t ∈ before, t.kind.isLayout = true) ∧ List.Forall₂ SpellsRule segs rs ∧
      (rs.map Rule.name).Nodup ∧ d.entries = rs.map fun r => (r.name, r) := by
  constructor
  · intro h
    obtain ⟨-, hbefore, hread⟩ := ofTokens_eq_ok_iff_segments.mp h
    obtain ⟨rs, hrs, hdeclare⟩ := readRules_eq_ok_iff.mp hread
    obtain ⟨hnames, hd⟩ := declareAll_eq_ok_iff.mp hdeclare
    have hsegs := (List.forall₂_and_left _ _).mpr ⟨fun seg => exists_of_mem_segments, hrs⟩
    refine ⟨_, _, rs, (append_flatten_segments ts).symm, hbefore, hsegs.imp ?_,
      by simpa [keys, empty] using hnames, by simpa [empty] using hd⟩
    rintro seg r ⟨⟨t, tail, rfl, hhead⟩, hr⟩
    exact (Rule.ofTokens_cons_eq_ok_iff hhead).mp hr
  · rintro ⟨before, segs, rs, rfl, hbefore, hrs, hnames, hd⟩
    exact ofTokens_of_spellsRule hbefore hrs hnames hd

/-- A line end, `a: (x | [Y] 'z'*)`, whose brackets are the whole body, and `b: Y` on a line of its
own. -/
def liftedTokens : List Token :=
  [⟨.newline, none, ⟨1, 1⟩⟩,
    ⟨.name, some "a", ⟨2, 1⟩⟩, ⟨.op .colon, none, ⟨2, 2⟩⟩, ⟨.op .lPar, none, ⟨2, 4⟩⟩,
    ⟨.name, some "x", ⟨2, 5⟩⟩, ⟨.op .pipe, none, ⟨2, 7⟩⟩, ⟨.op .lSqr, none, ⟨2, 9⟩⟩,
    ⟨.name, some "Y", ⟨2, 10⟩⟩, ⟨.op .rSqr, none, ⟨2, 11⟩⟩, ⟨.string, some "z", ⟨2, 13⟩⟩,
    ⟨.op .star, none, ⟨2, 16⟩⟩, ⟨.op .rPar, none, ⟨2, 17⟩⟩, ⟨.newline, none, ⟨2, 18⟩⟩,
    ⟨.name, some "b", ⟨3, 1⟩⟩, ⟨.op .colon, none, ⟨3, 2⟩⟩, ⟨.name, some "Y", ⟨3, 4⟩⟩,
    ⟨.newline, none, ⟨3, 5⟩⟩, ⟨.endMarker, none, ⟨3, 5⟩⟩]

def liftedRules : List Rule :=
  [⟨"a", [⟨false, true, [[.once (.nonTerminal "x")],
      [.once (.group ⟨true, false, [[.once (.terminal "Y")]]⟩), ⟨.literal "z", .star⟩]]⟩]⟩,
    ⟨"b", [⟨false, true, [[.once (.terminal "Y")]]⟩]⟩]

theorem ofTokens_liftedTokens :
    Dictionary.ofTokens liftedTokens = .ok (.ofList (liftedRules.map fun r => (r.name, r))) := by
  have hx : StandsFor "x" (.nonTerminal "x") := .reference (by decide +kernel) (by decide +kernel)
  have hY : StandsFor "Y" (.terminal "Y") := .terminal (by decide +kernel)
  have hfirst : Spells [⟨.name, some "x", ⟨2, 5⟩⟩] (.sequence [.once (.nonTerminal "x")]) :=
    .sequence (.once (.word rfl hx))
  have hword (p : Position) :
      Spells [⟨.name, some "Y", p⟩] (.alternatives [[.once (.terminal "Y")]]) :=
    .single (.sequence (.once (.word rfl hY)))
  have hoptional : Spells [⟨.op .lSqr, none, ⟨2, 9⟩⟩, ⟨.name, some "Y", ⟨2, 10⟩⟩,
      ⟨.op .rSqr, none, ⟨2, 11⟩⟩] (.symbol (.group ⟨true, false, [[.once (.terminal "Y")]]⟩)) :=
    .optional rfl (hword _) rfl
  have hmarked : Spells ([⟨.string, some "z", ⟨2, 13⟩⟩] ++ [⟨.op .star, none, ⟨2, 16⟩⟩])
      (.component ⟨.literal "z", .star⟩) := .star (.once (.literal rfl)) rfl
  have hsecond := Spells.cons (.once hoptional) (.sequence hmarked)
  have hgroup : Spells (liftedTokens.drop 3 |>.take 9) (.symbol _) :=
    .group rfl (.choice hfirst rfl (.single hsecond)) rfl
  have ha : SpellsRule (liftedTokens.drop 1 |>.take 12) _ :=
    .intro rfl rfl nofun (.single (.sequence (.once hgroup))) .inner
  have hb : SpellsRule (liftedTokens.drop 13) _ :=
    .intro rfl rfl nofun (hword _) (.whole nofun)
  exact ofTokens_eq_ok_iff.mpr ⟨liftedTokens.take 1, _, liftedRules, rfl, by decide,
    .cons ha (.cons hb .nil), by decide, rfl⟩

end Dictionary

end GrammarForge
