import GrammarForge.Proofs.Encodings
import GrammarForge.Proofs.TokenNames

/-!
What stands between double quotes. Names stay outside of the quotes in the text of an expression,
and inside of them are its labels, in the order of its nodes.
-/

namespace GrammarForge

namespace Text

/-- The texts between double quotes, in reading order. What has been read of an open one is kept
backwards. -/
def quotedTextsFrom : Option (List Char) → List Char → List String
  | _, [] => []
  | none, c :: cs =>
    if c = '\x22' then quotedTextsFrom (some []) cs else quotedTextsFrom none cs
  | some word, c :: cs =>
    if c = '\x22' then String.ofList word.reverse :: quotedTextsFrom none cs
    else quotedTextsFrom (some (c :: word)) cs

def quotedTexts (line : String) : List String := quotedTextsFrom none line.toList

/-- A text that can stand between quotes, or outside of them, on one line. -/
def Bare (s : String) : Prop := '\x22' ∉ s.toList ∧ '\n' ∉ s.toList

instance : DecidablePred Bare := fun _ => inferInstanceAs (Decidable (_ ∧ _))

/-- A stretch of a line that opens and closes its quotes, with the texts between them. -/
structure Shows (s : String) (quoted : List String) : Prop where
  quoted : ∀ rest, quotedTextsFrom none (s.toList ++ rest) = quoted ++ quotedTextsFrom none rest
  oneLine : '\n' ∉ s.toList

variable {s t : String} {qs rs : List String}

theorem quotedTextsFrom_none (c : Char) (cs : List Char) : quotedTextsFrom none (c :: cs) =
    if c = '\x22' then quotedTextsFrom (some []) cs else quotedTextsFrom none cs := rfl

theorem quotedTextsFrom_some (hs : '\x22' ∉ s.toList) (rest : List Char) :
    quotedTextsFrom (some []) (s.toList ++ '\x22' :: rest) = s :: quotedTextsFrom none rest := by
  have hread : ∀ w cs, '\x22' ∉ cs → quotedTextsFrom (some w) (cs ++ '\x22' :: rest) =
      String.ofList (w.reverse ++ cs) :: quotedTextsFrom none rest := by
    intro w cs hcs
    induction cs generalizing w with
    | nil => simp [quotedTextsFrom]
    | cons c cs ih =>
      obtain ⟨hc, hcs⟩ : '\x22' ≠ c ∧ '\x22' ∉ cs := by simpa using hcs
      rw [List.cons_append, quotedTextsFrom, if_neg hc.symm, ih _ hcs]
      simp
  simpa using hread [] s.toList hs

theorem Bare.shows (h : Bare s) : Shows s [] where
  quoted rest := by
    have hskip : ∀ cs, '\x22' ∉ cs →
        quotedTextsFrom none (cs ++ rest) = quotedTextsFrom none rest := by
      intro cs hcs
      induction cs with
      | nil => rfl
      | cons c cs ih =>
        obtain ⟨hc, hcs⟩ : '\x22' ≠ c ∧ '\x22' ∉ cs := by simpa using hcs
        rw [List.cons_append, quotedTextsFrom, if_neg hc.symm, ih hcs]
    exact hskip s.toList h.1
  oneLine := h.2

theorem Shows.append (hs : Shows s qs) (ht : Shows t rs) : Shows (s ++ t) (qs ++ rs) where
  quoted rest := by simp [hs.quoted, ht.quoted]
  oneLine := by simp [hs.oneLine, ht.oneLine]

theorem Shows.quotedTexts_eq (h : Shows s qs) : quotedTexts s = qs := by
  simpa [quotedTexts, quotedTextsFrom] using h.quoted []

theorem quotedTexts_unlines {lines : List String} (h : ∀ line ∈ lines, ∃ qs, Shows line qs) :
    quotedTexts (unlines lines) = lines.flatMap quotedTexts := by
  induction lines with
  | nil => rfl
  | cons line lines ih =>
    obtain ⟨⟨qs, hline⟩, hlines⟩ := List.forall_mem_cons.mp h
    match lines, ih with
    | [], _ => simp [unlines]
    | next :: lines, ih =>
      have htext : (unlines (line :: next :: lines)).toList =
          line.toList ++ '\n' :: (unlines (next :: lines)).toList := by
        simp [unlines, String.intercalate_cons_cons]
      rw [List.flatMap_cons, hline.quotedTexts_eq, ← ih hlines, quotedTexts, htext, hline.quoted,
        quotedTextsFrom_none, if_neg (by decide)]
      rfl

theorem IsPlain.bare (h : IsPlain s) : Bare s :=
  ⟨fun hc => absurd (h _ hc) (by decide), fun hc => absurd (h _ hc) (by decide)⟩

theorem bare_toString (n : Nat) : Bare (toString n) := (isPlain_toString n).bare

theorem bare_append (hs : Bare s) (ht : Bare t) : Bare (s ++ t) := by
  simp [Bare, hs.1, hs.2, ht.1, ht.2]

end Text

open Text

def Action.label : Action → String
  | .wrap label => label
  | .relabelPair label => label
  | .relabel label => label
  | .flatten _ label => label

mutual

/-- The labels of the nodes and the names of tokens, from the outside in and from left to right. -/
def Expression.quoted : Expression → List String
  | .name _ => []
  | .token _ label => [label]
  | .empty label => [label]
  | .reduce a x => a.label :: x.quoted
  | .seq label? xs => label?.toList ++ Expression.quotedAll xs
  | .alt xs => Expression.quotedAll xs
termination_by structural x => x

def Expression.quotedAll : List Expression → List String
  | [] => []
  | x :: xs => x.quoted ++ Expression.quotedAll xs
termination_by structural xs => xs

end

mutual

def Expression.IsBare : Expression → Prop
  | .name bound => Bare bound
  | .token _ label => Bare label
  | .empty label => Bare label
  | .reduce a x => Bare a.label ∧ x.IsBare
  | .seq label? xs => (∀ label ∈ label?, Bare label) ∧ Expression.AllBare xs
  | .alt xs => Expression.AllBare xs
termination_by structural x => x

def Expression.AllBare : List Expression → Prop
  | [] => True
  | x :: xs => x.IsBare ∧ Expression.AllBare xs
termination_by structural xs => xs

end

section Quoting

variable {tree : String}

theorem shows_number (n : Nat) (rest : List Char) :
    quotedTextsFrom none (Nat.toDigits 10 n ++ rest) = quotedTextsFrom none rest := by
  simpa using (bare_toString n).shows.quoted rest

theorem not_mem_number (n : Nat) : '\n' ∉ Nat.toDigits 10 n := by
  simpa using (bare_toString n).2

theorem Action.Written.shows {f : String} {a : Action} (h : Action.Written tree f a)
    (htree : Bare tree) (ha : Bare a.label) : Shows f [a.label] := by
  cases h with
  | flatten depth label =>
    have hl : Bare label := ha
    exact ⟨fun rest => by
      simp [toString, quotedTextsFrom_none, quotedTextsFrom_some hl.1, Action.label, shows_number],
      by simp [toString, hl.2, not_mem_number]⟩
  | wrap label | relabelPair label | relabel label =>
    have hl : Bare label := ha
    exact ⟨fun rest => by
      simp [toString, quotedTextsFrom_none, quotedTextsFrom_some hl.1, Action.label,
        htree.shows.quoted],
      by simp [toString, hl.2, htree.2]⟩

theorem shows_listed {ts : List String} {xs : List Expression}
    (h : List.Forall₂ (fun t x => Shows t x.quoted) ts xs) :
    Shows (listed ts) (Expression.quotedAll xs) := by
  have hsep : Shows "; " [] := Bare.shows (by decide)
  induction h with
  | nil => exact Bare.shows (by decide)
  | @cons t x ts xs ht h ih =>
    cases h with
    | nil => simpa [listed, Expression.quotedAll] using ht
    | @cons t' x' ts' xs' ht' h' =>
      have hlisted : listed (t :: t' :: ts') = t ++ ("; " ++ listed (t' :: ts')) := by
        rw [listed, listed, String.intercalate_cons_cons, String.append_assoc]
      rw [hlisted]
      exact ht.append (hsep.append ih)

theorem shows_nodeRecord {kind children : String} {qs rs : List String} (hk : Shows kind qs)
    (hc : Shows children rs) : Shows (nodeRecord kind children) (qs ++ rs) := by
  have hopen : Shows "\x7b tag = " [] := Bare.shows (by decide)
  have hsep : Shows "; " [] := Bare.shows (by decide)
  have hfiller : Shows "; nullable = Nullable_unvisited; listeners = []; " [] :=
    Bare.shows (by decide)
  have hclose : Shows "key = false_token; value = false_node; ast = [] \x7d" [] :=
    Bare.shows (by decide)
  simpa [nodeRecord] using
    ((((hopen.append hk).append hsep).append hc).append hfiller).append hclose

theorem shows_childFields {s t : String} {qs rs : List String} (hs : Shows s qs)
    (ht : Shows t rs) : Shows s!"child1 = {s}; child2 = {t}" (qs ++ rs) where
  quoted rest := by simp [toString, quotedTextsFrom_none, hs.quoted, ht.quoted]
  oneLine := by simp [toString, hs.oneLine, ht.oneLine]

theorem shows_childrenField {s : String} {qs : List String} (hs : Shows s qs) :
    Shows s!"children = [ {s} ]" qs where
  quoted rest := by simp [toString, quotedTextsFrom_none, hs.quoted]
  oneLine := by simp [toString, hs.oneLine]

theorem exists_shows_pair {s t : String} {xs : List Expression}
    (h : List.Forall₂ (fun t x => Shows t x.quoted) [s, t] xs) :
    ∃ qs rs, Shows s qs ∧ Shows t rs ∧ Expression.quotedAll xs = qs ++ rs := by
  match h with
  | .cons hx (.cons hy .nil) => exact ⟨_, _, hx, hy, by simp [Expression.quotedAll]⟩

/-- The quotes in the text of an expression are around its labels. -/
theorem Expression.Written.shows {isPart : String → Prop} {ts : List String}
    {xs : List Expression} (h : Written isPart tree ts xs) (htree : Bare tree)
    (hxs : Expression.AllBare xs) :
    List.Forall₂ (fun t x => Shows t x.quoted) ts xs := by
  have hone : ∀ {t x}, Shows t x.quoted →
      List.Forall₂ (fun t x => Shows t (quoted x)) [t] [x] := fun h => .cons h .nil
  induction h with
  | nil => exact .nil
  | cons _ _ ihx ihxs =>
    exact .cons (List.forall₂_cons.mp (ihx ⟨hxs.1, trivial⟩)).1 (ihxs hxs.2)
  | name => exact hone (Bare.shows hxs.1)
  | memo _ ih | delayed _ ih =>
    have hx := (List.forall₂_cons.mp (ih hxs)).1
    refine hone ⟨fun rest => ?_, ?_⟩
    · simp [toString, quotedTextsFrom_none, hx.quoted]
    · simp [toString, hx.oneLine]
  | tok tag label | makeTok tag label | tokNode tag label =>
    have hl : Bare label := hxs.1
    refine hone ⟨fun rest => ?_, ?_⟩
    · simp [toString, quotedTextsFrom_none, quotedTextsFrom_some hl.1, shows_number, quoted]
    · simp [toString, hl.2, not_mem_number]
  | eps label | epsLeaf label | epsNode label =>
    have hl : Bare label := hxs.1
    refine hone ⟨fun rest => ?_, ?_⟩
    · simp [toString, quotedTextsFrom_none, quotedTextsFrom_some hl.1, htree.shows.quoted, quoted]
    · simp [toString, hl.2, htree.2]
  | red hf _ ih =>
    have hf := hf.shows htree hxs.1.1
    have hx := (List.forall₂_cons.mp (ih ⟨hxs.1.2, trivial⟩)).1
    refine hone ⟨fun rest => ?_, ?_⟩
    · simp [toString, quotedTextsFrom_none, hf.quoted, hx.quoted, quoted]
    · simp [toString, hf.oneLine, hx.oneLine]
  | @redFlatten depth label s x _ ih =>
    have hl : Bare label := hxs.1.1
    have hx := (List.forall₂_cons.mp (ih ⟨hxs.1.2, trivial⟩)).1
    refine hone ⟨fun rest => ?_, ?_⟩
    · simp [toString, quotedTextsFrom_none, quotedTextsFrom_some hl.1, shows_number, hx.quoted,
        quoted, Action.label]
    · simp [toString, hl.2, not_mem_number, hx.oneLine]
  | redChild hf _ ih | redChildren hf _ ih =>
    have hf := hf.shows htree hxs.1.1
    have hx := (List.forall₂_cons.mp (ih ⟨hxs.1.2, trivial⟩)).1
    have hkind : ∀ {f label}, Shows f [label] → Shows s!"Red_tag (List.map ({f}))" [label] :=
      fun h => ⟨fun rest => by simp [toString, quotedTextsFrom_none, h.quoted],
        by simp [toString, h.oneLine]⟩
    refine hone (shows_nodeRecord (hkind hf) ⟨fun rest => ?_, ?_⟩)
    · simp [toString, quotedTextsFrom_none, hx.quoted]
    · simp [toString, hx.oneLine]
  | @seqPair label s t xs _ ih =>
    have hl : Bare label := hxs.1.1 label rfl
    obtain ⟨qs, rs, hs, ht, hquoted⟩ := exists_shows_pair (ih hxs.1.2)
    refine hone ⟨fun rest => ?_, ?_⟩
    · simp [toString, quotedTextsFrom_none, quotedTextsFrom_some hl.1, hs.quoted, ht.quoted, quoted,
        hquoted]
    · simp [toString, hl.2, hs.oneLine, ht.oneLine]
  | @seqList label ts xs _ ih | @makeSeq label ts xs _ ih =>
    have hl : Bare label := hxs.1.1 label rfl
    have hts := shows_listed (ih hxs.1.2)
    refine hone ⟨fun rest => ?_, ?_⟩
    · simp [toString, quotedTextsFrom_none, quotedTextsFrom_some hl.1, hts.quoted, quoted]
    · simp [toString, hl.2, hts.oneLine]
  | seqChild _ ih =>
    obtain ⟨qs, rs, hs, ht, hquoted⟩ := exists_shows_pair (ih hxs.1.2)
    have hrecord := shows_nodeRecord (Bare.shows (by decide : Bare "Seq_tag"))
      (shows_childFields hs ht)
    exact hone (by simpa [quoted, hquoted] using hrecord)
  | seqChildren _ ih =>
    exact hone (shows_nodeRecord (Bare.shows (by decide : Bare "Seq_tag"))
      (shows_childrenField (shows_listed (ih hxs.1.2))))
  | altPair _ ih | altRefs _ ih =>
    obtain ⟨qs, rs, hs, ht, hquoted⟩ := exists_shows_pair (ih hxs.1)
    refine hone ⟨fun rest => ?_, ?_⟩
    · simp [toString, quotedTextsFrom_none, hs.quoted, ht.quoted, quoted, hquoted]
    · simp [toString, hs.oneLine, ht.oneLine]
  | altList _ ih | altRef _ ih | makeAlt _ ih =>
    have hts := shows_listed (ih hxs.1)
    refine hone ⟨fun rest => ?_, ?_⟩
    · simp [toString, quotedTextsFrom_none, hts.quoted, quoted]
    · simp [toString, hts.oneLine]
  | altChild _ ih =>
    obtain ⟨qs, rs, hs, ht, hquoted⟩ := exists_shows_pair (ih hxs.1)
    have hrecord := shows_nodeRecord (Bare.shows (by decide : Bare "Alt_tag"))
      (shows_childFields hs ht)
    exact hone (by simpa [quoted, hquoted] using hrecord)
  | altChildren _ ih =>
    exact hone (shows_nodeRecord (Bare.shows (by decide : Bare "Alt_tag"))
      (shows_childrenField (shows_listed (ih hxs.1))))

end Quoting

namespace Expression

theorem quotedAll_eq_flatMap (xs : List Expression) : quotedAll xs = xs.flatMap quoted := by
  induction xs with
  | nil => rfl
  | cons x xs ih => simp [quotedAll, ih]

theorem quotedAll_names (parts : List String) : quotedAll (parts.map .name) = [] := by
  simp [quotedAll_eq_flatMap, List.flatMap_map, quoted]

theorem quoted_nestAlt (x : Expression) (xs : List Expression) :
    (nestAlt x xs).quoted = (x :: xs).flatMap quoted := by
  induction xs generalizing x with
  | nil => simp [nestAlt]
  | cons y rest ih => simp [nestAlt, quoted, quotedAll, ih]

theorem allBare_iff {xs : List Expression} : AllBare xs ↔ ∀ x ∈ xs, x.IsBare := by
  induction xs with
  | nil => simp [AllBare]
  | cons x xs ih => simp [AllBare, ih]

theorem allBare_names {parts : List String} (hparts : ∀ p ∈ parts, Bare p) :
    AllBare (parts.map .name) := by
  rw [allBare_iff]
  intro x hx
  obtain ⟨part, hpart, rfl⟩ := List.mem_map.mp hx
  exact hparts part hpart

theorem isBare_nestAlt (x : Expression) (xs : List Expression) (h : ∀ y ∈ x :: xs, y.IsBare) :
    (nestAlt x xs).IsBare := by
  induction xs generalizing x with
  | nil => exact h x List.mem_cons_self
  | cons y rest ih =>
    obtain ⟨hx, hrest⟩ := List.forall_mem_cons.mp h
    exact ⟨hx, ih y hrest, trivial⟩

end Expression

namespace Arrangement

variable {label : String} {parts : List String}

theorem quoted_choice (a : Arrangement) (xs : List Expression) :
    (a.choice xs).quoted = xs.flatMap Expression.quoted :=
  choice_cases (P := fun xs x => x.quoted = xs.flatMap Expression.quoted) a xs
    (fun _ => by simp) Expression.quotedAll_eq_flatMap Expression.quoted_nestAlt

theorem isBare_choice (a : Arrangement) {xs : List Expression} (h : ∀ x ∈ xs, x.IsBare) :
    (a.choice xs).IsBare :=
  choice_cases (P := fun xs x => (∀ y ∈ xs, y.IsBare) → x.IsBare) a xs
    (fun x h => h x List.mem_cons_self) (fun _ => Expression.allBare_iff.mpr)
    Expression.isBare_nestAlt h

theorem bare_pairLabel (h : Bare label) (i : Nat) : Bare (pairLabel label i) :=
  bare_append (bare_append (bare_append (by decide) (bare_toString i)) (by decide)) h

theorem isBare_nestSeq {a : Arrangement} (hl : Bare label) {part : String} (hpart : Bare part)
    (hparts : ∀ p ∈ parts, Bare p) (i : Nat) :
    (Expression.nestSeq (a.pairLabel? label) i (.name part) (parts.map .name)).IsBare := by
  induction parts generalizing part i with
  | nil => exact hpart
  | cons next parts ih =>
    obtain ⟨hnext, hparts⟩ := List.forall_mem_cons.mp hparts
    refine ⟨fun l h => ?_, hpart, ih hnext hparts (i + 1), trivial⟩
    obtain ⟨-, rfl⟩ : a.isLabelled = true ∧ pairLabel label i = l := by
      simpa [pairLabel?] using h
    exact bare_pairLabel hl i

theorem isBare_production (a : Arrangement) (hl : Bare label) (hparts : ∀ p ∈ parts, Bare p) :
    (a.production label (parts.map .name)).IsBare := by
  refine production_cases a label parts ?_ ?_ ?_ ?_ ?_ ?_
  · intro _ _
    exact ⟨by simpa using hl, Expression.allBare_names hparts⟩
  · exact fun _ _ => hl
  · rintro p - rfl
    exact ⟨hl, hparts p List.mem_cons_self⟩
  · rintro p q - rfl
    exact ⟨hl, nofun, Expression.allBare_names hparts⟩
  · intro _
    exact ⟨hl, nofun, Expression.allBare_names hparts⟩
  · rintro p q rest - rfl
    obtain ⟨hp, hrest⟩ := List.forall_mem_cons.mp hparts
    exact ⟨hl, isBare_nestSeq hl hp hrest 1⟩

end Arrangement

end GrammarForge
