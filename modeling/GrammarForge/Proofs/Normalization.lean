import Mathlib.Data.List.Perm.Basic
import GrammarForge.Proofs.Declaration
import GrammarForge.Proofs.Flattening

/-!
Normalization as a run over the rules of a dictionary, and the language of the result. A dictionary
with the bodies of the one and the synthesized rules of the other stands between the two.
-/

namespace GrammarForge

/-- A run over rules: each is read in flat form together with the rules made for it, and leaves
the next running number. -/
inductive Flattens : Nat → List Rule → List (Rule × List Rule) → Nat → Prop where
  | nil (counter : Nat) : Flattens counter [] [] counter
  | cons {counter next last : Nat} {r head : Rule} {rs made : List Rule}
      {blocks : List (Rule × List Rule)} :
      r.normalize counter = .ok (head :: made, next) → Flattens next rs blocks last →
      Flattens counter (r :: rs) ((head, made) :: blocks) last

def runRules (blocks : List (Rule × List Rule)) : List Rule :=
  blocks.flatMap fun b => b.1 :: b.2

def madeRules (blocks : List (Rule × List Rule)) : List Rule := blocks.flatMap Prod.snd

theorem Rule.normalize_eq_ok_iff {r : Rule} {counter next : Nat} {rs : List Rule} :
    r.normalize counter = .ok (rs, next) ↔ ∃ g, r.group? = some g ∧
      rs = ⟨r.name, [⟨g.optional, g.implicit,
          (Production.flattenList r.name 1 1 counter g.productions).value⟩]⟩ ::
        (Production.flattenList r.name 1 1 counter g.productions).rules ∧
      next = (Production.flattenList r.name 1 1 counter g.productions).counter := by
  unfold Rule.normalize
  cases r.group? with
  | none => simp
  | some g => simp [eq_comm]

theorem Rule.exists_normalize_eq_ok {r : Rule} (hr : r.group?.isSome = true) (counter : Nat) :
    ∃ head made next, r.normalize counter = .ok (head :: made, next) := by
  obtain ⟨g, hg⟩ := Option.isSome_iff_exists.mp hr
  exact ⟨_, _, _, Rule.normalize_eq_ok_iff.mpr ⟨g, hg, rfl, rfl⟩⟩

namespace Dictionary

theorem declareAll_append_eq_ok_iff {d d' : Dictionary} {rs rs' : List Rule} :
    d.declareAll (rs ++ rs') = .ok d' ↔
      ∃ d₁, d.declareAll rs = .ok d₁ ∧ d₁.declareAll rs' = .ok d' := by
  simp only [declareAll, List.foldlM_append]
  cases rs.foldlM declare d with
  | error e => simp [bind, Except.bind]
  | ok d₁ => simp [bind, Except.bind]

/-- Flattening succeeds exactly when every rule has one group and all rules of the run can be
declared together. -/
theorem normalizeInto_eq_ok_iff {out n : Dictionary} {counter last : Nat} {rs : List Rule} :
    out.normalizeInto counter rs = (.ok n, last) ↔
      ∃ blocks, Flattens counter rs blocks last ∧ out.declareAll (runRules blocks) = .ok n := by
  induction rs generalizing out counter with
  | nil =>
    constructor
    · intro h
      cases h
      exact ⟨[], .nil _, rfl⟩
    · rintro ⟨blocks, hrun, h⟩
      cases hrun
      cases h
      rfl
  | cons r rs ih =>
    unfold normalizeInto
    constructor
    · intro h
      split at h
      · cases h
      · rename_i b next hr
        split at h
        · cases h
        · rename_i out' hout
          obtain ⟨blocks, hrun, hall⟩ := ih.mp h
          obtain ⟨g, -, rfl, -⟩ := Rule.normalize_eq_ok_iff.mp hr
          exact ⟨_, .cons hr hrun, declareAll_append_eq_ok_iff.mpr ⟨out', hout, hall⟩⟩
    · rintro ⟨blocks, hrun, hall⟩
      cases hrun with
      | cons hr hrun =>
        obtain ⟨out', hout, hall⟩ := declareAll_append_eq_ok_iff.mp hall
        simp only [hr, hout]
        exact ih.mpr ⟨_, hrun, hall⟩

end Dictionary

namespace Flattens

variable {counter last : Nat} {rs : List Rule} {blocks : List (Rule × List Rule)}

theorem names_heads (h : Flattens counter rs blocks last) :
    blocks.map (fun b => b.1.name) = rs.map Rule.name := by
  induction h with
  | nil => rfl
  | cons hr _ ih =>
    obtain ⟨g, -, hb, -⟩ := Rule.normalize_eq_ok_iff.mp hr
    obtain ⟨rfl, -⟩ := List.cons.inj hb
    simp [ih]

theorem exists_block (h : Flattens counter rs blocks last) {r : Rule} (hr : r ∈ rs) :
    ∃ b ∈ blocks, ∃ counter next, r.normalize counter = .ok (b.1 :: b.2, next) := by
  induction h with
  | nil => cases hr
  | cons hr' _ ih =>
    rcases List.mem_cons.mp hr with rfl | hr
    · exact ⟨_, List.mem_cons_self, _, _, hr'⟩
    · obtain ⟨b, hb, hn⟩ := ih hr
      exact ⟨b, List.mem_cons_of_mem _ hb, hn⟩

theorem names_perm (h : Flattens counter rs blocks last) :
    (rs.map Rule.name ++ (madeRules blocks).map Rule.name).Perm
      ((runRules blocks).map Rule.name) := by
  have hrun : (runRules blocks).map Rule.name =
      blocks.flatMap fun b => b.1.name :: b.2.map Rule.name := by
    simp [runRules, List.map_flatMap]
  have hmade : (madeRules blocks).map Rule.name = blocks.flatMap fun b => b.2.map Rule.name := by
    simp [madeRules, List.map_flatMap]
  rw [hrun, hmade, ← h.names_heads]
  exact List.map_append_flatMap_perm blocks _ _

theorem name_made_not_mem (h : Flattens counter rs blocks last)
    (hn : ((runRules blocks).map Rule.name).Nodup) {b : Rule × List Rule} (hb : b ∈ blocks)
    {r : Rule} (hr : r ∈ b.2) : r.name ∉ rs.map Rule.name := by
  have hnodup := h.names_perm.nodup_iff.mpr hn
  have hmade : r.name ∈ (madeRules blocks).map Rule.name :=
    List.mem_map_of_mem (List.mem_flatMap.mpr ⟨b, hb, hr⟩)
  exact fun hm => (List.nodup_append.mp hnodup).2.2 _ hm _ hmade rfl

end Flattens

namespace Dictionary

variable {d n : Dictionary}

/-- `n` holds each rule of `d` in flat form together with the rules made for it, and those are
named apart from the rules of `d`. -/
structure FlatFormOf (d n : Dictionary) : Prop where
  named : n.Named
  block : ∀ {k r}, d.get? k = some r → ∃ counter next head made,
    r.normalize counter = .ok (head :: made, next) ∧ n.get? k = some head ∧ n.Defines made ∧
      ∀ s ∈ made, s.name ∉ d.keys

/-- The flat dictionary holds the rules of a run, which differ in their names. -/
theorem exists_run_of_normalize {counter : Nat} (h : (d.normalize counter).1 = .ok n) :
    ∃ blocks, Flattens counter d.rules blocks (d.normalize counter).2 ∧
      ((runRules blocks).map Rule.name).Nodup ∧
      n.entries = (runRules blocks).map fun r => (r.name, r) := by
  obtain ⟨blocks, hrun, hall⟩ := normalizeInto_eq_ok_iff.mp (Prod.ext h rfl)
  obtain ⟨hnodup, hentries⟩ := declareAll_eq_ok_iff.mp hall
  exact ⟨blocks, hrun, by simpa [keys, empty] using hnodup, by simpa [empty] using hentries⟩

theorem flatFormOf_normalize (hd : d.Named) {counter : Nat}
    (h : (d.normalize counter).1 = .ok n) : d.FlatFormOf n := by
  obtain ⟨blocks, hrun, hnodup, hentries⟩ := exists_run_of_normalize h
  have hget : ∀ r ∈ runRules blocks, n.get? r.name = some r := fun r hr =>
    get?_eq_some_iff.mpr (hentries ▸ List.mem_map_of_mem hr)
  refine ⟨named_of_entries hentries, fun {k r} hr => ?_⟩
  have hmem : r ∈ d.rules := List.mem_map_of_mem (get?_eq_some_iff.mp hr)
  obtain ⟨⟨head, made⟩, hb, c, next, hflat⟩ := hrun.exists_block hmem
  obtain ⟨g, -, hb', -⟩ := Rule.normalize_eq_ok_iff.mp hflat
  have hname : head.name = k :=
    (congrArg Rule.name (List.cons.inj hb').1).trans (show r.name = k from hd.name_eq hr)
  have hin : ∀ s ∈ head :: made, s ∈ runRules blocks := fun s hs =>
    List.mem_flatMap.mpr ⟨_, hb, hs⟩
  refine ⟨c, next, head, made, hflat, ?_, ?_, ?_⟩
  · exact hname ▸ hget _ (hin _ List.mem_cons_self)
  · exact fun s hs => hget _ (hin _ (List.mem_cons_of_mem _ hs))
  · intro s hs
    rw [hd.keys_eq]
    exact hrun.name_made_not_mem hnodup hb hs

/-- The rules of `n`, those that have a rule of the same name in `d` as they are there. -/
def restore (d n : Dictionary) : Dictionary := n.mapRules fun r => (d.get? r.name).getD r

namespace FlatFormOf

variable {k : String} {φ : Phrase} {w : List Letter}

theorem get?_restore_of_mem (h : d.FlatFormOf n) (hk : k ∈ d.keys) :
    (d.restore n).get? k = d.get? k := by
  obtain ⟨r, hr⟩ := mem_keys_iff.mp hk
  obtain ⟨_, _, head, _, _, hhead, _⟩ := h.block hr
  rw [restore, get?_mapRules, hhead, Option.map_some, h.named.name_eq hhead, hr, Option.getD_some]

theorem get?_restore_of_not_mem (h : d.FlatFormOf n) (hk : k ∉ d.keys) :
    (d.restore n).get? k = n.get? k := by
  rw [restore, get?_mapRules]
  cases hr : n.get? k with
  | none => rfl
  | some r => rw [Option.map_some, h.named.name_eq hr, get?_eq_none_iff.mpr hk, Option.getD_none]

/-- A rule of `d` and its flat form in `n` have bodies that derive the same texts, both in `n` and
next to the rules of `d`. -/
theorem bodies (h : d.FlatFormOf n) {r : Rule} (hr : d.get? k = some r) :
    ∃ head g g', n.get? k = some head ∧ r.group? = some g ∧ head.group? = some g' ∧
      ∀ e, e = n ∨ e = d.restore n → ∀ w,
        Derives e (.symbol (.group g')) w ↔ Derives e (.symbol (.group g)) w := by
  obtain ⟨c, next, head, made, hflat, hhead, hdef, hnew⟩ := h.block hr
  obtain ⟨g, hg, hb, -⟩ := Rule.normalize_eq_ok_iff.mp hflat
  obtain ⟨rfl, rfl⟩ := List.cons.inj hb
  refine ⟨_, g, _, hhead, hg, rfl, fun e he w => ?_⟩
  have hmade : e.Defines (Production.flattenList r.name 1 1 c g.productions).rules := by
    rcases he with rfl | rfl
    · exact hdef
    · exact fun s hs => (h.get?_restore_of_not_mem (hnew s hs)).trans (hdef s hs)
  simp only [Derives.group_iff, Production.derives_flattenList r.name 1 1 c g.productions hmade w]

theorem derives_restore_iff (h : d.FlatFormOf n) :
    Derives n φ w ↔ Derives (d.restore n) φ w := by
  constructor
  · refine Derives.of_bodies fun {k r g v} hr hg hv => ?_
    by_cases hk : k ∈ d.keys
    · obtain ⟨r₀, hr₀⟩ := mem_keys_iff.mp hk
      obtain ⟨head, g₀, g', hhead, hg₀, hg', hbody⟩ := h.bodies hr₀
      obtain rfl := Option.some.inj (hhead.symm.trans hr)
      obtain rfl := Option.some.inj (hg'.symm.trans hg)
      exact .reference ((h.get?_restore_of_mem hk).trans hr₀) hg₀ ((hbody _ (.inr rfl) v).mp hv)
    · exact .reference ((h.get?_restore_of_not_mem hk).trans hr) hg hv
  · refine Derives.of_bodies fun {k r g v} hr hg hv => ?_
    by_cases hk : k ∈ d.keys
    · rw [h.get?_restore_of_mem hk] at hr
      obtain ⟨head, g₀, g', hhead, hg₀, hg', hbody⟩ := h.bodies hr
      obtain rfl := Option.some.inj (hg₀.symm.trans hg)
      exact .reference hhead hg' ((hbody _ (.inl rfl) v).mpr hv)
    · exact .reference (h.get?_restore_of_not_mem hk ▸ hr) hg hv

end FlatFormOf

theorem Closed.confines (closed : d.Closed) : d.Confines (· ∈ d.keys) := fun {_ r} _ hr n hn =>
  closed n (List.mem_flatMap.mpr ⟨r, List.mem_map_of_mem (get?_eq_some_iff.mp hr), hn⟩)

/-- Normalization keeps the texts that each rule derives. -/
theorem derives_normalize_iff {counter : Nat} (named : d.Named) (closed : d.Closed)
    (h : (d.normalize counter).1 = .ok n) {k : String} (hk : k ∈ d.keys) (w : List Letter) :
    n.derives k w ↔ d.derives k w := by
  have hflat := flatFormOf_normalize named h
  have within : (Phrase.symbol (.nonTerminal k)).Within (· ∈ d.keys) := by
    simpa [Phrase.Within, Phrase.symbols, Symbol.withInner] using hk
  calc
    n.derives k w ↔ (d.restore n).derives k w := hflat.derives_restore_iff
    _ ↔ d.derives k w := (Derives.confined_iff closed.confines
      (fun k hk => hflat.get?_restore_of_mem hk) within).symm

/-- `a: ('x' b+ | )* [a]` and `b: B`. -/
def bracketed : Dictionary :=
  .ofList [("a", .ofBody "a" [[
      ⟨.group ⟨false, false, [[.once (.literal "x"), ⟨.nonTerminal "b", .plus⟩], []]⟩, .star⟩,
      .once (.group ⟨true, false, [[.once (.nonTerminal "a")]]⟩)]]),
    ("b", .ofBody "b" [[.once (.terminal "B")]])]

theorem derives_normalize_bracketed :
    ∃ n, bracketed.Named ∧ bracketed.Closed ∧ (bracketed.normalize 7).1 = .ok n ∧
      n.keys = ["a", "a__lst_1__7", "a__lst_1__7__grp_1__8", "a__lst_1__7__grp_1__8__lst_1__9",
        "a__opt_grp_2__10", "b"] ∧
      "a" ∈ bracketed.keys ∧ ∀ w, n.derives "a" w ↔ bracketed.derives "a" w := by
  have hrun : ∃ n, (bracketed.normalize 7).1 = .ok n ∧
      n.keys = ["a", "a__lst_1__7", "a__lst_1__7__grp_1__8", "a__lst_1__7__grp_1__8__lst_1__9",
        "a__opt_grp_2__10", "b"] := ⟨_, rfl, by decide⟩
  obtain ⟨n, hn, hkeys⟩ := hrun
  exact ⟨n, by decide, by decide, hn, hkeys, by decide,
    derives_normalize_iff (by decide) (by decide) hn (by decide)⟩

end Dictionary

end GrammarForge
