/-!
The order of texts by code points, and lists kept in strictly increasing order.
-/

namespace GrammarForge
namespace Text

/-- The first difference decides; a text comes after each of its beginnings. -/
def charsLe : List Char → List Char → Bool
  | [], _ => true
  | _ :: _, [] => false
  | a :: as, b :: bs => if a = b then charsLe as bs else decide (a.toNat < b.toNat)

def le (s t : String) : Bool := charsLe s.toList t.toList

theorem charsLe_total (s t : List Char) : charsLe s t || charsLe t s := by
  induction s generalizing t with
  | nil => simp [charsLe]
  | cons a as ih =>
    cases t with
    | nil => simp [charsLe]
    | cons b bs =>
      by_cases h : a = b
      · simpa [charsLe, h] using ih bs
      · have hn : a.toNat ≠ b.toNat := fun e => h (Char.toNat_inj.mp e)
        simp only [charsLe, h, Ne.symm h, if_false, Bool.or_eq_true, decide_eq_true_eq]
        omega

theorem charsLe_trans {s t u : List Char} (hst : charsLe s t) (htu : charsLe t u) :
    charsLe s u := by
  induction s generalizing t u with
  | nil => simp [charsLe]
  | cons a as ih =>
    cases t with
    | nil => simp [charsLe] at hst
    | cons b bs =>
      cases u with
      | nil => simp [charsLe] at htu
      | cons c cs =>
        by_cases hab : a = b <;> by_cases hbc : b = c
        · subst hab hbc
          simp only [charsLe, if_true] at hst htu ⊢
          exact ih hst htu
        · subst hab
          simpa [charsLe, hbc] using htu
        · subst hbc
          simpa [charsLe, hab] using hst
        · simp only [charsLe, hab, hbc, if_false, decide_eq_true_eq] at hst htu
          have hac : a ≠ c := fun e => by
            subst e
            omega
          simp only [charsLe, hac, if_false, decide_eq_true_eq]
          omega

theorem charsLe_antisymm {s t : List Char} (hst : charsLe s t) (hts : charsLe t s) : s = t := by
  induction s generalizing t with
  | nil =>
    cases t with
    | nil => rfl
    | cons b bs => simp [charsLe] at hts
  | cons a as ih =>
    cases t with
    | nil => simp [charsLe] at hst
    | cons b bs =>
      by_cases h : a = b
      · subst h
        simp only [charsLe, if_true] at hst hts
        rw [ih hst hts]
      · simp only [charsLe, h, Ne.symm h, if_false, decide_eq_true_eq] at hst hts
        omega

theorem le_total (s t : String) : le s t || le t s := charsLe_total _ _

theorem le_trans {s t u : String} (hst : le s t) (htu : le t u) : le s u := charsLe_trans hst htu

theorem le_antisymm {s t : String} (hst : le s t) (hts : le t s) : s = t :=
  String.toList_inj.mp (charsLe_antisymm hst hts)

/-- Insert into a list in increasing order of keys, unless the key is there. -/
def insertNew (key : α → String) (x : α) : List α → List α
  | [] => [x]
  | y :: ys =>
    if key x = key y then y :: ys
    else if le (key x) (key y) then x :: y :: ys
    else y :: insertNew key x ys

def sortedBy (key : α → String) (xs : List α) : List α := xs.foldr (insertNew key) []

def Increasing (key : α → String) (xs : List α) : Prop :=
  xs.Pairwise fun x y => le (key x) (key y) ∧ key x ≠ key y

theorem mem_key_insertNew {key : α → String} {x : α} {xs : List α} {k : String} :
    k ∈ (insertNew key x xs).map key ↔ k = key x ∨ k ∈ xs.map key := by
  induction xs with
  | nil => simp [insertNew]
  | cons y ys ih =>
    by_cases h : key x = key y
    · simp only [insertNew, h, if_true, List.map_cons, List.mem_cons]
      constructor
      · exact Or.inr
      · rintro (hk | hk)
        · exact Or.inl hk
        · exact hk
    · by_cases hle : le (key x) (key y)
      · simp [insertNew, h, hle]
      · rw [insertNew, if_neg h, if_neg hle, List.map_cons, List.mem_cons, ih, List.map_cons,
          List.mem_cons]
        exact or_left_comm

theorem Increasing.insertNew {key : α → String} {x : α} {xs : List α}
    (h : Increasing key xs) : Increasing key (Text.insertNew key x xs) := by
  induction xs with
  | nil => simp [Increasing, Text.insertNew]
  | cons y ys ih =>
    obtain ⟨hy, hys⟩ := List.pairwise_cons.mp h
    by_cases hk : key x = key y
    · simpa [Text.insertNew, hk] using h
    · by_cases hle : le (key x) (key y)
      · simp only [Text.insertNew, hk, hle, if_false, if_true]
        refine List.pairwise_cons.mpr ⟨fun z hz => ?_, h⟩
        rcases List.mem_cons.mp hz with rfl | hz
        · exact ⟨hle, hk⟩
        · refine ⟨le_trans hle (hy z hz).1, fun e => ?_⟩
          exact hk (le_antisymm hle (e ▸ (hy z hz).1))
      · simp only [Text.insertNew, hk, hle, if_false]
        refine List.pairwise_cons.mpr ⟨fun z hz => ?_, ih hys⟩
        have hyx : le (key y) (key x) := by simpa [hle] using le_total (key x) (key y)
        have hm := mem_key_insertNew.mp (List.mem_map.mpr ⟨z, hz, rfl⟩)
        rcases hm with e | hm
        · exact ⟨e ▸ hyx, fun e' => hk (e'.trans e).symm⟩
        · obtain ⟨w, hw, e⟩ := List.mem_map.mp hm
          exact ⟨e ▸ (hy w hw).1, e ▸ (hy w hw).2⟩

theorem mem_key_sortedBy {key : α → String} {xs : List α} {k : String} :
    k ∈ (sortedBy key xs).map key ↔ k ∈ xs.map key := by
  induction xs with
  | nil => simp [sortedBy]
  | cons x xs ih =>
    rw [show sortedBy key (x :: xs) = insertNew key x (sortedBy key xs) from rfl,
      mem_key_insertNew, ih]
    simp [eq_comm]

theorem increasing_sortedBy (key : α → String) (xs : List α) :
    Increasing key (sortedBy key xs) := by
  induction xs with
  | nil => simp [sortedBy, Increasing]
  | cons x xs ih => exact ih.insertNew

end Text
end GrammarForge
