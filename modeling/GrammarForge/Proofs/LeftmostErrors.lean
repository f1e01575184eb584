import GrammarForge.Proofs.RuleReading
import Mathlib.Data.List.Induction

/-!
Where reading the body of a rule fails. Whatever has been read can be completed to a valid body, so
an error is about the first token that no valid body can have in its place; and where there is no
such token, a bracket is left open.
-/

namespace GrammarForge

def IsBody (ts : List Token) : Prop := ts ≠ [] ∧ ∃ ps, Spells ts (.alternatives ps)

/-- Tokens that a valid body can start with. -/
def Viable (ts : List Token) : Prop := ∃ us, IsBody (ts ++ us)

def significant (ts : List Token) : List Token := ts.filter (! ·.kind.isLayout)

/-- The first token of a body, the one behind `front`, up to which the tokens that count are not the
start of a valid body. -/
structure FirstFault (body front : List Token) (t : Token) : Prop where
  stands : front ++ [t] <+: body
  viable : ∀ us, us <+: front → Viable (significant us)
  fault : ¬ Viable (significant (front ++ [t]))

def Token.problem (rule : String) (t : Token) : Problem :=
  match t.kind with
  | .name =>
    if Text.isUpperWord t.text || Text.isLowerWord t.text then .unexpectedToken rule t
    else .mixedCaseName rule t.text
  | .op .star | .op .plus => .danglingRepetition rule t.position.line
  | _ => .unexpectedToken rule t

namespace Progress

variable {rule : String} {s s' s'' : Progress} {t : Token} {ts us : List Token}

theorem elim_error_eq_error_iff {α : Type} {o : Option α} {f : α → Progress} {e e' : Problem} :
    o.elim (Except.error e) (fun a => .ok (f a)) = .error e' ↔ o = none ∧ e = e' := by
  cases o <;> simp

theorem problem_of_step {e : Problem} (h : s.step rule t = .error e) : e = t.problem rule := by
  unfold step at h
  split at h
  case h_1 => cases h
  case h_2 => cases h
  case h_3 => cases h
  case h_4 hk =>
    obtain ⟨-, rfl⟩ := (elim_error_eq_error_iff (f := id)).mp h
    simp [Token.problem, hk]
  case h_5 hk =>
    obtain ⟨-, rfl⟩ := (elim_error_eq_error_iff (f := id)).mp h
    simp [Token.problem, hk]
  case h_6 hk =>
    obtain ⟨-, rfl⟩ := elim_error_eq_error_iff.mp h
    simp [Token.problem, hk]
  case h_7 hk =>
    obtain ⟨-, rfl⟩ := elim_error_eq_error_iff.mp h
    simp [Token.problem, hk]
  case h_8 hk =>
    obtain ⟨hs, rfl⟩ := elim_error_eq_error_iff.mp h
    have hcase := wordSymbol?_eq_none_iff.mp hs
    simp [Token.problem, hk, hcase]
  case h_9 => cases h
  case h_10 =>
    cases h
    unfold Token.problem
    split <;> simp_all

namespace Runs

theorem append_iff : Runs (ts ++ us) s s'' ↔ ∃ s', Runs ts s s' ∧ Runs us s' s'' := by
  constructor
  · intro h
    induction ts generalizing s with
    | nil => exact ⟨s, .nil, h⟩
    | cons t ts ih =>
      cases h with
      | cons ht h =>
        obtain ⟨s', hts, hus⟩ := ih h
        exact ⟨s', .cons ht hts, hus⟩
  · rintro ⟨s', h, h'⟩
    exact h.append h'

theorem exists_close (s : Progress) : ∃ us d, Runs us s ⟨d, []⟩ := by
  obtain ⟨d, e⟩ := s
  induction e generalizing d with
  | nil => exact ⟨[], d, .nil⟩
  | cons frame e ih =>
    obtain ⟨b, outer⟩ := frame
    obtain ⟨us, d', h⟩ := ih (outer.push (.once (.group ⟨b == .square, false, d.productions⟩)))
    exact ⟨⟨b.closing, none, .start⟩ :: us, d', .cons (.closes rfl) h⟩

end Runs
end Progress

section Viable

variable {rule : String} {ts us front body : List Token} {t : Token}

/-- What can be read up to some state can be completed from there. -/
theorem viable_iff : Viable ts ↔ ∃ s, Progress.Runs ts .start s := by
  constructor
  · rintro ⟨us, -, ps, h⟩
    obtain ⟨s, hs, -⟩ := Progress.Runs.append_iff.mp (h.runs .empty [])
    exact ⟨s, hs⟩
  · rintro ⟨s, h⟩
    -- Another alternative can always start, which makes the body one that is not empty.
    obtain ⟨us, d, hclose⟩ := Progress.Runs.exists_close ⟨s.draft.next, s.enclosing⟩
    have hbar : Progress.Runs (⟨.op .pipe, none, .start⟩ :: us) s ⟨d, []⟩ := .cons (.bar rfl) hclose
    exact ⟨⟨.op .pipe, none, .start⟩ :: us, by simp, d.productions, (h.append hbar).spells⟩

theorem viable_iff_isOk (rule : String) :
    Viable ts ↔ (ts.foldlM (Progress.step rule) .start).isOk = true := by
  rw [viable_iff]
  simp only [← Progress.foldlM_step_eq_ok_iff rule]
  cases ts.foldlM (Progress.step rule) .start <;> simp [Except.isOk, Except.toBool]

instance (ts : List Token) : Decidable (Viable ts) := decidable_of_iff _ (viable_iff_isOk "").symm

theorem Viable.of_isPrefix (h : Viable us) (hts : ts <+: us) : Viable ts := by
  obtain ⟨vs, rfl⟩ := hts
  obtain ⟨ws, h⟩ := h
  exact ⟨vs ++ ws, by simpa using h⟩

/-- Reading fails at a token that goes beyond every valid body. -/
theorem readBody_of_fault (hfront : Viable ts) (ht : ¬ Viable (ts ++ [t])) :
    readBody rule (ts ++ t :: us) = .error (t.problem rule) := by
  obtain ⟨s, hs⟩ := viable_iff.mp hfront
  cases hstep : s.step rule t with
  | ok s' => exact absurd (viable_iff.mpr ⟨s', hs.snoc (Progress.step_eq_ok_iff.mp hstep)⟩) ht
  | error e =>
    rw [readBody, List.foldlM_append, (Progress.foldlM_step_eq_ok_iff rule).mpr hs]
    simp [hstep, Progress.problem_of_step hstep, bind, Except.bind]

/-- The start of a valid body is one itself, or it leaves a bracket open. -/
theorem readBody_of_viable {e : Problem} (h : Viable ts) (he : readBody rule ts = .error e) :
    e = .unclosedGroup rule := by
  obtain ⟨s, hs⟩ := viable_iff.mp h
  rw [readBody, (Progress.foldlM_step_eq_ok_iff rule).mpr hs] at he
  simp only [bind, Except.bind] at he
  split at he
  · cases he
  · exact (Except.error.inj he).symm

theorem significant_append : significant (ts ++ us) = significant ts ++ significant us :=
  List.filter_append ts us

theorem Viable.significant_of_isPrefix (h : Viable (significant us)) (hts : ts <+: us) :
    Viable (significant ts) := h.of_isPrefix (hts.filter _)

theorem firstFault_iff : FirstFault body front t ↔
    front ++ [t] <+: body ∧ Viable (significant front) ∧ ¬ Viable (significant (front ++ [t])) :=
  ⟨fun h => ⟨h.stands, h.viable front List.prefix_rfl, h.fault⟩,
    fun ⟨hstands, hviable, hfault⟩ =>
      ⟨hstands, fun _ => hviable.significant_of_isPrefix, hfault⟩⟩

instance (body front : List Token) (t : Token) : Decidable (FirstFault body front t) :=
  decidable_of_iff _ firstFault_iff.symm

theorem FirstFault.not_viable (h : FirstFault body front t) : ¬ Viable (significant body) :=
  fun hbody => h.fault (hbody.significant_of_isPrefix h.stands)

theorem FirstFault.isLayout_eq_false (h : FirstFault body front t) : t.kind.isLayout = false := by
  by_contra ht
  have hsame : significant (front ++ [t]) = significant front := by
    rw [significant_append]
    simp [significant, ht]
  exact h.fault (hsame ▸ h.viable front List.prefix_rfl)

/-- Without a token at fault every start of the body is the start of a valid one. -/
theorem viable_of_not_firstFault (h : ∀ front t, ¬ FirstFault body front t) :
    ∀ us, us <+: body → ∀ vs, vs <+: us → Viable (significant vs) := by
  intro us
  induction us using List.reverseRecOn with
  | nil =>
    intro _ vs hvs
    rw [List.prefix_nil.mp hvs]
    exact viable_iff.mpr ⟨_, .nil⟩
  | append_singleton us t ih =>
    intro hbody vs hvs
    have hus := ih ((List.prefix_append us [t]).trans hbody)
    rcases List.prefix_concat_iff.mp hvs with rfl | hvs
    · by_contra hfault
      exact h us t ⟨hbody, hus, hfault⟩
    · exact hus vs hvs

end Viable

/-- An error in the body of a rule is about the first token up to which the body is not the start of
a valid one; where there is no such token, a group is not closed. -/
theorem Rule.ofTokens_leftmost {name colon : Token} {body : List Token} {e : Problem}
    (hn : name.kind = .name) (hc : colon.kind = .op .colon)
    (hbody : ∃ t ∈ body, t.kind.isLayout = false)
    (h : Rule.ofTokens (name :: colon :: body) = .error e) :
    (∀ front t, FirstFault body front t → e = t.problem name.text) ∧
      ((¬ ∃ front t, FirstFault body front t) → e = .unclosedGroup name.text) := by
  have hread : readBody name.text (significant body) = .error e := by
    obtain ⟨t, ht, hcounts⟩ := hbody
    have hne : (significant body).isEmpty = false :=
      List.isEmpty_eq_false_iff_exists_mem.mpr ⟨t, by simp [significant, ht, hcounts]⟩
    rw [Rule.ofTokens_eq hn hc, ← significant, hne, if_neg (by simp)] at h
    cases hr : readBody name.text (significant body) with
    | ok ps =>
      rw [hr] at h
      cases h
    | error e' =>
      rw [hr] at h
      exact congrArg Except.error (Except.error.inj h)
  constructor
  · intro front t hfault
    obtain ⟨us, rfl⟩ := hfault.stands
    have ht : significant [t] = [t] := by simp [significant, hfault.isLayout_eq_false]
    have hfront := hfault.viable front List.prefix_rfl
    have hlast := hfault.fault
    rw [significant_append, ht] at hlast
    rw [significant_append, significant_append, ht, List.append_assoc, List.singleton_append,
      readBody_of_fault hfront hlast] at hread
    exact (Except.error.inj hread).symm
  · intro hnone
    have hviable := viable_of_not_firstFault (fun front t hfault => hnone ⟨front, t, hfault⟩) body
      List.prefix_rfl body List.prefix_rfl
    exact readBody_of_viable hviable hread

/-- The tokens of `a:` in front of a body. -/
def headed (body : List Token) : List Token :=
  ⟨.name, some "a", ⟨1, 1⟩⟩ :: ⟨.op .colon, none, ⟨1, 2⟩⟩ :: body

/-- `x ( y ] Zz` on an indented line. -/
def mismatched : List Token :=
  [⟨.newline, none, ⟨1, 3⟩⟩, ⟨.indent, none, ⟨2, 3⟩⟩, ⟨.name, some "x", ⟨2, 3⟩⟩,
    ⟨.op .lPar, none, ⟨2, 5⟩⟩, ⟨.name, some "y", ⟨2, 7⟩⟩, ⟨.op .rSqr, none, ⟨2, 9⟩⟩,
    ⟨.name, some "Zz", ⟨2, 11⟩⟩]

/-- `x Zz`. -/
def capitalized : List Token :=
  [⟨.name, some "x", ⟨1, 4⟩⟩, ⟨.name, some "Zz", ⟨1, 6⟩⟩]

/-- `( *`. -/
def dangling : List Token := [⟨.op .lPar, none, ⟨1, 4⟩⟩, ⟨.op .star, none, ⟨1, 6⟩⟩]

/-- The bracket is at fault and the name behind it is not looked at. Up to the bracket nothing is,
but for the end. A name of mixed case and a mark with nothing in front of it are at fault by
themselves. -/
theorem Rule.ofTokens_leftmost_mismatched :
    (∃ e, Rule.ofTokens (headed mismatched) = .error e ∧
      FirstFault mismatched (mismatched.take 5) ⟨.op .rSqr, none, ⟨2, 9⟩⟩ ∧
      e = .unexpectedToken "a" ⟨.op .rSqr, none, ⟨2, 9⟩⟩) ∧
    (∃ e, Rule.ofTokens (headed (mismatched.take 5)) = .error e ∧
      (¬ ∃ front t, FirstFault (mismatched.take 5) front t) ∧ e = .unclosedGroup "a") ∧
    (∃ e, Rule.ofTokens (headed capitalized) = .error e ∧
      FirstFault capitalized (capitalized.take 1) ⟨.name, some "Zz", ⟨1, 6⟩⟩ ∧
      e = .mixedCaseName "a" "Zz") ∧
    ∃ e, Rule.ofTokens (headed dangling) = .error e ∧
      FirstFault dangling (dangling.take 1) ⟨.op .star, none, ⟨1, 6⟩⟩ ∧
      e = .danglingRepetition "a" 1 := by
  have hviable : Viable (significant (mismatched.take 5)) := by decide +kernel
  have hnone : ¬ ∃ front t, FirstFault (mismatched.take 5) front t :=
    fun ⟨front, t, h⟩ => h.not_viable hviable
  have hbracket : FirstFault mismatched (mismatched.take 5) ⟨.op .rSqr, none, ⟨2, 9⟩⟩ := by
    decide +kernel
  have hname : FirstFault capitalized (capitalized.take 1) ⟨.name, some "Zz", ⟨1, 6⟩⟩ := by
    decide +kernel
  have hmark : FirstFault dangling (dangling.take 1) ⟨.op .star, none, ⟨1, 6⟩⟩ := by
    decide +kernel
  obtain ⟨e₁, he₁⟩ : ∃ e, Rule.ofTokens (headed mismatched) = .error e := ⟨_, rfl⟩
  obtain ⟨e₂, he₂⟩ : ∃ e, Rule.ofTokens (headed (mismatched.take 5)) = .error e := ⟨_, rfl⟩
  obtain ⟨e₃, he₃⟩ : ∃ e, Rule.ofTokens (headed capitalized) = .error e := ⟨_, rfl⟩
  obtain ⟨e₄, he₄⟩ : ∃ e, Rule.ofTokens (headed dangling) = .error e := ⟨_, rfl⟩
  have h₁ := (Rule.ofTokens_leftmost rfl rfl (by decide) he₁).1 _ _ hbracket
  have h₂ := (Rule.ofTokens_leftmost rfl rfl (by decide) he₂).2 hnone
  have h₃ := (Rule.ofTokens_leftmost rfl rfl (by decide) he₃).1 _ _ hname
  have h₄ := (Rule.ofTokens_leftmost rfl rfl (by decide) he₄).1 _ _ hmark
  have hproblem : Token.problem "a" ⟨.name, some "Zz", ⟨1, 6⟩⟩ = .mixedCaseName "a" "Zz" := by
    decide +kernel
  exact ⟨⟨e₁, he₁, hbracket, h₁⟩, ⟨e₂, he₂, hnone, h₂⟩,
    ⟨e₃, he₃, hname, h₃.trans hproblem⟩, ⟨e₄, he₄, hmark, h₄⟩⟩

end GrammarForge
