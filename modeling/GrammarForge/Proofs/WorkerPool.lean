import Mathlib.Data.List.Forall2
import Mathlib.Logic.Relation

/-!
Jobs that workers take up side by side. In whatever order they finish, their outputs are in the
order of the jobs; where some of them fail, the pool ends with the error of one of these, and it may
be any of them.
-/

namespace GrammarForge

/-- What has become of a job. The result of a waiting one is the result that it is going to have. -/
inductive Slot (ε β : Type) where
  | waiting (result : Except ε β)
  | ready (output : β)
  | dropped

namespace Slot

variable {ε β : Type}

def output? : Slot ε β → Option β
  | .ready output => some output
  | _ => none

def IsOver : Slot ε β → Prop
  | .waiting _ => False
  | _ => True

/-- A slot as it may be for a job with this result. Only behind a failure is it without it. -/
inductive Fits (faulty : Prop) : Slot ε β → Except ε β → Prop
  | waiting (result : Except ε β) : Fits faulty (.waiting result) result
  | ready (output : β) : Fits faulty (.ready output) (.ok output)
  | dropped (result : Except ε β) : faulty → Fits faulty .dropped result

end Slot

/-- A slot for each job, in the order of the jobs, and the error that has been kept. -/
structure Pool (ε β : Type) where
  slots : List (Slot ε β)
  fault? : Option ε

namespace Pool

variable {ε β : Type} {p q : Pool ε β} {results : List (Except ε β)}

def start (results : List (Except ε β)) : Pool ε β := ⟨results.map .waiting, none⟩

/-- The next event in a pool, of any job that waits. -/
inductive Step : Pool ε β → Pool ε β → Prop
  | finish (before after : List (Slot ε β)) (output : β) (fault? : Option ε) :
    Step ⟨before ++ .waiting (.ok output) :: after, fault?⟩
      ⟨before ++ .ready output :: after, fault?⟩
  /-- Of several errors any one may be kept. -/
  | fail (before after : List (Slot ε β)) (error kept : ε) (fault? : Option ε) :
    kept ∈ error :: fault?.toList →
    Step ⟨before ++ .waiting (.error error) :: after, fault?⟩
      ⟨before ++ .dropped :: after, some kept⟩
  /-- Behind a failure a job may be passed over. -/
  | skip (before after : List (Slot ε β)) (result : Except ε β) (fault : ε) :
    Step ⟨before ++ .waiting result :: after, some fault⟩
      ⟨before ++ .dropped :: after, some fault⟩

def IsDone (p : Pool ε β) : Prop := ∀ s ∈ p.slots, s.IsOver

def outcome (p : Pool ε β) : Except ε (List β) :=
  match p.fault? with
  | some fault => .error fault
  | none => .ok (p.slots.filterMap Slot.output?)

/-- A pool of jobs with these results can come to an end with this outcome. -/
def Yields (results : List (Except ε β)) (outcome : Except ε (List β)) : Prop :=
  ∃ p, Relation.ReflTransGen Step (start results) p ∧ p.IsDone ∧ p.outcome = outcome

/-- A pool as it may be while jobs with these results are under way. -/
structure Follows (p : Pool ε β) (results : List (Except ε β)) : Prop where
  slots : List.Forall₂ (Slot.Fits (∃ fault, p.fault? = some fault)) p.slots results
  fault : ∀ fault, p.fault? = some fault → .error fault ∈ results

theorem follows_start (results : List (Except ε β)) : (start results).Follows results where
  slots := List.forall₂_map_left_iff.mpr (List.forall₂_same.mpr fun r _ => .waiting r)
  fault _ h := by cases h

theorem forall₂_replace {α γ : Type} {R R' : α → γ → Prop} {before after : List α} {x x' : α}
    {ys : List γ} (h : List.Forall₂ R (before ++ x :: after) ys) (hkeep : ∀ z y, R z y → R' z y)
    (hx : ∀ y, R x y → R' x' y) : List.Forall₂ R' (before ++ x' :: after) ys ∧ ∃ y ∈ ys, R x y := by
  induction before generalizing ys with
  | nil =>
    cases h with
    | cons hy hys => exact ⟨.cons (hx _ hy) (hys.imp hkeep), _, List.mem_cons_self, hy⟩
  | cons z before ih =>
    cases h with
    | cons hz hys =>
      obtain ⟨hys', y, hy, hxy⟩ := ih hys
      exact ⟨.cons (hkeep _ _ hz) hys', y, List.mem_cons_of_mem _ hy, hxy⟩

theorem Step.follows (hstep : Step p q) (h : p.Follows results) : q.Follows results := by
  obtain ⟨hslots, hfault⟩ := h
  cases hstep with
  | finish before after output fault? =>
    refine ⟨(forall₂_replace hslots (fun _ _ h => h) fun r h => ?_).1, hfault⟩
    cases h
    exact .ready output
  | fail before after error kept fault? hkept =>
    have hkeep : ∀ (s : Slot ε β) (r : Except ε β), s.Fits (∃ fault, fault? = some fault) r →
        s.Fits (∃ fault, some kept = some fault) r := by
      intro s r h
      cases h with
      | waiting => exact .waiting r
      | ready output => exact .ready output
      | dropped => exact .dropped r ⟨kept, rfl⟩
    obtain ⟨hslots, r, hr, hwaiting⟩ :=
      forall₂_replace hslots hkeep fun r _ => .dropped r ⟨kept, rfl⟩
    refine ⟨hslots, fun fault h => ?_⟩
    cases h
    rcases List.mem_cons.mp hkept with rfl | hkept
    · cases hwaiting
      exact hr
    · exact hfault kept (Option.mem_toList.mp hkept)
  | skip before after result fault =>
    exact ⟨(forall₂_replace hslots (fun _ _ h => h) fun r _ => .dropped r ⟨fault, rfl⟩).1, hfault⟩

theorem follows_of_reaches (h : Relation.ReflTransGen Step (start results) p) :
    p.Follows results := by
  induction h with
  | refl => exact follows_start results
  | tail _ hstep ih => exact hstep.follows ih

theorem map_output_of_forall₂ {slots : List (Slot ε β)}
    (h : List.Forall₂ (Slot.Fits False) slots results) (hover : ∀ s ∈ slots, s.IsOver) :
    results = (slots.filterMap Slot.output?).map .ok := by
  induction h with
  | nil => rfl
  | @cons s r slots results hs hslots ih =>
    obtain ⟨hsover, hrest⟩ := List.forall_mem_cons.mp hover
    cases hs with
    | waiting => exact hsover.elim
    | ready output => exact congrArg (.ok output :: ·) (ih hrest)
    | dropped _ hfaulty => exact hfaulty.elim

theorem Follows.outcome_cases (h : p.Follows results) (hdone : p.IsDone) :
    (∃ outputs, results = outputs.map .ok ∧ p.outcome = .ok outputs) ∨
      ∃ fault, .error fault ∈ results ∧ p.outcome = .error fault := by
  obtain ⟨slots, fault?⟩ := p
  cases fault? with
  | some fault => exact .inr ⟨fault, h.fault fault rfl, rfl⟩
  | none =>
    have hslots : List.Forall₂ (Slot.Fits False) slots results := by simpa using h.slots
    exact .inl ⟨_, map_output_of_forall₂ hslots hdone, rfl⟩

theorem reaches_ready (done todo : List β) :
    Relation.ReflTransGen Step
      (⟨done.map .ready ++ todo.map fun output => .waiting (.ok output), none⟩ : Pool ε β)
      ⟨(done ++ todo).map .ready, none⟩ := by
  induction todo generalizing done with
  | nil => simpa using .refl
  | cons output todo ih =>
    have hstep : Step
        (⟨done.map .ready ++ (output :: todo).map fun output => .waiting (.ok output), none⟩ :
          Pool ε β)
        ⟨(done ++ [output]).map .ready ++ todo.map fun output => .waiting (.ok output), none⟩ := by
      simpa using Step.finish (done.map .ready) (todo.map fun output => .waiting (.ok output))
        output (none : Option ε)
    have hrest := ih (done ++ [output])
    rw [List.append_assoc] at hrest
    exact .head hstep hrest

theorem exists_reaches_over (before slots : List (Slot ε β)) (fault : ε) :
    ∃ slots', Relation.ReflTransGen Step ⟨before ++ slots, some fault⟩
      ⟨before ++ slots', some fault⟩ ∧ ∀ s ∈ slots', s.IsOver := by
  induction slots generalizing before with
  | nil => exact ⟨[], .refl, nofun⟩
  | cons s slots ih =>
    have hstep : ∃ s' : Slot ε β, Relation.ReflTransGen Step ⟨before ++ s :: slots, some fault⟩
        ⟨before ++ s' :: slots, some fault⟩ ∧ s'.IsOver := by
      cases s with
      | waiting result => exact ⟨.dropped, .single (.skip before slots result fault), trivial⟩
      | ready output => exact ⟨.ready output, .refl, trivial⟩
      | dropped => exact ⟨.dropped, .refl, trivial⟩
    obtain ⟨s', hreach, hover⟩ := hstep
    obtain ⟨slots', hrest, hovers⟩ := ih (before ++ [s'])
    rw [List.append_assoc, List.append_assoc] at hrest
    exact ⟨s' :: slots', hreach.trans hrest, List.forall_mem_cons.mpr ⟨hover, hovers⟩⟩

/-- A pool ends with all outputs in order, or with any of the errors. -/
theorem yields_iff {outcome : Except ε (List β)} : Yields results outcome ↔
    (∃ outputs, results = outputs.map .ok ∧ outcome = .ok outputs) ∨
      ∃ fault, .error fault ∈ results ∧ outcome = .error fault := by
  constructor
  · rintro ⟨p, hreach, hdone, rfl⟩
    exact (follows_of_reaches hreach).outcome_cases hdone
  · rintro (⟨outputs, rfl, rfl⟩ | ⟨fault, hfault, rfl⟩)
    · have hreach : Relation.ReflTransGen Step (start (outputs.map (.ok : β → Except ε β)))
          ⟨outputs.map .ready, none⟩ := by
        simpa [start, Function.comp_def] using reaches_ready [] outputs
      refine ⟨_, hreach, ?_, ?_⟩
      · simp [IsDone, Slot.IsOver]
      · simp [outcome, List.filterMap_map, Function.comp_def, Slot.output?]
    · obtain ⟨before, after, rfl⟩ := List.append_of_mem hfault
      have hfail := Step.fail (before.map .waiting) (after.map .waiting) fault fault none
        List.mem_cons_self
      obtain ⟨slots, hreach, hover⟩ := exists_reaches_over [] (before.map Slot.waiting ++
        (.dropped : Slot ε β) :: after.map .waiting) fault
      exact ⟨⟨slots, some fault⟩, .head (by simpa [start] using hfail) hreach, hover, rfl⟩

section OneByOne

variable {α : Type} {f : α → Except ε β}

theorem mapM_cases (f : α → Except ε β) (xs : List α) :
    (∃ ys, xs.map f = ys.map .ok ∧ xs.mapM f = .ok ys) ∨
      ∃ fault, .error fault ∈ xs.map f ∧ xs.mapM f = .error fault := by
  induction xs with
  | nil => exact .inl ⟨[], rfl, rfl⟩
  | cons x xs ih =>
    rw [List.map_cons, List.mapM_cons]
    cases hx : f x with
    | error fault => exact .inr ⟨fault, List.mem_cons_self, rfl⟩
    | ok y =>
      obtain ⟨ys, hys, hrun⟩ | ⟨fault, hfault, hrun⟩ := ih
      · exact .inl ⟨y :: ys, by rw [hys, List.map_cons], by rw [hrun]; rfl⟩
      · exact .inr ⟨fault, List.mem_cons_of_mem _ hfault, by rw [hrun]; rfl⟩

theorem yields_mapM (f : α → Except ε β) (xs : List α) :
    Yields (xs.map f) (xs.mapM f) :=
  yields_iff.mpr (mapM_cases f xs)

theorem eq_mapM_of_yields {xs : List α} {outcome : Except ε (List β)}
    (halike : ∀ e e', .error e ∈ xs.map f → .error e' ∈ xs.map f → e = e')
    (h : Yields (xs.map f) outcome) : outcome = xs.mapM f := by
  have hclash : ∀ {ys : List β} {e : ε}, xs.map f = ys.map .ok → .error e ∈ xs.map f → False := by
    intro ys e hys he
    rw [hys] at he
    obtain ⟨y, -, hy⟩ := List.mem_map.mp he
    cases hy
  obtain ⟨ys, hys, rfl⟩ | ⟨e, he, rfl⟩ := yields_iff.mp h <;>
  obtain ⟨zs, hzs, hrun⟩ | ⟨e', he', hrun⟩ := mapM_cases f xs
  · have hinjective : Function.Injective (Except.ok : β → Except ε β) := fun _ _ => Except.ok.inj
    rw [hrun, List.map_injective_iff.mpr hinjective (hys.symm.trans hzs)]
  · exact (hclash hys he').elim
  · exact (hclash hzs he).elim
  · rw [hrun, halike e e' he he']

end OneByOne

end Pool

end GrammarForge
