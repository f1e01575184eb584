import Mathlib.Data.List.Nodup
import GrammarForge.Proofs.Normalization

/-!
Names of synthesized rules. Every run of the flattening numbers the rules it makes one after the
other, and the number can be read off a name, so no two of them have the same name. A name comes
twice in a run only where a rule of the grammar is named like a synthesized one.
-/

namespace GrammarForge

namespace Origin

theorem takeWhile_reverse_name (origin : Origin) (owner : String) (position counter : Nat) :
    (origin.name owner position counter).toList.reverse.takeWhile (· != '_') =
      (Nat.toDigits 10 counter).reverse := by
  have hdigits : ∀ c ∈ (Nat.toDigits 10 counter).reverse, (c != '_') = true := by
    intro c hc
    have hne : c ≠ '_' := by
      rintro rfl
      simp at hc
    simpa using hne
  have hname : (origin.name owner position counter).toList.reverse =
      (Nat.toDigits 10 counter).reverse ++
        '_' :: '_' :: (owner ++ "__" ++ origin.tag ++ "_" ++ toString position).toList.reverse := by
    simp [name]
  rw [hname, List.takeWhile_append_of_pos hdigits]
  simp

/-- The number behind the last underscore of a name. -/
def runningNumber (name : String) : Nat :=
  Nat.ofDigitChars 10 (name.toList.reverse.takeWhile (· != '_')).reverse 0

/-- Whatever the name of the owner ends in, the number of the call can be told. -/
theorem runningNumber_name (origin : Origin) (owner : String) (position counter : Nat) :
    runningNumber (origin.name owner position counter) = counter := by
  rw [runningNumber, takeWhile_reverse_name, List.reverse_reverse, Nat.ofDigitChars_ten_toDigits]

theorem names_append (counter : Nat) (calls calls' : List (String × Origin × Nat)) :
    names counter (calls ++ calls') =
      names counter calls ++ names (counter + calls.length) calls' := by
  induction calls generalizing counter with
  | nil => rfl
  | cons call calls ih =>
    have hnext : counter + 1 + calls.length = counter + (call :: calls).length := by
      simp only [List.length_cons]
      omega
    rw [List.cons_append, names, ih, hnext]
    rfl

theorem map_runningNumber_names (counter : Nat) (calls : List (String × Origin × Nat)) :
    (names counter calls).map runningNumber = List.range' counter calls.length := by
  induction calls generalizing counter with
  | nil => rfl
  | cons call calls ih =>
    obtain ⟨owner, origin, position⟩ := call
    rw [names, List.map_cons, runningNumber_name, ih, List.length_cons, List.range'_succ]

theorem nodup_names (counter : Nat) (calls : List (String × Origin × Nat)) :
    (names counter calls).Nodup := by
  refine List.Nodup.of_map runningNumber ?_
  rw [map_runningNumber_names]
  exact List.nodup_range'

/-- There is a name for each call, and it tells which call it was made in, so that no two are alike:
not for the same owner and position, nor where an owner is itself such a name. -/
theorem names_pairwise_ne (counter : Nat) (calls : List (String × Origin × Nat)) :
    (names counter calls).map runningNumber = List.range' counter calls.length ∧
      (names counter calls).Pairwise (· ≠ ·) :=
  ⟨map_runningNumber_names counter calls, nodup_names counter calls⟩

example : names 9 [("a", .list, 1), ("a", .list, 1), ("a__lst_1__9", .optionalGroup, 1)] =
    ["a__lst_1__9", "a__lst_1__10", "a__lst_1__9__opt_grp_1__11"] := by decide

end Origin

/-- The rules have the names asked for while the running number goes from `counter` to `next`. -/
def Numbered (counter next : Nat) (rs : List Rule) : Prop :=
  ∃ calls, rs.map Rule.name = Origin.names counter calls ∧ next = counter + calls.length

namespace Numbered

variable {a b c : Nat} {rs rs' : List Rule}

theorem nil (counter : Nat) : Numbered counter counter [] := ⟨[], rfl, rfl⟩

theorem append (h : Numbered a b rs) (h' : Numbered b c rs') : Numbered a c (rs ++ rs') := by
  obtain ⟨calls, hnames, rfl⟩ := h
  obtain ⟨calls', hnames', rfl⟩ := h'
  refine ⟨calls ++ calls', ?_, ?_⟩
  · rw [List.map_append, hnames, hnames', Origin.names_append]
  · rw [List.length_append, Nat.add_assoc]

theorem cons {r : Rule} {origin : Origin} {owner : String} {position : Nat}
    (hr : r.name = origin.name owner position a) (h : Numbered (a + 1) b rs) :
    Numbered a b (r :: rs) := by
  obtain ⟨calls, hnames, rfl⟩ := h
  refine ⟨(owner, origin, position) :: calls, ?_, ?_⟩
  · rw [List.map_cons, hr, hnames]
    rfl
  · simp only [List.length_cons]
    omega

theorem nodup_names (h : Numbered a b rs) : (rs.map Rule.name).Nodup := by
  obtain ⟨calls, hnames, -⟩ := h
  rw [hnames]
  exact Origin.nodup_names a calls

end Numbered

mutual

theorem Symbol.numbered_flatten (owner : String) (position counter : Nat) (s : Symbol) :
    Numbered counter (s.flatten owner position counter).counter
      (s.flatten owner position counter).rules := by
  match s with
  | .terminal v => exact .nil counter
  | .literal v => exact .nil counter
  | .nonTerminal n => exact .nil counter
  | .group ⟨o, i, ps⟩ => exact .cons rfl (Production.numbered_flattenList _ 0 1 (counter + 1) ps)
termination_by structural s

theorem Production.numbered_flattenList (owner : String) (stride position counter : Nat)
    (ps : List Production) :
    Numbered counter (Production.flattenList owner stride position counter ps).counter
      (Production.flattenList owner stride position counter ps).rules := by
  match ps with
  | [] => exact .nil counter
  | p :: ps =>
    exact (Production.numbered_flatten owner position counter p).append
      (Production.numbered_flattenList owner stride (position + stride) _ ps)
termination_by structural ps

theorem Production.numbered_flatten (owner : String) (position counter : Nat) (p : Production) :
    Numbered counter (Production.flatten owner position counter p).counter
      (Production.flatten owner position counter p).rules := by
  match p with
  | [] => exact .nil counter
  | ⟨s, m⟩ :: p =>
    by_cases hm : m = .once
    · simp only [Production.flatten, hm, if_true]
      exact (Symbol.numbered_flatten owner position counter s).append
        (Production.numbered_flatten owner _ _ p)
    · simp only [Production.flatten, hm, if_false]
      exact .cons rfl ((Symbol.numbered_flatten _ 1 (counter + 1) s).append
        (Production.numbered_flatten owner _ _ p))
termination_by structural p

end

/-- A name that is made for a rule takes the property over from the name of the rule. -/
def Inherited (P : String → Prop) : Prop :=
  ∀ (origin : Origin) (owner : String) (position counter : Nat),
    P owner → P (origin.name owner position counter)

section Inherited

variable {P : String → Prop}

mutual

theorem Symbol.forall_names_flatten (step : Inherited P) (owner : String) (position counter : Nat)
    (s : Symbol) (h : P owner) : ∀ r ∈ (s.flatten owner position counter).rules, P r.name := by
  match s with
  | .terminal v => simp [Symbol.flatten]
  | .literal v => simp [Symbol.flatten]
  | .nonTerminal n => simp [Symbol.flatten]
  | .group ⟨o, i, ps⟩ =>
    have hname := step (if o then Origin.optionalGroup else .group) owner position counter h
    simp only [Symbol.flatten, List.forall_mem_cons]
    exact ⟨hname, Production.forall_names_flattenList step _ 0 1 (counter + 1) ps hname⟩
termination_by structural s

theorem Production.forall_names_flattenList (step : Inherited P) (owner : String)
    (stride position counter : Nat) (ps : List Production) (h : P owner) :
    ∀ r ∈ (Production.flattenList owner stride position counter ps).rules, P r.name := by
  match ps with
  | [] => simp [Production.flattenList]
  | p :: ps =>
    simp only [Production.flattenList, List.forall_mem_append]
    exact ⟨Production.forall_names_flatten step owner position counter p h,
      Production.forall_names_flattenList step owner stride (position + stride) _ ps h⟩
termination_by structural ps

theorem Production.forall_names_flatten (step : Inherited P) (owner : String)
    (position counter : Nat) (p : Production) (h : P owner) :
    ∀ r ∈ (Production.flatten owner position counter p).rules, P r.name := by
  match p with
  | [] => simp [Production.flatten]
  | ⟨s, m⟩ :: p =>
    by_cases hm : m = .once
    · simp only [Production.flatten, hm, if_true, List.forall_mem_append]
      exact ⟨Symbol.forall_names_flatten step owner position counter s h,
        Production.forall_names_flatten step owner _ _ p h⟩
    · have hname := step .list owner position counter h
      simp only [Production.flatten, hm, if_false, List.forall_mem_cons, List.forall_mem_append]
      exact ⟨hname, Symbol.forall_names_flatten step _ 1 (counter + 1) s hname,
        Production.forall_names_flatten step owner _ _ p h⟩
termination_by structural p

end

theorem Flattens.forall_names_made {counter last : Nat} {rs : List Rule}
    {blocks : List (Rule × List Rule)} (step : Inherited P) (h : Flattens counter rs blocks last)
    (hrs : ∀ r ∈ rs, P r.name) : ∀ r ∈ madeRules blocks, P r.name := by
  induction h with
  | nil => simp [madeRules]
  | cons hr _ ih =>
    obtain ⟨g, -, hb, -⟩ := Rule.normalize_eq_ok_iff.mp hr
    obtain ⟨-, rfl⟩ := List.cons.inj hb
    obtain ⟨hr, hrs⟩ := List.forall_mem_cons.mp hrs
    exact List.forall_mem_append.mpr
      ⟨Production.forall_names_flattenList step _ 1 1 _ g.productions hr, ih hrs⟩

end Inherited

namespace Flattens

variable {counter last : Nat} {rs : List Rule} {blocks : List (Rule × List Rule)}

theorem numbered (h : Flattens counter rs blocks last) :
    Numbered counter last (madeRules blocks) := by
  induction h with
  | nil counter => exact .nil counter
  | cons hr _ ih =>
    obtain ⟨g, -, hb, rfl⟩ := Rule.normalize_eq_ok_iff.mp hr
    obtain ⟨-, rfl⟩ := List.cons.inj hb
    exact (Production.numbered_flattenList _ 1 1 _ g.productions).append ih

/-- A name that comes twice in a run is one of a rule and one of a made rule. -/
theorem mem_of_count (h : Flattens counter rs blocks last) (hrs : (rs.map Rule.name).Nodup)
    {n : String} (hn : 2 ≤ ((runRules blocks).map Rule.name).count n) :
    n ∈ rs.map Rule.name ∧ n ∈ (madeRules blocks).map Rule.name := by
  have hcount := h.names_perm.count_eq n
  rw [List.count_append] at hcount
  have hrule : (rs.map Rule.name).count n ≤ 1 := List.nodup_iff_count_le_one.mp hrs n
  have hmade : ((madeRules blocks).map Rule.name).count n ≤ 1 :=
    List.nodup_iff_count_le_one.mp h.numbered.nodup_names n
  constructor
  · exact List.count_pos_iff.mp (by omega)
  · exact List.count_pos_iff.mp (by omega)

end Flattens

namespace Dictionary

variable {d n : Dictionary} {counter : Nat} {name : String}

/-- The flattening from `counter` on, as far as it gets, makes a rule of this name. -/
def Synthesizes (d : Dictionary) (counter : Nat) (name : String) : Prop :=
  ∃ done blocks, done <+: d.rules ∧ Flattens counter done blocks (d.normalize counter).2 ∧
    name ∈ (madeRules blocks).map Rule.name

theorem declareAll_eq_error {rs : List Rule} {problem : Problem}
    (h : d.declareAll rs = .error problem) :
    ∃ k, problem = .duplicateRule k ∧ 2 ≤ (d.keys ++ rs.map Rule.name).count k := by
  induction rs generalizing d with
  | nil => cases h
  | cons r rs ih =>
    by_cases hr : d.contains r.name = true
    · have hproblem : d.declareAll (r :: rs) = .error (.duplicateRule r.name) := by
        simp [declareAll, declare, hr, bind, Except.bind]
      refine ⟨r.name, by simpa using h.symm.trans hproblem, ?_⟩
      have hkey : 0 < d.keys.count r.name := List.count_pos_iff.mpr (contains_iff.mp hr)
      rw [List.count_append, List.map_cons, List.count_cons_self]
      omega
    · have hrest : d.declareAll (r :: rs) = (d.insert r.name r).declareAll rs := by
        simp [declareAll, declare, hr, bind, Except.bind]
      obtain ⟨k, hk, hcount⟩ := ih (hrest.symm.trans h)
      refine ⟨k, hk, ?_⟩
      rw [keys_insert r (by simpa using hr)] at hcount
      simpa using hcount

theorem declareAll_append_of_ok {out out' : Dictionary} {rs rs' : List Rule}
    (h : out.declareAll rs = .ok out') : out.declareAll (rs ++ rs') = out'.declareAll rs' := by
  simp only [declareAll, List.foldlM_append] at h ⊢
  rw [h]
  rfl

/-- Where every rule has one group, the flattening stops only because the rules of its run cannot be
declared together. -/
theorem normalizeInto_eq_error {out : Dictionary} {rs : List Rule} {problem : Problem} {last : Nat}
    (hrs : ∀ r ∈ rs, r.group?.isSome = true)
    (h : out.normalizeInto counter rs = (.error problem, last)) :
    ∃ done blocks, done <+: rs ∧ Flattens counter done blocks last ∧
      out.declareAll (runRules blocks) = .error problem := by
  induction rs generalizing out counter with
  | nil => cases h
  | cons r rs ih =>
    obtain ⟨hr, hrs⟩ := List.forall_mem_cons.mp hrs
    obtain ⟨head, made, next, hflat⟩ := Rule.exists_normalize_eq_ok hr counter
    rw [normalizeInto, hflat] at h
    dsimp only at h
    split at h
    · rename_i e he
      cases h
      refine ⟨[r], [(head, made)], ⟨rs, rfl⟩, .cons hflat (.nil _), ?_⟩
      simpa [runRules] using he
    · rename_i out' hout
      obtain ⟨done, blocks, ⟨rest, rfl⟩, hrun, he⟩ := ih hrs h
      refine ⟨r :: done, (head, made) :: blocks, ⟨rest, rfl⟩, .cons hflat hrun, ?_⟩
      exact (declareAll_append_of_ok hout).trans he

/-- Flattening fails only at a name that is both the name of a rule and a synthesized one. -/
theorem normalize_eq_error {problem : Problem} (named : d.Named)
    (groups : ∀ r ∈ d.rules, r.group?.isSome = true)
    (h : (d.normalize counter).1 = .error problem) :
    ∃ name, problem = .duplicateRule name ∧ name ∈ d.keys ∧ d.Synthesizes counter name := by
  obtain ⟨done, blocks, hdone, hrun, he⟩ := normalizeInto_eq_error groups (Prod.ext h rfl)
  obtain ⟨name, hproblem, hcount⟩ := declareAll_eq_error he
  have hnames : (done.map Rule.name).Sublist d.keys := by
    rw [named.keys_eq]
    exact hdone.sublist.map Rule.name
  obtain ⟨hrule, hmade⟩ := hrun.mem_of_count (d.nodup_keys.sublist hnames)
    (by simpa [keys, empty] using hcount)
  exact ⟨name, hproblem, hnames.subset hrule, done, blocks, hdone, hrun, hmade⟩

theorem Synthesizes.inherits {P : String → Prop} (h : d.Synthesizes counter name)
    (step : Inherited P) (hd : ∀ r ∈ d.rules, P r.name) : P name := by
  obtain ⟨done, blocks, hdone, hrun, hname⟩ := h
  obtain ⟨r, hr, rfl⟩ := List.mem_map.mp hname
  exact hrun.forall_names_made step (fun r hr => hd r (hdone.subset hr)) r hr

theorem mem_keys_normalize (named : d.Named) (h : (d.normalize counter).1 = .ok n)
    (hname : name ∈ n.keys) : name ∈ d.keys ∨ d.Synthesizes counter name := by
  obtain ⟨blocks, hrun, -, hentries⟩ := exists_run_of_normalize h
  rw [keys_of_entries hentries, ← hrun.names_perm.mem_iff, List.mem_append,
    ← named.keys_eq] at hname
  exact hname.imp_right fun hmade => ⟨d.rules, blocks, List.prefix_rfl, hrun, hmade⟩

end Dictionary

end GrammarForge
