import GrammarForge.Proofs.Transformation

/-!
What a run of the flattening comes to. It succeeds exactly where no rule of the grammar has the name
of a rule that the run makes, and the number of rules that it makes can be counted on the components
of the grammar.
-/

namespace GrammarForge

mutual

def Symbol.components : Symbol → List Component
  | .group ⟨_, _, ps⟩ => Production.componentsList ps
  | _ => []
termination_by structural s => s

def Production.componentsList : List Production → List Component
  | [] => []
  | p :: ps => Production.components p ++ Production.componentsList ps
termination_by structural ps => ps

def Production.components : Production → List Component
  | [] => []
  | ⟨s, m⟩ :: p => ⟨s, m⟩ :: (s.components ++ Production.components p)
termination_by structural p => p

end

def Rule.components (r : Rule) : List Component :=
  r.groups.flatMap fun g => Production.componentsList g.productions

/-- The number of rules that the flattening makes for a component, apart from what is inside it. -/
def Component.cost (c : Component) : Nat :=
  match c.symbol.isGroup, c.mark with
  | true, .once => 1
  | true, _ => 2
  | false, .once => 0
  | false, _ => 1

def Component.totalCost : List Component → Nat
  | [] => 0
  | c :: cs => c.cost + totalCost cs

section Count

theorem Component.totalCost_append (cs cs' : List Component) :
    totalCost (cs ++ cs') = totalCost cs + totalCost cs' := by
  induction cs with
  | nil => simp [totalCost]
  | cons c cs ih => simp [totalCost, ih, Nat.add_assoc]

theorem Component.cost_eq (s : Symbol) (m : Repeat) :
    cost ⟨s, m⟩ = (if m = .once then 0 else 1) + if s.isGroup then 1 else 0 := by
  cases hs : s.isGroup <;> cases m <;> simp [cost, hs]

mutual

/-- The running number goes on by one for each rule that is made. -/
theorem Symbol.counter_flatten (owner : String) (position counter : Nat) (s : Symbol) :
    (s.flatten owner position counter).counter =
      counter + ((if s.isGroup then 1 else 0) + Component.totalCost s.components) := by
  match s with
  | .terminal v => rfl
  | .literal v => rfl
  | .nonTerminal n => rfl
  | .group ⟨o, i, ps⟩ =>
    have inner := Production.counter_flattenList
      ((if o then Origin.optionalGroup else .group).name owner position counter) 0 1
      (counter + 1) ps
    simp only [Symbol.flatten, Symbol.components, Symbol.isGroup, if_true]
    omega
termination_by structural s

theorem Production.counter_flattenList (owner : String) (stride position counter : Nat)
    (ps : List Production) :
    (Production.flattenList owner stride position counter ps).counter =
      counter + Component.totalCost (Production.componentsList ps) := by
  match ps with
  | [] => rfl
  | p :: ps =>
    simp only [Production.flattenList, Production.componentsList, Component.totalCost_append,
      Production.counter_flattenList _ _ _ _ ps, Production.counter_flatten _ _ _ p]
    omega
termination_by structural ps

theorem Production.counter_flatten (owner : String) (position counter : Nat) (p : Production) :
    (Production.flatten owner position counter p).counter =
      counter + Component.totalCost (Production.components p) := by
  match p with
  | [] => rfl
  | ⟨s, m⟩ :: p =>
    rw [Production.components, Component.totalCost, Component.totalCost_append,
      Component.cost_eq]
    by_cases hm : m = .once
    · simp only [Production.flatten, hm, if_true, Production.counter_flatten _ _ _ p,
        Symbol.counter_flatten _ _ _ s]
      omega
    · simp only [Production.flatten, hm, if_false, Production.counter_flatten _ _ _ p,
        Symbol.counter_flatten _ _ _ s]
      omega
termination_by structural p

end

theorem Rule.components_of_group? {r : Rule} {g : Group} (h : r.group? = some g) :
    r.components = Production.componentsList g.productions := by
  obtain ⟨n, gs⟩ := r
  match gs, h with
  | [_], h =>
    cases h
    simp [Rule.components]

theorem Rule.counter_normalize {r : Rule} {rs : List Rule} {counter next : Nat}
    (h : r.normalize counter = .ok (rs, next)) :
    next = counter + Component.totalCost r.components := by
  obtain ⟨g, hg, -, rfl⟩ := Rule.normalize_eq_ok_iff.mp h
  rw [Production.counter_flattenList, Rule.components_of_group? hg]

theorem Origin.length_names (counter : Nat) (calls : List (String × Origin × Nat)) :
    (names counter calls).length = calls.length := by
  induction calls generalizing counter with
  | nil => rfl
  | cons call calls ih => exact congrArg (· + 1) (ih (counter + 1))

theorem Numbered.next_eq {counter next : Nat} {rs : List Rule} (h : Numbered counter next rs) :
    next = counter + rs.length := by
  obtain ⟨calls, hnames, rfl⟩ := h
  have hlength := congrArg List.length hnames
  rw [List.length_map, Origin.length_names] at hlength
  omega

end Count

namespace Flattens

variable {counter last last' mid : Nat} {rs done : List Rule}
  {blocks blocks' : List (Rule × List Rule)}

/-- Where every rule has one group, there is a run over all of them. -/
theorem exists_of_group? (hrs : ∀ r ∈ rs, r.group?.isSome = true) (counter : Nat) :
    ∃ blocks last, Flattens counter rs blocks last := by
  induction rs generalizing counter with
  | nil => exact ⟨[], counter, .nil counter⟩
  | cons r rs ih =>
    obtain ⟨hr, hrs⟩ := List.forall_mem_cons.mp hrs
    obtain ⟨head, made, next, hflat⟩ := Rule.exists_normalize_eq_ok hr counter
    obtain ⟨blocks, last, hrun⟩ := ih hrs next
    exact ⟨_, last, .cons hflat hrun⟩

theorem blocks_isPrefix (h : Flattens counter done blocks mid)
    (h' : Flattens counter rs blocks' last) (hdone : done <+: rs) : blocks <+: blocks' := by
  induction h generalizing rs blocks' with
  | nil => exact List.nil_prefix
  | cons hr _ ih =>
    cases h' with
    | nil => simp at hdone
    | cons hr' h' =>
      obtain ⟨rfl, htail⟩ := List.cons_prefix_cons.mp hdone
      obtain ⟨hb, rfl⟩ := Prod.mk.inj (Except.ok.inj (hr.symm.trans hr'))
      obtain ⟨rfl, rfl⟩ := List.cons.inj hb
      exact List.cons_prefix_cons.mpr ⟨rfl, ih h' htail⟩

/-- There is only one run. -/
theorem blocks_eq (h : Flattens counter rs blocks last) (h' : Flattens counter rs blocks' last') :
    blocks = blocks' := by
  have hlength := congrArg List.length (h.names_heads.trans h'.names_heads.symm)
  exact (h.blocks_isPrefix h' List.prefix_rfl).eq_of_length (by simpa using hlength)

/-- What a run makes and how far it counts can be seen from the components of its rules. -/
theorem last_eq (h : Flattens counter rs blocks last) :
    last = counter + Component.totalCost (rs.flatMap Rule.components) := by
  induction h with
  | nil => rfl
  | cons hr _ ih =>
    have hnext := Rule.counter_normalize hr
    rw [List.flatMap_cons, Component.totalCost_append]
    omega

end Flattens

namespace Dictionary

variable {d n : Dictionary} {counter last : Nat} {blocks : List (Rule × List Rule)}

def cost (d : Dictionary) : Nat := Component.totalCost (d.rules.flatMap Rule.components)

/-- What is made until the flattening stops is made in a run over all rules. -/
theorem Synthesizes.exists_made {k : String} (h : d.Synthesizes counter k)
    (hrun : Flattens counter d.rules blocks last) : ∃ r ∈ madeRules blocks, r.name = k := by
  obtain ⟨done, blocks', hdone, hrun', hname⟩ := h
  obtain ⟨r, hr, rfl⟩ := List.mem_map.mp hname
  obtain ⟨b, hb, hrb⟩ := List.mem_flatMap.mp hr
  have hb' := (hrun'.blocks_isPrefix hrun hdone).subset hb
  exact ⟨r, List.mem_flatMap.mpr ⟨b, hb', hrb⟩, rfl⟩

section Run

variable (hrun : Flattens counter d.rules blocks last)
include hrun

theorem normalize_isOk_iff (named : d.Named) (groups : ∀ r ∈ d.rules, r.group?.isSome = true) :
    (∃ n, (d.normalize counter).1 = .ok n) ↔ ∀ r ∈ madeRules blocks, r.name ∉ d.keys := by
  constructor
  · rintro ⟨n, hn⟩ r hr
    obtain ⟨blocks', hrun', hnodup, -⟩ := exists_run_of_normalize hn
    obtain rfl := hrun.blocks_eq hrun'
    obtain ⟨b, hb, hrb⟩ := List.mem_flatMap.mp hr
    rw [named.keys_eq]
    exact hrun.name_made_not_mem hnodup hb hrb
  · intro hmade
    cases h : (d.normalize counter).1 with
    | ok n => exact ⟨n, rfl⟩
    | error problem =>
      -- The flattening stopped before its end, and a full run makes no fewer names.
      obtain ⟨k, -, hk, hsynth⟩ := normalize_eq_error named groups h
      obtain ⟨r, hr, rfl⟩ := hsynth.exists_made hrun
      exact absurd hk (hmade r hr)

theorem length_madeRules : (madeRules blocks).length = d.cost := by
  have hlast := hrun.last_eq
  have hmade := hrun.numbered.next_eq
  unfold cost
  omega

theorem keys_normalize (h : (d.normalize counter).1 = .ok n) :
    n.keys = blocks.flatMap fun b => b.1.name :: b.2.map Rule.name := by
  obtain ⟨blocks', hrun', -, hentries⟩ := exists_run_of_normalize h
  obtain rfl := hrun.blocks_eq hrun'
  rw [keys_of_entries hentries]
  simp [runRules, List.map_flatMap]

end Run

theorem size_normalize (h : (d.normalize counter).1 = .ok n) : n.size = d.size + d.cost := by
  obtain ⟨blocks, hrun, -, hentries⟩ := exists_run_of_normalize h
  have hlength := hrun.names_perm.length_eq
  have hmade := length_madeRules hrun
  have hn : n.size = (runRules blocks).length := by simp [size, hentries]
  have hd : d.size = d.rules.length := by simp [size, rules]
  simp only [List.length_append, List.length_map] at hlength
  omega

theorem counter_normalize (h : (d.normalize counter).1 = .ok n) :
    (d.normalize counter).2 = counter + d.cost := by
  obtain ⟨blocks, hrun, -, -⟩ := exists_run_of_normalize h
  exact hrun.last_eq

/-- Flattening brings in references only. -/
theorem mem_terminals_normalize_iff (h : (d.normalize counter).1 = .ok n) (v : String) :
    v ∈ n.terminals ↔ v ∈ d.terminals := by
  obtain ⟨blocks, hrun, -, hentries⟩ := exists_run_of_normalize h
  have hsymbols : ∀ x : Symbol, x.isGroup = false → (∀ k, x ≠ .nonTerminal k) →
      (x ∈ n.symbols ↔ x ∈ d.symbols) := by
    intro x hx href
    have hmade : ¬ RefersTo x (madeRules blocks) := fun ⟨r, _, hr⟩ => href r.name hr
    rw [mem_symbols_iff, mem_symbols_iff, rules_of_entries hentries, hrun.occursIn_iff hx,
      or_iff_left hmade]
  rw [mem_terminals_iff, mem_terminals_iff, hsymbols (.terminal v) rfl (by simp),
    hsymbols (.literal v) rfl (by simp)]

/-- Flattening succeeds exactly where no rule has the name of one that is made, and otherwise stops
at such a name. Where it succeeds, each rule is followed by those made for it, and their number can
be counted on the components. -/
theorem normalize_outcome (named : d.Named) (groups : ∀ r ∈ d.rules, r.group?.isSome = true)
    (counter : Nat) : ∃ blocks last, Flattens counter d.rules blocks last ∧
      ((∃ n, (d.normalize counter).1 = .ok n) ↔ ∀ r ∈ madeRules blocks, r.name ∉ d.keys) ∧
      (∀ problem, (d.normalize counter).1 = .error problem → ∃ r ∈ madeRules blocks,
        problem = .duplicateRule r.name ∧ r.name ∈ d.keys ∧ d.Synthesizes counter r.name) ∧
      ∀ n, (d.normalize counter).1 = .ok n →
        blocks.map (·.1.name) = d.keys ∧
        n.keys = blocks.flatMap (fun b => b.1.name :: b.2.map Rule.name) ∧ n.keys.Nodup ∧
        (madeRules blocks).length = d.cost ∧ n.size = d.size + d.cost ∧
        (d.normalize counter).2 = counter + d.cost ∧
        ∀ v, v ∈ n.terminals ↔ v ∈ d.terminals := by
  obtain ⟨blocks, last, hrun⟩ := Flattens.exists_of_group? groups counter
  refine ⟨blocks, last, hrun, normalize_isOk_iff hrun named groups, fun problem h => ?_,
    fun n h => ⟨named.keys_eq ▸ hrun.names_heads, keys_normalize hrun h, n.nodup_keys,
      length_madeRules hrun, size_normalize h, counter_normalize h,
      mem_terminals_normalize_iff h⟩⟩
  obtain ⟨k, hproblem, hk, hsynth⟩ := normalize_eq_error named groups h
  obtain ⟨r, hr, rfl⟩ := hsynth.exists_made hrun
  exact ⟨r, hr, hproblem, hk, hsynth⟩

/-- `a: [b*]`, `b: (a | 'y')+`, and `a__opt_grp_1__3: 'x'`. -/
def numbered : Dictionary :=
  .ofList [("a", .ofBody "a" [[.once (.group ⟨true, false, [[⟨.nonTerminal "b", .star⟩]]⟩)]]),
    ("b", .ofBody "b" [[⟨.group ⟨false, false, [[.once (.nonTerminal "a")],
      [.once (.literal "y")]]⟩, .plus⟩]]),
    ("a__opt_grp_1__3", .ofBody "a__opt_grp_1__3" [[.once (.literal "x")]])]

/-- The third rule is in the way of a run that starts with its number, and of no other. -/
theorem normalize_outcome_numbered :
    numbered.Named ∧ (∀ r ∈ numbered.rules, r.group?.isSome = true) ∧ numbered.cost = 4 ∧
      (∃ n, (numbered.normalize 1).1 = .ok n ∧ (numbered.normalize 1).2 = 1 + numbered.cost ∧
        n.size = numbered.size + numbered.cost ∧ n.keys.Nodup) ∧
      ∃ name, (numbered.normalize 3).1 = .error (.duplicateRule name) ∧ name ∈ numbered.keys ∧
        numbered.Synthesizes 3 name := by
  have named : numbered.Named := by decide
  have groups : ∀ r ∈ numbered.rules, r.group?.isSome = true := by decide
  obtain ⟨n, hn⟩ : ∃ n, (numbered.normalize 1).1 = .ok n := ⟨_, rfl⟩
  have herror : (numbered.normalize 3).1 = .error (.duplicateRule "a__opt_grp_1__3") := rfl
  obtain ⟨_, _, -, -, -, hok⟩ := normalize_outcome named groups 1
  obtain ⟨-, -, hnodup, -, hsize, hcounter, -⟩ := hok n hn
  obtain ⟨_, _, -, -, hproblem, -⟩ := normalize_outcome named groups 3
  obtain ⟨r, -, hname, hkey, hsynth⟩ := hproblem _ herror
  exact ⟨named, groups, by decide, ⟨n, hn, hcounter, hsize, hnodup⟩, r.name, hname ▸ herror, hkey,
    hsynth⟩

end Dictionary

end GrammarForge
