import GrammarForge.Job
import GrammarForge.Proofs.Places
import GrammarForge.Proofs.Violations
import GrammarForge.Proofs.WorkerPool

/-!
What a job does to the files. It writes all of its parsers or, where one of them cannot be
generated, nothing at all, and it does the same for every order in which workers come to an end.
-/

namespace GrammarForge

open FilePath

namespace Target

theorem isEntry_name (t : Target) : IsEntry t.name := by
  cases t with
  | library l => cases l <;> decide
  | _ => decide

theorem isEntry_fileName (t : Target) : IsEntry t.fileName := by
  cases t with
  | library l => cases l <;> decide
  | _ => decide

theorem name_injective {t t' : Target} (h : t.name = t'.name) : t = t' := by
  have hall : ∀ t ∈ all, ∀ t' ∈ all, t.name = t'.name → t = t' := by decide
  exact hall t (mem_all t) t' (mem_all t') h

end Target

namespace FileTree

variable {t t' : FileTree} {place : List String} {output dir name path : String}

theorem performAll_cons_eq_none {a : FileAction} {as : List FileAction} :
    t.performAll (a :: as) = (t', none) ↔
      ∃ mid, t.perform a = (mid, none) ∧ mid.performAll as = (t', none) := by
  rw [performAll]
  cases hperform : t.perform a with
  | mk next fault? =>
    cases fault? with
    | none => simp
    | some fault => simp

theorem performAll_append_eq_none {as bs : List FileAction} :
    t.performAll (as ++ bs) = (t', none) ↔
      ∃ mid, t.performAll as = (mid, none) ∧ mid.performAll bs = (t', none) := by
  induction as generalizing t with
  | nil => simp [performAll]
  | cons a as ih =>
    simp only [List.cons_append, performAll_cons_eq_none, ih]
    constructor
    · rintro ⟨next, hnext, mid, hmid, h⟩
      exact ⟨mid, ⟨next, hnext, hmid⟩, h⟩
    · rintro ⟨mid, ⟨next, hnext, hmid⟩, h⟩
      exact ⟨next, hnext, mid, hmid, h⟩

theorem read_eq_ok {content : ByteArray} (hpath : t.locate path = .ok place)
    (hfile : t.file? place = some content) : t.read path = .ok content := by
  have hnode := file?_eq_some_iff.mp hfile
  simp [read, hpath, hnode, bind, Except.bind]

/-- A directory is made, and the only file to change is the one that is written into it. -/
theorem performAll_writeInto {lines : List String} (hname : IsEntry name)
    (h : t.performAll (Job.writeInto dir name lines) = (t', none)) :
    ∃ place, t'.LeadsTo dir place ∧ t.Grows t' [place ++ [name]] ∧
      t'.file? (place ++ [name]) = some (Text.unlines lines).toUTF8 := by
  obtain ⟨mid, hmade, h⟩ := performAll_cons_eq_none.mp h
  obtain ⟨last, hwritten, h⟩ := performAll_cons_eq_none.mp h
  obtain rfl : last = t' := congrArg Prod.fst h
  obtain ⟨hgrows, place, hdir⟩ := createDirectory_eq_none hmade
  obtain ⟨hgrows', hfile⟩ := write_eq_none hwritten (hdir.locate_join hname)
  exact ⟨place, hgrows'.leadsTo hdir, hgrows.trans hgrows', hfile⟩

def parserPlace (place : List String) (target : Target) : List String :=
  place ++ [target.name, target.fileName]

theorem parserPlace_injective {target target' : Target}
    (h : parserPlace place target = parserPlace place target') : target = target' := by
  have hnames := List.append_cancel_left h
  exact Target.name_injective (List.cons.inj hnames).1

theorem performAll_parsers {parsers : List (Target × List String)}
    (houtput : t.LeadsTo output place) (hnodup : (parsers.map Prod.fst).Nodup)
    (h : t.performAll (parsers.flatMap fun (target, lines) =>
      Job.writeInto (join output target.name) target.fileName lines) = (t', none)) :
    t.Grows t' (parsers.map fun p => parserPlace place p.1) ∧ ∀ p ∈ parsers,
      t'.locate (join (join output p.1.name) p.1.fileName) = .ok (parserPlace place p.1) ∧
      t'.file? (parserPlace place p.1) = some (Text.unlines p.2).toUTF8 := by
  induction parsers generalizing t with
  | nil =>
    obtain rfl : t = t' := congrArg Prod.fst h
    exact ⟨.refl t, nofun⟩
  | cons p parsers ih =>
    obtain ⟨mid, hfirst, hrest⟩ := performAll_append_eq_none.mp (List.flatMap_cons ▸ h)
    obtain ⟨hnew, hnodup⟩ := List.nodup_cons.mp hnodup
    obtain ⟨found, hdir, hgrows, hfile⟩ := performAll_writeInto p.1.isEntry_fileName hfirst
    -- The directory for all targets is still there, so that of this one has its place inside of it.
    have houtput' := hgrows.leadsTo houtput
    obtain rfl : place ++ [p.1.name] = found :=
      Except.ok.inj ((houtput'.locate_join p.1.isEntry_name).symm.trans hdir.1)
    have hplace : place ++ [p.1.name] ++ [p.1.fileName] = parserPlace place p.1 := by
      simp [parserPlace]
    rw [hplace] at hgrows hfile
    obtain ⟨hgrows', hparsers⟩ := ih houtput' hnodup hrest
    refine ⟨hgrows.trans hgrows', List.forall_mem_cons.mpr ⟨⟨?_, ?_⟩, hparsers⟩⟩
    · rw [← hplace]
      exact (hgrows'.leadsTo hdir).locate_join p.1.isEntry_fileName
    · rw [hgrows'.files _ ?_, hfile]
      intro hmem
      obtain ⟨q, hq, heq⟩ := List.mem_map.mp hmem
      exact hnew (List.mem_map.mpr ⟨q, hq, parserPlace_injective heq⟩)

end FileTree

namespace Job

/-- What a job generates from, unless it is refused before that. -/
def describe (j : Job) (t : FileTree) : Except Failure Description := do
  if let some problem := j.problem? (t.isFile j.output) then .error (.job problem)
  let g ← loadGrammar j.grammar false (t.readText j.grammar)
  (Description.of g j.starts).mapError .start

def parser (d : Description) (target : Target) : Except Failure (Target × List String) :=
  ((target.generate d).mapError (.target target)).map fun lines => (target, lines)

/-- Something that nothing can be generated for. -/
inductive Obstructed (j : Job) (t : FileTree) : Prop
  | job {problem : JobProblem} :
    j.problem? (t.isFile j.output) = some problem → Obstructed j t
  | grammar {failure : Failure} :
    loadGrammar j.grammar false (t.readText j.grammar) = .error failure → Obstructed j t
  | start {g : Grammar} {problem : Problem} :
    loadGrammar j.grammar false (t.readText j.grammar) = .ok g →
    Description.of g j.starts = .error problem → Obstructed j t
  | target {d : Description} {target : Target} {problem : TargetProblem} :
    loadGrammar j.grammar false (t.readText j.grammar) = .ok d.grammar →
    Description.of d.grammar j.starts = .ok d → target ∈ j.targets →
    target.generate d = .error problem → Obstructed j t
  | tokens {d : Description} {problem : TargetProblem} :
    loadGrammar j.grammar false (t.readText j.grammar) = .ok d.grammar →
    Description.of d.grammar j.starts = .ok d →
    TokenModule.generate d = .error problem → Obstructed j t

/-- What a job can do to the files when its parsers are made by a pool of workers. -/
inductive RunsTo (j : Job) (t : FileTree) : FileTree × Option Failure → Prop
  | refused {failure : Failure} :
    j.describe t = .error failure → RunsTo j t (t, some failure)
  | failed {d : Description} {failure : Failure} :
    j.describe t = .ok d → Pool.Yields (j.targets.map (parser d)) (.error failure) →
    RunsTo j t (t, some failure)
  | untagged {d : Description} {parsers : List (Target × List String)} {problem : TargetProblem} :
    j.describe t = .ok d → Pool.Yields (j.targets.map (parser d)) (.ok parsers) →
    TokenModule.generate d = .error problem → RunsTo j t (t, some (.tokens problem))
  | written {d : Description} {parsers : List (Target × List String)} {tokens : List String} :
    j.describe t = .ok d → Pool.Yields (j.targets.map (parser d)) (.ok parsers) →
    TokenModule.generate d = .ok tokens → RunsTo j t (t.performAll (j.actions tokens parsers))

def paths (j : Job) : List String :=
  join j.output Target.tokensFile ::
    j.targets.map fun target => join (join j.output target.name) target.fileName

variable {j : Job} {t t' : FileTree} {d : Description}

theorem nodup_eraseDups (targets : List Target) : targets.eraseDups.Nodup := by
  induction hlength : targets.length using Nat.strongRecOn generalizing targets with
  | ind n ih =>
    cases targets with
    | nil => simp
    | cons target targets =>
      have hshorter : (targets.filter fun t => !t == target).length < n :=
        hlength ▸ Nat.lt_succ_of_le (List.length_filter_le _ targets)
      rw [List.eraseDups_cons, List.nodup_cons]
      refine ⟨fun hmem => ?_, ih _ hshorter _ rfl⟩
      simpa using (List.mem_filter.mp (List.mem_eraseDups.mp hmem)).2

theorem nodup_targets (grammar output : String) (starts : List String) (targets : List Target)
    (workers? : Option Nat) :
    (((new grammar output).withStarts starts).withTargets targets |>.withWorkers
      workers?).targets.Nodup := by
  have hall : ((new grammar output).withStarts starts).targets = Target.all := by
    unfold withStarts
    split <;> rfl
  show (((new grammar output).withStarts starts).withTargets targets).targets.Nodup
  unfold withTargets
  split
  · rw [hall]
    decide
  · exact nodup_eraseDups targets

theorem plan_eq (j : Job) (t : FileTree) : j.plan (t.isFile j.output) (t.readText j.grammar) =
    j.describe t >>= fun d => j.targets.mapM (parser d) >>= fun parsers =>
      (TokenModule.generate d).mapError .tokens >>= fun tokens =>
        .ok (j.actions tokens parsers) := by
  unfold plan describe
  cases j.problem? (t.isFile j.output) with
  | some problem => rfl
  | none =>
    cases loadGrammar j.grammar false (t.readText j.grammar) <;> rfl

theorem grammar_eq_of_of {g : Grammar} {starts : List String}
    (h : Description.of g starts = .ok d) : d.grammar = g := by
  unfold Description.of at h
  split at h
  · cases h
  · cases h
    rfl

theorem describe_eq_ok_iff : j.describe t = .ok d ↔ j.problem? (t.isFile j.output) = none ∧
    loadGrammar j.grammar false (t.readText j.grammar) = .ok d.grammar ∧
      Description.of d.grammar j.starts = .ok d := by
  unfold describe
  cases j.problem? (t.isFile j.output) with
  | some problem => simp [bind, Except.bind]
  | none =>
    cases loadGrammar j.grammar false (t.readText j.grammar) with
    | error failure => simp [bind, Except.bind]
    | ok g =>
      refine mapError_eq_ok_iff.trans ⟨fun h => ?_, ?_⟩
      · obtain rfl := grammar_eq_of_of h
        exact ⟨rfl, rfl, h⟩
      · rintro ⟨-, hg, h⟩
        cases hg
        exact h

/-- A plan is made where everything can be generated. -/
theorem plan_eq_ok_iff {actions : List FileAction} :
    j.plan (t.isFile j.output) (t.readText j.grammar) = .ok actions ↔
      ∃ d parsers tokens, j.describe t = .ok d ∧ j.targets.mapM (parser d) = .ok parsers ∧
        TokenModule.generate d = .ok tokens ∧ actions = j.actions tokens parsers := by
  rw [plan_eq]
  constructor
  · intro h
    obtain ⟨d, hd, h⟩ := exists_of_bind_eq_ok h
    obtain ⟨parsers, hparsers, h⟩ := exists_of_bind_eq_ok h
    obtain ⟨tokens, htokens, h⟩ := exists_of_bind_eq_ok h
    exact ⟨d, parsers, tokens, hd, hparsers, mapError_eq_ok_iff.mp htokens, (Except.ok.inj h).symm⟩
  · rintro ⟨d, parsers, tokens, hd, hparsers, htokens, rfl⟩
    rw [hd]
    show (j.targets.mapM (parser d) >>= _) = _
    rw [hparsers, htokens]
    rfl

theorem exists_ofText_of_describe (h : j.describe t = .ok d) :
    ∃ text, Grammar.ofText text = .ok d.grammar := by
  obtain ⟨-, hload, -⟩ := describe_eq_ok_iff.mp h
  unfold loadGrammar at hload
  split at hload
  · cases hload
  · rename_i text _
    exact ⟨text, mapError_eq_ok_iff.mp hload⟩

/-- Only one target can fail on a grammar that has been loaded. -/
theorem failure_unique (h : j.describe t = .ok d) {targets : List Target}
    {failure failure' : Failure} (hmem : .error failure ∈ targets.map (parser d))
    (hmem' : .error failure' ∈ targets.map (parser d)) : failure = failure' := by
  obtain ⟨text, htext⟩ := exists_ofText_of_describe h
  have hmenhir : ∀ {failure}, .error failure ∈ targets.map (parser d) →
      parser d .menhir = .error failure := by
    intro failure hmem
    obtain ⟨target, -, hfails⟩ := List.mem_map.mp hmem
    -- The others have no bound to exceed, and a loaded grammar has nothing else for them to refuse.
    by_cases ht : target = .menhir
    · exact ht ▸ hfails
    · obtain ⟨lines, hlines⟩ := Target.exists_generate_of_ofText htext ht
      rw [parser, hlines] at hfails
      cases hfails
  exact Except.error.inj ((hmenhir hmem).symm.trans (hmenhir hmem'))

theorem parser_eq_ok_iff {target : Target} {p : Target × List String} :
    parser d target = .ok p ↔ target = p.1 ∧ target.generate d = .ok p.2 := by
  unfold parser
  obtain ⟨found, lines⟩ := p
  cases target.generate d with
  | error problem => simp [Except.mapError, Except.map]
  | ok found => simp [Except.mapError, Except.map]

theorem mapM_parser_eq_ok {targets : List Target} {parsers : List (Target × List String)}
    (h : targets.mapM (parser d) = .ok parsers) :
    parsers.map Prod.fst = targets ∧ ∀ p ∈ parsers, p.1.generate d = .ok p.2 := by
  have hmatch := forall₂_of_mapM h
  have hfirst : List.Forall₂ (· = ·) targets (parsers.map Prod.fst) :=
    List.forall₂_map_right_iff.mpr (hmatch.imp fun _ _ hp => (parser_eq_ok_iff.mp hp).1)
  rw [List.forall₂_eq_eq_eq] at hfirst
  refine ⟨hfirst.symm, fun p hp => ?_⟩
  obtain ⟨target, -, htarget⟩ := exists_of_forall₂_mem hmatch hp
  obtain ⟨rfl, hlines⟩ := parser_eq_ok_iff.mp htarget
  exact hlines

theorem not_obstructed_of_plan {actions : List FileAction}
    (hplan : j.plan (t.isFile j.output) (t.readText j.grammar) = .ok actions) :
    ¬ j.Obstructed t := by
  intro h
  obtain ⟨d, parsers, tokens, hd, hparsers, htokens, -⟩ := plan_eq_ok_iff.mp hplan
  obtain ⟨hvalid, hload, hof⟩ := describe_eq_ok_iff.mp hd
  have hsame : ∀ {d' : Description},
      loadGrammar j.grammar false (t.readText j.grammar) = .ok d'.grammar →
      Description.of d'.grammar j.starts = .ok d' → d' = d := by
    intro d' hload' hof'
    rw [Except.ok.inj (hload'.symm.trans hload)] at hof'
    exact Except.ok.inj (hof'.symm.trans hof)
  cases h with
  | job hproblem => cases hvalid.symm.trans hproblem
  | grammar hfails => cases hload.symm.trans hfails
  | start hload' hfails =>
    cases hload.symm.trans hload'
    cases hof.symm.trans hfails
  | target hload' hof' hmem hfails =>
    obtain rfl := hsame hload' hof'
    obtain ⟨hfirst, hlines⟩ := mapM_parser_eq_ok hparsers
    obtain ⟨p, hp, rfl⟩ := List.mem_map.mp (hfirst ▸ hmem)
    cases (hlines p hp).symm.trans hfails
  | tokens hload' hof' hfails =>
    obtain rfl := hsame hload' hof'
    cases htokens.symm.trans hfails

theorem obstructed_of_describe {failure : Failure} (h : j.describe t = .error failure) :
    j.Obstructed t := by
  unfold describe at h
  cases hvalid : j.problem? (t.isFile j.output) with
  | some problem => exact .job hvalid
  | none =>
    cases hload : loadGrammar j.grammar false (t.readText j.grammar) with
    | error failure => exact .grammar hload
    | ok g =>
      cases hof : Description.of g j.starts with
      | error problem => exact .start hload hof
      | ok d =>
        rw [hvalid, hload] at h
        change (Description.of g j.starts).mapError .start = .error failure at h
        rw [hof] at h
        cases h

theorem obstructed_iff :
    j.Obstructed t ↔ (j.plan (t.isFile j.output) (t.readText j.grammar)).isOk = false := by
  cases hplan : j.plan (t.isFile j.output) (t.readText j.grammar) with
  | ok actions => exact iff_of_false (not_obstructed_of_plan hplan) nofun
  | error failure =>
    refine iff_of_true ?_ rfl
    cases hd : j.describe t with
    | error failure => exact obstructed_of_describe hd
    | ok d =>
      obtain ⟨-, hload, hof⟩ := describe_eq_ok_iff.mp hd
      obtain ⟨parsers, -, hparsers⟩ | ⟨fault, hfault, -⟩ := Pool.mapM_cases (parser d) j.targets
      · cases htokens : TokenModule.generate d with
        | error problem => exact .tokens hload hof htokens
        | ok tokens =>
          have hok := plan_eq_ok_iff.mpr ⟨d, parsers, tokens, hd, hparsers, htokens, rfl⟩
          cases hplan.symm.trans hok
      · obtain ⟨target, hmem, hparser⟩ := List.mem_map.mp hfault
        cases hlines : target.generate d with
        | error problem => exact .target hload hof hmem hlines
        | ok lines =>
          have hok : parser d target = .ok (target, lines) := parser_eq_ok_iff.mpr ⟨rfl, hlines⟩
          cases hparser.symm.trans hok

instance (j : Job) (t : FileTree) : Decidable (j.Obstructed t) :=
  decidable_of_iff _ obstructed_iff.symm

theorem exists_run_of_obstructed (h : j.Obstructed t) : ∃ failure, j.run t = (t, some failure) := by
  cases hplan : j.plan (t.isFile j.output) (t.readText j.grammar) with
  | error failure => exact ⟨failure, by rw [run, hplan]⟩
  | ok actions => exact (not_obstructed_of_plan hplan h).elim

/-- The files where a job has come to its end. What is generated is there, and all other files are
as they were. -/
structure Completes (j : Job) (d : Description) (t t' : FileTree) : Prop where
  tokens : ∃ lines, TokenModule.generate d = .ok lines ∧
    t'.read (join j.output Target.tokensFile) = .ok (Text.unlines lines).toUTF8
  parsers : ∀ target ∈ j.targets, ∃ lines, target.generate d = .ok lines ∧
    t'.read (join (join j.output target.name) target.fileName) = .ok (Text.unlines lines).toUTF8
  others : ∀ place, (∀ path ∈ j.paths, t'.locate path ≠ .ok place) → t'.file? place = t.file? place

theorem completes_of_run (hnodup : j.targets.Nodup) (h : j.run t = (t', none)) :
    ∃ d, j.describe t = .ok d ∧ j.Completes d t t' := by
  unfold run at h
  split at h
  · cases h
  · rename_i actions hplan
    obtain ⟨d, parsers, tokens, hd, hparsers, htokens, rfl⟩ := plan_eq_ok_iff.mp hplan
    obtain ⟨hfirst, hlines⟩ := mapM_parser_eq_ok hparsers
    obtain ⟨mid, hmodule, hrest⟩ := FileTree.performAll_append_eq_none.mp h
    obtain ⟨place, hdir, hgrows, hfile⟩ :=
      FileTree.performAll_writeInto (by decide : IsEntry Target.tokensFile) hmodule
    obtain ⟨hgrows', hwritten⟩ :=
      FileTree.performAll_parsers hdir (hfirst.symm ▸ hnodup) hrest
    have hmodulePath := (hgrows'.leadsTo hdir).locate_join (by decide : IsEntry Target.tokensFile)
    -- The token module lies in front of the directories of the parsers.
    have hapart : place ++ [Target.tokensFile] ∉
        parsers.map fun p => FileTree.parserPlace place p.1 := by
      intro hmem
      obtain ⟨p, -, heq⟩ := List.mem_map.mp hmem
      simpa [FileTree.parserPlace] using congrArg List.length heq
    refine ⟨d, hd, ⟨tokens, htokens, FileTree.read_eq_ok hmodulePath ?_⟩,
      fun target htarget => ?_, fun q hq => ?_⟩
    · rw [hgrows'.files _ hapart, hfile]
    · obtain ⟨p, hp, rfl⟩ := List.mem_map.mp (hfirst ▸ htarget)
      exact ⟨p.2, hlines p hp, FileTree.read_eq_ok (hwritten p hp).1 (hwritten p hp).2⟩
    · refine (hgrows.trans hgrows').files q fun hmem => ?_
      rcases List.mem_append.mp hmem with hmem | hmem
      · obtain rfl := List.mem_singleton.mp hmem
        exact hq _ List.mem_cons_self hmodulePath
      · obtain ⟨p, hp, rfl⟩ := List.mem_map.mp hmem
        have htarget : p.1 ∈ j.targets := hfirst ▸ List.mem_map_of_mem hp
        exact hq _ (List.mem_cons_of_mem _ (List.mem_map_of_mem htarget)) (hwritten p hp).1

/-- What a job comes to, told by what its workers come to one behind the other. -/
theorem run_eq (j : Job) (t : FileTree) : j.run t =
    match j.describe t with
    | .error failure => (t, some failure)
    | .ok d =>
      match j.targets.mapM (parser d), TokenModule.generate d with
      | .error failure, _ => (t, some failure)
      | .ok _, .error problem => (t, some (.tokens problem))
      | .ok parsers, .ok tokens => t.performAll (j.actions tokens parsers) := by
  rw [run, plan_eq]
  cases j.describe t with
  | error failure => rfl
  | ok d =>
    dsimp only [bind, Except.bind]
    cases j.targets.mapM (parser d) with
    | error failure => rfl
    | ok parsers => cases TokenModule.generate d <;> rfl

theorem mapM_of_yields {result : Except Failure (List (Target × List String))}
    (hd : j.describe t = .ok d) (h : Pool.Yields (j.targets.map (parser d)) result) :
    j.targets.mapM (parser d) = result :=
  (Pool.eq_mapM_of_yields (fun _ _ => failure_unique hd) h).symm

/-- However the workers come to an end, the job does what it does with the parsers one by one. -/
theorem runsTo_iff {outcome : FileTree × Option Failure} :
    j.RunsTo t outcome ↔ outcome = j.run t := by
  rw [run_eq]
  constructor
  · intro h
    cases h with
    | refused hd => rw [hd]
    | failed hd hyields =>
      rw [hd]
      simp only [mapM_of_yields hd hyields]
    | untagged hd hyields htokens =>
      rw [hd]
      simp only [mapM_of_yields hd hyields, htokens]
    | written hd hyields htokens =>
      rw [hd]
      simp only [mapM_of_yields hd hyields, htokens]
  · rintro rfl
    cases hd : j.describe t with
    | error failure => exact .refused hd
    | ok d =>
      dsimp only
      have hyields := Pool.yields_mapM (parser d) j.targets
      cases hparsers : j.targets.mapM (parser d) with
      | error failure => exact .failed hd (hparsers ▸ hyields)
      | ok parsers =>
        cases htokens : TokenModule.generate d with
        | error problem => exact .untagged hd (hparsers ▸ hyields) htokens
        | ok tokens => exact .written hd (hparsers ▸ hyields) htokens

def pair : Job :=
  (((new "g" "out/").withStarts ["s"]).withTargets [.menhir, .library .pwdNary]).withWorkers
    (some 2)

def pairFiles (text : String) : FileTree := .ofFiles [("g", text.toUTF8)]

end Job

end GrammarForge
