import GrammarForge.Files.Tree
import Mathlib.Data.List.Basic

/-!
Where paths lead while files are made. Directories stay, so that a path to one goes on leading
there; making directories leaves all files as they are, and writing a file leaves all others.
-/

namespace GrammarForge

namespace FilePath

def IsEntry (name : String) : Prop := '/' ∉ name.toList ∧ name ∉ ["", ".", ".."]

instance (name : String) : Decidable (IsEntry name) := inferInstanceAs (Decidable (_ ∧ _))

variable {path name : String}

theorem IsEntry.enter_eq (h : IsEntry name) (dir : List String) :
    enter dir name = dir ++ [name] := by
  have hnames := h.2
  simp only [List.mem_cons, List.not_mem_nil, or_false, not_or] at hnames
  obtain ⟨hempty, hdot, hdots⟩ := hnames
  simp [enter, hempty, hdot, hdots]

/-- A name comes behind the pieces of a path, or takes the place of an empty last one. -/
theorem pieces_join (hname : '/' ∉ name.toList) (hpath : path ≠ "") :
    pieces (join path name) = pieces path ++ [name] ∨
      ∃ before, pieces path = before ++ [""] ∧ pieces (join path name) = before ++ [name] := by
  have hlast : (Text.split '/' name.toList).map String.ofList = [name] := by
    simp [Text.split_of_not_mem hname]
  by_cases hslash : path.toList.getLast? = some '/'
  · obtain ⟨before, hbefore⟩ := List.getLast?_eq_some_iff.mp hslash
    refine .inr ⟨(Text.split '/' before).map String.ofList, ?_, ?_⟩
    · simp [pieces, hbefore, Text.split_append]
    · rw [join, if_pos (by simp [hslash]), pieces, String.toList_append, hbefore,
        List.append_assoc, List.singleton_append, Text.split_append, List.map_append, hlast]
  · refine .inl ?_
    have htext : (path ++ "/" ++ name).toList = path.toList ++ '/' :: name.toList := by simp
    rw [join, if_neg (by simp [hslash, hpath]), pieces, htext, Text.split_append, List.map_append,
      hlast]
    rfl

end FilePath

open FilePath

namespace FileTree

variable {t t' t'' : FileTree} {path name : String} {place dir : List String}

def file? (t : FileTree) (place : List String) : Option ByteArray :=
  match t.node? place with
  | some (.file content) => some content
  | _ => none

theorem file?_eq_some_iff {content : ByteArray} :
    t.file? place = some content ↔ t.node? place = some (.file content) := by
  unfold file?
  split <;> simp_all

theorem node?_root (t : FileTree) : t.node? [] = some .directory := rfl

section Put

variable {node : FileNode}

theorem lookup_replace_of_ne {q : List String} (h : q ≠ place)
    (es : List (List String × FileNode)) :
    (es.map fun e => if e.1 = place then (place, node) else e).lookup q = es.lookup q := by
  induction es with
  | nil => rfl
  | cons e es ih =>
    by_cases he : e.1 = place
    · have hq : (q == e.1) = false := by simpa [he] using h
      have hq' : (q == place) = false := by simpa using h
      rw [List.map_cons, if_pos he, List.lookup_cons, List.lookup_cons, hq, hq', ih]
    · rw [List.map_cons, if_neg he, List.lookup_cons, List.lookup_cons, ih]

theorem lookup_replace_self {es : List (List String × FileNode)}
    (h : (es.lookup place).isSome = true) :
    (es.map fun e => if e.1 = place then (place, node) else e).lookup place = some node := by
  induction es with
  | nil => cases h
  | cons e es ih =>
    by_cases he : e.1 = place
    · rw [List.map_cons, if_pos he, List.lookup_cons, beq_self_eq_true]
    · have hq : (place == e.1) = false := by simpa using Ne.symm he
      rw [List.lookup_cons, hq] at h
      rw [List.map_cons, if_neg he, List.lookup_cons, hq, ih h]

theorem lookup_put (t : FileTree) (q : List String) :
    (t.put place node).nodes.lookup q = if q = place then some node else t.nodes.lookup q := by
  unfold put
  split
  · rename_i hthere
    by_cases hq : q = place
    · rw [if_pos hq, hq, lookup_replace_self hthere]
    · rw [if_neg hq, lookup_replace_of_ne hq]
  · rename_i hthere
    rw [List.lookup_append]
    by_cases hq : q = place
    · subst hq
      simp [Option.not_isSome_iff_eq_none.mp hthere]
    · simp [hq, List.lookup_cons, beq_eq_false_iff_ne.mpr hq]

theorem node?_put (h : place ≠ []) (q : List String) :
    (t.put place node).node? q = if q = place then some node else t.node? q := by
  cases q with
  | nil => rw [node?_root, node?_root, if_neg h.symm]
  | cons name names => exact t.lookup_put (name :: names)

end Put

section Follow

theorem follow_eq_ok_iff : t.follow dir name = .ok place ↔
    t.node? dir = some .directory ∧ place = enter dir name := by
  unfold follow
  cases t.node? dir with
  | none => simp
  | some node => cases node <;> simp [eq_comm]

theorem foldlM_cons_eq_ok_iff {names : List String} :
    (name :: names).foldlM t.follow dir = .ok place ↔
      t.node? dir = some .directory ∧ names.foldlM t.follow (enter dir name) = .ok place := by
  rw [List.foldlM_cons]
  cases h : t.follow dir name with
  | ok next =>
    obtain ⟨hdir, rfl⟩ := follow_eq_ok_iff.mp h
    exact ⟨fun hrest => ⟨hdir, hrest⟩, And.right⟩
  | error fault =>
    refine ⟨nofun, fun ⟨hdir, _⟩ => ?_⟩
    rw [follow_eq_ok_iff.mpr ⟨hdir, rfl⟩] at h
    cases h

theorem foldlM_append_eq_ok_iff {names names' : List String} :
    (names ++ names').foldlM t.follow dir = .ok place ↔
      ∃ next, names.foldlM t.follow dir = .ok next ∧ names'.foldlM t.follow next = .ok place := by
  rw [List.foldlM_append]
  cases names.foldlM t.follow dir with
  | ok next => exact ⟨fun h => ⟨next, rfl, h⟩, fun ⟨_, h, h'⟩ => by cases h; exact h'⟩
  | error fault => exact ⟨nofun, fun ⟨_, h, _⟩ => by cases h⟩

theorem locate_eq_ok_iff : t.locate path = .ok place ↔
    path ≠ "" ∧ (pieces path).foldlM t.follow [] = .ok place := by
  by_cases h : path = ""
  · simp [locate, h]
  · simp [locate, h]

def LeadsTo (t : FileTree) (path : String) (place : List String) : Prop :=
  t.locate path = .ok place ∧ t.node? place = some .directory

/-- A name behind a path to a directory leads to an entry of the directory. -/
theorem LeadsTo.locate_join (h : t.LeadsTo path place) (hname : IsEntry name) :
    t.locate (join path name) = .ok (place ++ [name]) := by
  obtain ⟨hlocate, hdir⟩ := h
  obtain ⟨hpath, hfold⟩ := locate_eq_ok_iff.mp hlocate
  have hstep : [name].foldlM t.follow place = .ok (place ++ [name]) :=
    foldlM_cons_eq_ok_iff.mpr ⟨hdir, congrArg Except.ok (hname.enter_eq place)⟩
  refine locate_eq_ok_iff.mpr ⟨?_, ?_⟩
  · have hne : name ≠ "" := fun heq => hname.2 (by simp [heq])
    unfold join
    split <;> simp [hne]
  · rcases pieces_join hname.1 hpath with hpieces | ⟨before, hbefore, hpieces⟩
    · rw [hpieces]
      exact foldlM_append_eq_ok_iff.mpr ⟨place, hfold, hstep⟩
    · rw [hbefore] at hfold
      obtain ⟨last, hlast, hstay⟩ := foldlM_append_eq_ok_iff.mp hfold
      obtain ⟨-, hstay⟩ := foldlM_cons_eq_ok_iff.mp hstay
      obtain rfl : last = place := Except.ok.inj hstay
      rw [hpieces]
      exact foldlM_append_eq_ok_iff.mpr ⟨last, hlast, hstep⟩

theorem foldlM_pieces_of_names {ps : List String}
    (h : (ps.filter (· ≠ "")).foldlM t.follow dir = .ok place)
    (hplace : t.node? place = some .directory) :
    t.node? dir = some .directory ∧ ps.foldlM t.follow dir = .ok place := by
  induction ps generalizing dir with
  | nil =>
    cases h
    exact ⟨hplace, rfl⟩
  | cons p ps ih =>
    by_cases hp : p = ""
    · subst hp
      obtain ⟨hdir, hfold⟩ := ih h
      exact ⟨hdir, foldlM_cons_eq_ok_iff.mpr ⟨hdir, hfold⟩⟩
    · rw [List.filter_cons_of_pos (by simpa using hp)] at h
      obtain ⟨hdir, hrest⟩ := foldlM_cons_eq_ok_iff.mp h
      exact ⟨hdir, foldlM_cons_eq_ok_iff.mpr ⟨hdir, (ih hrest).2⟩⟩

end Follow

/-- Directories stay, and so do files outside of the places that are written. -/
structure Grows (t t' : FileTree) (written : List (List String)) : Prop where
  directories : ∀ place, t.node? place = some .directory → t'.node? place = some .directory
  files : ∀ place ∉ written, t'.file? place = t.file? place

namespace Grows

variable {written written' : List (List String)}

theorem refl (t : FileTree) : t.Grows t [] := ⟨fun _ h => h, fun _ _ => rfl⟩

theorem trans (h : t.Grows t' written) (h' : t'.Grows t'' written') :
    t.Grows t'' (written ++ written') where
  directories place hplace := h'.directories place (h.directories place hplace)
  files place hplace := by
    simp only [List.mem_append, not_or] at hplace
    rw [h'.files place hplace.2, h.files place hplace.1]

theorem foldlM_follow (h : t.Grows t' written) {names : List String}
    (hfold : names.foldlM t.follow dir = .ok place) : names.foldlM t'.follow dir = .ok place := by
  induction names generalizing dir with
  | nil => exact hfold
  | cons name names ih =>
    obtain ⟨hdir, hrest⟩ := foldlM_cons_eq_ok_iff.mp hfold
    exact foldlM_cons_eq_ok_iff.mpr ⟨h.directories dir hdir, ih hrest⟩

theorem locate (h : t.Grows t' written) (hpath : t.locate path = .ok place) :
    t'.locate path = .ok place := by
  obtain ⟨hne, hfold⟩ := locate_eq_ok_iff.mp hpath
  exact locate_eq_ok_iff.mpr ⟨hne, h.foldlM_follow hfold⟩

theorem leadsTo (h : t.Grows t' written) (hpath : t.LeadsTo path place) : t'.LeadsTo path place :=
  ⟨h.locate hpath.1, h.directories place hpath.2⟩

end Grows

section Create

theorem grows_put_directory (hplace : t.node? place = none) :
    t.Grows (t.put place .directory) [] := by
  have hne : place ≠ [] := by
    rintro rfl
    cases hplace
  constructor
  · intro q hq
    rw [node?_put hne]
    split
    · rfl
    · exact hq
  · intro q _
    unfold file?
    rw [node?_put hne]
    by_cases hq : q = place
    · subst hq
      rw [if_pos rfl, hplace]
    · rw [if_neg hq]

theorem isDirectory_iff : t.isDirectory path = true ↔ ∃ place, t.LeadsTo path place := by
  unfold isDirectory LeadsTo
  cases t.locate path with
  | error fault => simp [Except.toOption]
  | ok place =>
    cases hnode : t.node? place with
    | none => simp [Except.toOption, hnode]
    | some node => cases node <;> simp [Except.toOption, hnode]

theorem makeDirectory_eq_ok_iff : t.makeDirectory path = .ok t' ↔
    ∃ place, (names path).foldlM t.follow [] = .ok place ∧ t.node? place = none ∧
      t' = t.put place .directory := by
  unfold makeDirectory
  cases (names path).foldlM t.follow [] with
  | error fault => simp [bind, Except.bind]
  | ok place => cases hnode : t.node? place <;> simp [bind, Except.bind, hnode, eq_comm]

theorem makeDirectory_eq_ok (h : t.makeDirectory path = .ok t') :
    t.Grows t' [] ∧ ∃ place, t'.LeadsTo path place := by
  obtain ⟨place, hnames, hplace, rfl⟩ := makeDirectory_eq_ok_iff.mp h
  have hgrows := grows_put_directory hplace
  have hne : place ≠ [] := by
    rintro rfl
    cases hplace
  have hdir : (t.put place .directory).node? place = some .directory := by
    rw [node?_put hne, if_pos rfl]
  have hpath : path ≠ "" := by
    rintro rfl
    exact hne (Except.ok.inj hnames).symm
  have hpieces := (foldlM_pieces_of_names (hgrows.foldlM_follow hnames) hdir).2
  exact ⟨hgrows, place, locate_eq_ok_iff.mpr ⟨hpath, hpieces⟩, hdir⟩

theorem ensureDirectory_eq_ok (h : t.ensureDirectory path = .ok t') :
    t.Grows t' [] ∧ ∃ place, t'.LeadsTo path place := by
  unfold ensureDirectory at h
  split at h
  · split at h
    · rename_i hdir
      cases h
      exact ⟨.refl t, isDirectory_iff.mp hdir⟩
    · cases h
  · exact makeDirectory_eq_ok h

/-- The last step makes the directory itself, behind those it lies in if one of them is missing. -/
theorem ensureDirectories_cons_eq_none {above : List String}
    (h : t.ensureDirectories (path :: above) = (t', none)) :
    ∃ mid, (mid = t ∨ t.ensureDirectories above = (mid, none)) ∧
      mid.ensureDirectory path = .ok t' := by
  rw [ensureDirectories] at h
  split at h
  · rename_i hmade
    cases h
    exact ⟨t, .inl rfl, hmade⟩
  · split at h
    · cases h
    · rename_i mid habove
      split at h
      · rename_i hmade
        cases h
        exact ⟨mid, .inr habove, hmade⟩
      · cases h
  · cases h

theorem grows_ensureDirectories {paths : List String} (h : t.ensureDirectories paths = (t', none)) :
    t.Grows t' [] := by
  induction paths generalizing t' with
  | nil =>
    cases h
    exact .refl t
  | cons path above ih =>
    obtain ⟨mid, rfl | habove, hmade⟩ := ensureDirectories_cons_eq_none h
    · exact (ensureDirectory_eq_ok hmade).1
    · exact (ih habove).trans (ensureDirectory_eq_ok hmade).1

theorem createDirectory_eq_none (h : t.createDirectory path = (t', none)) :
    t.Grows t' [] ∧ ∃ place, t'.LeadsTo path place := by
  obtain ⟨mid, -, hmade⟩ := ensureDirectories_cons_eq_none h
  exact ⟨grows_ensureDirectories h, (ensureDirectory_eq_ok hmade).2⟩

end Create

/-- A file that could be written has its content, and the others have theirs. -/
theorem write_eq_none {content : ByteArray} (h : t.write path content = (t', none))
    (hpath : t.locate path = .ok place) :
    t.Grows t' [place] ∧ t'.file? place = some content := by
  unfold write at h
  rw [hpath] at h
  dsimp only at h
  split at h
  · cases h
  · rename_i hnode
    obtain rfl : t.put place (.file content) = t' := congrArg Prod.fst h
    have hne : place ≠ [] := by
      rintro rfl
      exact hnode rfl
    refine ⟨⟨fun q hq => ?_, fun q hq => ?_⟩, ?_⟩
    · rw [node?_put hne, if_neg]
      · exact hq
      · rintro rfl
        exact hnode hq
    · unfold file?
      rw [node?_put hne, if_neg (by simpa using hq)]
    · rw [file?_eq_some_iff, node?_put hne, if_pos rfl]

end FileTree

end GrammarForge
