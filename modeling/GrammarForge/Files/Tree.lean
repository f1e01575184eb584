import GrammarForge.Problem
import GrammarForge.Text.Lines

/-!
Files and directories below a working directory. Links and permissions are left out: every
node is a plain file or a directory, and neither keeps anyone from reading or writing it.
-/

namespace GrammarForge

inductive FileNode where
  | file (content : ByteArray)
  | directory

/-- The nodes by the names that lead to them. The working directory itself is always there. -/
structure FileTree where
  nodes : List (List String × FileNode)

inductive FileAction where
  | createDirectory (path : String)
  | write (path content : String)
deriving DecidableEq, Repr

namespace FilePath

/-- The names in a path. An empty name stands for the directory it is looked up in. -/
def pieces (path : String) : List String := (Text.split '/' path.toList).map String.ofList

def names (path : String) : List String := (pieces path).filter (· ≠ "")

/-- The paths that end in a name, among the beginnings of a path whose pieces come last to first.
The longest is the first. -/
def beginnings : List String → List String
  | [] => []
  | piece :: before =>
    if piece = "" || piece = "." then beginnings before
    else "/".intercalate (piece :: before).reverse :: beginnings before

def ancestors (path : String) : List String := path :: (beginnings (pieces path).reverse).tail

def join (path name : String) : String :=
  if path.isEmpty || path.toList.getLast? = some '/' then path ++ name else path ++ "/" ++ name

def enter (dir : List String) (name : String) : List String :=
  if name = "" || name = "." then dir else if name = ".." then dir.dropLast else dir ++ [name]

end FilePath

namespace FileTree

def empty : FileTree := ⟨[]⟩

def node? (t : FileTree) (place : List String) : Option FileNode :=
  if place.isEmpty then some .directory else t.nodes.lookup place

def put (t : FileTree) (place : List String) (node : FileNode) : FileTree :=
  if (t.nodes.lookup place).isSome then
    ⟨t.nodes.map fun e => if e.1 = place then (place, node) else e⟩
  else ⟨t.nodes ++ [(place, node)]⟩

def follow (t : FileTree) (dir : List String) (name : String) :
    Except FileFault (List String) :=
  match t.node? dir with
  | some .directory => .ok (FilePath.enter dir name)
  | some (.file _) => .error .notADirectory
  | none => .error .notFound

/-- The place a path leads to. Nothing needs to be there. -/
def locate (t : FileTree) (path : String) : Except FileFault (List String) :=
  if path.isEmpty then .error .notFound else (FilePath.pieces path).foldlM t.follow []

def read (t : FileTree) (path : String) : Except FileFault ByteArray := do
  match t.node? (← t.locate path) with
  | some (.file content) => .ok content
  | some .directory => .error .isADirectory
  | none => .error .notFound

def readText (t : FileTree) (path : String) : Except FileFault String := do
  match String.fromUTF8? (← t.read path) with
  | some text => .ok text
  | none => .error .notText

def isFile (t : FileTree) (path : String) : Bool :=
  match t.read path with
  | .ok _ => true
  | .error _ => false

def isDirectory (t : FileTree) (path : String) : Bool :=
  match (t.locate path).toOption.bind t.node? with
  | some .directory => true
  | _ => false

def makeDirectory (t : FileTree) (path : String) : Except FileFault FileTree := do
  let place ← (FilePath.names path).foldlM t.follow []
  match t.node? place with
  | some _ => .error .alreadyExists
  | none => .ok (t.put place .directory)

def ensureDirectory (t : FileTree) (path : String) : Except FileFault FileTree :=
  match t.makeDirectory path with
  | .error .alreadyExists => if t.isDirectory path then .ok t else .error .alreadyExists
  | result => result

/-- Make the first directory, and before it the others where one of them is missing. What has been
made stays when a later step fails. -/
def ensureDirectories (t : FileTree) : List String → FileTree × Option FileFault
  | [] => (t, none)
  | path :: above =>
    match t.ensureDirectory path with
    | .ok t => (t, none)
    | .error .notFound =>
      match t.ensureDirectories above with
      | (t, some fault) => (t, some fault)
      | (t, none) =>
        match t.ensureDirectory path with
        | .ok t => (t, none)
        | .error fault => (t, some fault)
    | .error fault => (t, some fault)

def createDirectory (t : FileTree) (path : String) : FileTree × Option FileFault :=
  t.ensureDirectories (FilePath.ancestors path)

def write (t : FileTree) (path : String) (content : ByteArray) : FileTree × Option FileFault :=
  match t.locate path with
  | .error fault => (t, some fault)
  | .ok place =>
    match t.node? place with
    | some .directory => (t, some .isADirectory)
    | _ => (t.put place (.file content), none)

def perform (t : FileTree) : FileAction → FileTree × Option FileFault
  | .createDirectory path => t.createDirectory path
  | .write path content => t.write path content.toUTF8

def place (t : FileTree) (path : String) (content : ByteArray) : FileTree :=
  (t.ensureDirectories (FilePath.ancestors path).tail).1.put (FilePath.names path) (.file content)

def ofFiles (files : List (String × ByteArray)) : FileTree :=
  files.foldl (fun t f => t.place f.1 f.2) empty

def files (t : FileTree) : List (String × ByteArray) :=
  t.nodes.filterMap fun (place, node) =>
    match node with
    | .file content => some ("/".intercalate place, content)
    | .directory => none

end FileTree
end GrammarForge
