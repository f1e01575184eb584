import GrammarForge.Files.Tree
import GrammarForge.Target.Generate

/-!
A generator job: which grammar, which targets, and where the parsers go. What a job does to files
is a list of actions, and the list is there only when everything could be generated.
-/

namespace GrammarForge

structure Job where
  grammar : String
  output : String
  starts : List String
  /-- In the order in which they are written. -/
  targets : List Target
  workers? : Option Nat
deriving DecidableEq, Repr

inductive JobProblem where
  | noStart
  | noOutput
  | outputIsFile (path : String)
  | noWorkers
deriving DecidableEq, Repr

namespace JobProblem

def message : JobProblem → String
  | .noStart => "at least one start symbol is required"
  | .noOutput => "an output directory is required"
  | .outputIsFile path => s!"output path {path} is a file"
  | .noWorkers => "the number of jobs must be positive"

end JobProblem

inductive Failure where
  | job (problem : JobProblem)
  | grammar (path : String) (problem : Problem)
  | start (problem : Problem)
  | target (target : Target) (problem : TargetProblem)
  | tokens (problem : TargetProblem)
  | create (path : String) (fault : FileFault)
  | write (path : String) (fault : FileFault)
deriving DecidableEq, Repr

namespace Failure

def chain : Failure → List String
  | .job problem => [problem.message]
  | .grammar path problem => ["failed to load grammar " ++ path, problem.message]
  | .start problem => [problem.message]
  | .target t problem => ["backend " ++ t.name ++ " failed", problem.message]
  | .tokens problem => [problem.message]
  | .create path fault => ["failed to create " ++ path, fault.message]
  | .write path fault => ["failed to write " ++ path, fault.message]

def message (f : Failure) : String := ": ".intercalate f.chain

/-- As a paragraph, with the cause indented. -/
def report (f : Failure) : String :=
  match f.chain with
  | [] => ""
  | [what] => "Error: " ++ what ++ "\n"
  | what :: causes =>
    "Error: " ++ what ++ "\n\nCaused by:" ++
      String.join ((causes.flatMap Text.lines).map ("\n    " ++ ·)) ++ "\n"

end Failure

def loadGrammar (path : String) (asWritten : Bool) (text : Except FileFault String) :
    Except Failure Grammar :=
  match text with
  | .error fault => .error (.grammar path (.unreadable path fault))
  | .ok text =>
    (if asWritten then Grammar.ofTextAsWritten text else Grammar.ofText text).mapError
      (.grammar path)

namespace Job

def defaultGrammar : String := "grammars/python-3.4.grammar"

def defaultStart : String := "file_input"

def new (grammar output : String) : Job := ⟨grammar, output, [defaultStart], Target.all, none⟩

/-- No start symbol at all leaves the choice as it is. -/
def withStarts (j : Job) (starts : List String) : Job :=
  if starts.isEmpty then j else { j with starts := starts }

/-- Each target once, in the order of first mention. No target at all leaves the choice as it
is. -/
def withTargets (j : Job) (targets : List Target) : Job :=
  if targets.isEmpty then j else { j with targets := targets.eraseDups }

def withWorkers (j : Job) (workers? : Option Nat) : Job := { j with workers? := workers? }

def problem? (j : Job) (outputIsFile : Bool) : Option JobProblem :=
  if j.starts.isEmpty then some .noStart
  else if j.output.isEmpty then some .noOutput
  else if outputIsFile then some (.outputIsFile j.output)
  else if j.workers? = some 0 then some .noWorkers
  else none

def parsers (targets : List Target) (d : Description) :
    Except Failure (List (Target × List String)) :=
  targets.mapM fun t => ((t.generate d).mapError (.target t)).map fun lines => (t, lines)

def writeInto (dir name : String) (lines : List String) : List FileAction :=
  [.createDirectory dir, .write (FilePath.join dir name) (Text.unlines lines)]

def actions (j : Job) (tokens : List String) (parsers : List (Target × List String)) :
    List FileAction :=
  writeInto j.output Target.tokensFile tokens ++
    parsers.flatMap fun (t, lines) => writeInto (FilePath.join j.output t.name) t.fileName lines

/-- All that a job does, given the text of its grammar. -/
def plan (j : Job) (outputIsFile : Bool) (text : Except FileFault String) :
    Except Failure (List FileAction) := do
  if let some problem := j.problem? outputIsFile then .error (.job problem)
  let g ← loadGrammar j.grammar false text
  let d ← (Description.of g j.starts).mapError .start
  let parsers ← parsers j.targets d
  let tokens ← (TokenModule.generate d).mapError .tokens
  .ok (j.actions tokens parsers)

end Job

namespace FileAction

def failure (fault : FileFault) : FileAction → Failure
  | .createDirectory path => .create path fault
  | .write path _ => .write path fault

end FileAction

namespace FileTree

/-- Perform actions up to the first that fails. -/
def performAll (t : FileTree) : List FileAction → FileTree × Option Failure
  | [] => (t, none)
  | a :: rest =>
    match t.perform a with
    | (t, none) => t.performAll rest
    | (t, some fault) => (t, some (a.failure fault))

end FileTree

namespace Job

def run (j : Job) (t : FileTree) : FileTree × Option Failure :=
  match j.plan (t.isFile j.output) (t.readText j.grammar) with
  | .error failure => (t, some failure)
  | .ok actions => t.performAll actions

end Job
end GrammarForge
