import GrammarForge.Job
import GrammarForge.Text.Column

/-!
The command line: what the arguments ask for, and what the program answers.
-/

namespace GrammarForge

inductive Command where
  | generate (job : Job)
  | showGrammar (path : String) (asWritten : Bool)
  | showTokens (path : String)
  | listTargets
  | version
deriving DecidableEq, Repr

inductive CommandOption where
  | grammar
  | output
  | start
  | backend
  | jobs
  | untransformed
deriving DecidableEq, Repr

namespace CommandOption

def long : CommandOption → String
  | .grammar => "grammar"
  | .output => "output"
  | .start => "start"
  | .backend => "backend"
  | .jobs => "jobs"
  | .untransformed => "untransformed"

def short? : CommandOption → Option Char
  | .grammar => some 'g'
  | .output => some 'o'
  | .start => some 's'
  | .backend => some 'p'
  | .jobs => some 'j'
  | .untransformed => none

def takesValue : CommandOption → Bool
  | .untransformed => false
  | _ => true

/-- Options that add up when they are given again. -/
def repeatable : CommandOption → Bool
  | .start | .backend => true
  | _ => false

end CommandOption

inductive Argument where
  /-- A long or short option by its description, with the value attached to it. -/
  | option (o : CommandOption) (value? : Option String)
  | stop
  | unknown
deriving DecidableEq, Repr

namespace Argument

/-- A long option: its name, up to an equals sign and a value. -/
def ofLong (known : List CommandOption) (text : List Char) : Argument :=
  let name := String.ofList (text.takeWhile (· ≠ '='))
  match known.find? (·.long == name), text.dropWhile (· ≠ '=') with
  | some o, [] => .option o none
  | some o, _ :: value => .option o (some (String.ofList value))
  | none, _ => .unknown

/-- A short option: its letter, and a value right behind it or behind an equals sign. -/
def ofShort (known : List CommandOption) (letter : Char) (rest : List Char) : Argument :=
  match known.find? (·.short? == some letter), rest with
  | some o, [] => .option o none
  | some o, '=' :: value => .option o (some (String.ofList value))
  | some o, value => .option o (some (String.ofList value))
  | none, _ => .unknown

def of (known : List CommandOption) (arg : String) : Argument :=
  match arg.toList with
  | ['-', '-'] => .stop
  | '-' :: '-' :: text => ofLong known text
  | '-' :: letter :: rest => ofShort known letter rest
  | _ => .unknown

/-- The value of an option may not look like an option itself. -/
def isValue (arg : String) : Bool :=
  match arg.toList with
  | '-' :: _ :: _ => false
  | _ => true

end Argument

/-- An option with its value; the value of an option that takes none is empty. -/
abbrev Setting := CommandOption × String

namespace CommandLine

def settings? (known : List CommandOption) : List String → Option (List Setting)
  | [] => some []
  | arg :: rest =>
    match Argument.of known arg with
    | .unknown => none
    | .stop => if rest.isEmpty then some [] else none
    | .option o (some value) =>
      if o.takesValue then ((o, value) :: ·) <$> settings? known rest else none
    | .option o none =>
      if o.takesValue then
        match rest with
        | [] => none
        | value :: rest =>
          if Argument.isValue value then ((o, value) :: ·) <$> settings? known rest else none
      else ((o, "") :: ·) <$> settings? known rest

def values (o : CommandOption) (settings : List Setting) : List String :=
  (settings.filter (·.1 = o)).map Prod.snd

def noRepeats (settings : List Setting) : Bool :=
  settings.all fun s => s.1.repeatable || (values s.1 settings).length = 1

def path? (s : String) : Option String := if s.isEmpty then none else some s

/-- A number of machine size, in decimal digits that a plus sign may precede. -/
def number? (s : String) : Option Nat :=
  let digits := match s.toList with
    | '+' :: ds => ds
    | ds => ds
  if digits.isEmpty || digits.any (! ·.isDigit) then none
  else
    let n := digits.foldl (fun n d => 10 * n + (d.toNat - '0'.toNat)) 0
    if n < UInt64.size then some n else none

def optional? (read : String → Option α) (default : α) : List String → Option α
  | [] => some default
  | value :: _ => read value

def grammar? (settings : List Setting) : Option String :=
  optional? path? Job.defaultGrammar (values .grammar settings)

def generate? (settings : List Setting) : Option Command := do
  let grammar ← grammar? settings
  let output ← (values .output settings).head?.bind path?
  let targets ← (values .backend settings).mapM fun name => (Target.ofName name).toOption
  let workers? ← optional? (fun s => (number? s).map some) none (values .jobs settings)
  return .generate (((Job.new grammar output).withStarts (values .start settings)).withTargets
    targets |>.withWorkers workers?)

def checked? (known : List CommandOption) (args : List String)
    (read : List Setting → Option Command) : Option Command :=
  (settings? known args).bind fun settings =>
    if noRepeats settings then read settings else none

/-- What the arguments ask for; nothing if they are no proper use of the program. -/
def parse? : List String → Option Command
  | [] => none
  | "generate" :: args => checked? [.grammar, .output, .start, .backend, .jobs] args generate?
  | "show" :: args =>
    checked? [.grammar, .untransformed] args fun settings =>
      (grammar? settings).map fun path =>
        .showGrammar path !(values .untransformed settings).isEmpty
  | "tokens" :: args =>
    checked? [.grammar] args fun settings => (grammar? settings).map .showTokens
  | "list" :: args => checked? [] args fun _ => some .listTargets
  | arg :: _ =>
    match arg.toList with
    | '-' :: 'V' :: _ => some .version
    | _ => if arg = "--version" then some .version else none

end CommandLine

structure Response where
  output : String
  actions : List FileAction
deriving DecidableEq, Repr

namespace Command

def printing (output : String) : Response := ⟨output, []⟩

def printingLines (lines : List String) : Response := printing (String.join (lines.map (· ++ "\n")))

def source? : Command → Option String
  | .generate job => some job.grammar
  | .showGrammar path _ => some path
  | .showTokens path => some path
  | _ => none

def destination? : Command → Option String
  | .generate job => some job.output
  | _ => none

def respond (text : Except FileFault String) (destinationIsFile : Bool) :
    Command → Except Failure Response
  | .generate job => (job.plan destinationIsFile text).map fun actions => ⟨"", actions⟩
  | .showGrammar path asWritten =>
    (loadGrammar path asWritten text).map fun g => printing g.displayLines
  | .showTokens path => do
    let g ← loadGrammar path false text
    let d ← (Description.of g []).mapError .start
    .ok (printingLines d.report)
  | .listTargets =>
    .ok (printingLines (Target.all.map fun t => Text.padRight 16 t.name ++ " " ++ t.fileName))
  | .version => .ok (printing "pwzgen 0.1.0\n")

end Command

structure Outcome where
  exitCode : Nat
  stdout : String
  stderr : String
deriving DecidableEq, Repr

namespace Outcome

def usage : Outcome :=
  ⟨2, "", "usage: pwzgen (generate | show | tokens | list) [options]\n"⟩

def success (output : String) : Outcome := ⟨0, output, ""⟩

def failure (f : Failure) : Outcome := ⟨1, "", f.report⟩

end Outcome

namespace CommandLine

/-- Run the program on the files below the working directory. -/
def run (args : List String) (t : FileTree) : Outcome × FileTree :=
  match parse? args with
  | none => (.usage, t)
  | some command =>
    let text := t.readText (command.source?.getD "")
    let destinationIsFile := command.destination?.any t.isFile
    match command.respond text destinationIsFile with
    | .error f => (.failure f, t)
    | .ok response =>
      match t.performAll response.actions with
      | (t, none) => (.success response.output, t)
      | (t, some f) => (.failure f, t)

end CommandLine
end GrammarForge
