import GrammarForge.CommandLine

/-!
The program. It reads the grammar of a command, asks for the response, and performs it.
-/

namespace GrammarForge

def FileFault.ofError (e : IO.Error) : FileFault :=
  match e with
  | .noFileOrDirectory .. => .notFound
  | .alreadyExists .. => .alreadyExists
  | .inappropriateType _ code _ => if code.toNat = 21 then .isADirectory else .notADirectory
  | e => .other (toString e)

def attempt (action : IO α) : IO (Except FileFault α) := do
  match ← action.toBaseIO with
  | .ok x => return .ok x
  | .error e => return .error (.ofError e)

def readFile (path : String) : IO (Except FileFault String) := do
  match ← attempt (IO.FS.readBinFile path) with
  | .error fault => return .error fault
  | .ok bytes =>
    match String.fromUTF8? bytes with
    | some text => return .ok text
    | none => return .error .notText

/-- A file is what can be read as one. -/
def isReadable (path : String) : IO Bool := do
  return (← attempt (IO.FS.readBinFile path)).toBool

def ensureDirectory (path : String) : IO (Except FileFault Unit) := do
  match ← attempt (IO.FS.createDir path) with
  | .error .alreadyExists => attempt (IO.FS.createDirAll path)
  | result => return result

def ensureDirectories : List String → IO (Except FileFault Unit)
  | [] => return .ok ()
  | path :: above => do
    match ← ensureDirectory path with
    | .error .notFound =>
      match ← ensureDirectories above with
      | .ok () => ensureDirectory path
      | failed => return failed
    | result => return result

def performAction : FileAction → IO (Except FileFault Unit)
  | .createDirectory path => ensureDirectories (FilePath.ancestors path)
  | .write path content => attempt (IO.FS.writeFile path content)

def performActions : List FileAction → IO (Option Failure)
  | [] => return none
  | a :: rest => do
    match ← performAction a with
    | .ok () => performActions rest
    | .error fault => return some (a.failure fault)

def execute (command : Command) : IO Outcome := do
  let text ← match command.source? with
    | some path => readFile path
    | none => pure (.error .notFound)
  let destinationIsFile ← match command.destination? with
    | some path => isReadable path
    | none => pure false
  match command.respond text destinationIsFile with
  | .error f => return .failure f
  | .ok response =>
    match ← performActions response.actions with
    | none => return .success response.output
    | some f => return .failure f

end GrammarForge

def main (args : List String) : IO UInt32 := do
  let outcome ← match GrammarForge.CommandLine.parse? args with
    | none => pure GrammarForge.Outcome.usage
    | some command => GrammarForge.execute command
  IO.print outcome.stdout
  IO.eprint outcome.stderr
  return outcome.exitCode.toUInt32
