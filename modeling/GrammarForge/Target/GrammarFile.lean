import GrammarForge.Target.Resolved

/-!
Grammar files of LR-style parser generators.
-/

namespace GrammarForge

structure FileDialect where
  /-- The lines around the code in front of the grammar. -/
  opening : String
  closing : String
  limit? : Option Limit
  /-- A rule with a single production stays on one line. -/
  inlineSingle : Bool

namespace FileDialect

/-- The names for the results of components end with `$9`. -/
def menhir : FileDialect where
  opening := "%\x7b"
  closing := "%\x7d"
  limit? := some ⟨Target.name .menhir, 9⟩
  inlineSingle := true

def dypgen : FileDialect where
  opening := "\x7b"
  closing := "\x7d"
  limit? := none
  inlineSingle := false

def action (code : String) : String := "\x7b " ++ code ++ " \x7d"

/-- The components of a production, and the code that puts their results under its label. -/
def production (a : Alternative) : String :=
  let results := (List.range a.parts.length).map fun i => "$" ++ toString (i + 1)
  " ".intercalate a.parts ++ " " ++
    action ("seq (\"" ++ a.label ++ "\", [ " ++ "; ".intercalate results ++ " ])")

def rule (dialect : FileDialect) (r : ResolvedRule) : List String :=
  match dialect.inlineSingle, r.alternatives with
  | true, [a] => [r.name ++ ": " ++ production a]
  | _, as => (r.name ++ ":") :: as.map fun a => "    | " ++ production a

def header (dialect : FileDialect) : List String :=
  ["/* Prelude */",
    dialect.opening,
    "let seq (p : (string * Pyast.ast list)) : Pyast.ast = Pyast.Ast (fst p, snd p)",
    "let tok (s : string) : Pyast.ast = seq (s, [])",
    dialect.closing]

def tokenDeclarations (v : Vocabulary) : List String :=
  v.untyped.map (fun name => "%token " ++ name ++ "_") ++
    v.typed.map fun (name, type) => "%token <" ++ type ++ "> " ++ name ++ "_"

def tokenRules (v : Vocabulary) : List String :=
  v.untyped.map (fun name => name ++ ": " ++ name ++ "_ " ++ action ("tok \"" ++ name ++ "\"")) ++
    v.typed.map fun (name, _) => name ++ ": " ++ name ++ "_ " ++ action "tok $1"

def startDeclarations (starts : List String) : List String :=
  starts.map ("%start <Pyast.ast> " ++ ·)

def generate (dialect : FileDialect) (d : Description) :
    Except TargetProblem (List String) := do
  let rules ← d.resolve dialect.limit?
  let v := d.vocabulary
  .ok (dialect.header ++ ["", "/* Token Definitions */"] ++ tokenDeclarations v ++
    ["", "/* Start Symbols */"] ++ startDeclarations d.starts ++ ["", "%%", ""] ++
    ["/* Token Parsers */"] ++ tokenRules v ++ ["", "/* Main Grammar Parsers */"] ++
    rules.flatMap dialect.rule ++ [""])

end FileDialect
end GrammarForge
