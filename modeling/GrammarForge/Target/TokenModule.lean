import GrammarForge.Target.Resolved

/-!
The token module that every generated parser opens.
-/

namespace GrammarForge
namespace TokenModule

/-- Lines for the items of a section. The first line is there even without an item. -/
def clauses (first next : String) : List String → List String
  | [] => [first]
  | x :: xs => (first ++ x) :: xs.map (next ++ ·)

def cases (items : List String) : List String := clauses "    | " "    | " items

def typeClauses (v : Vocabulary) : List String :=
  v.untyped.map (fun name => name ++ "_") ++
    v.typed.map fun (name, type) => name ++ "_ of " ++ type

def stringClauses (v : Vocabulary) : List String :=
  v.untyped.map (fun name => name ++ "_ -> \"" ++ name ++ "\"") ++
    v.typed.map fun (name, _) => name ++ "_ s -> s"

/-- A token without a text is paired with its name, one with a text with that. -/
def pairClause (v : Vocabulary) (name : String) (tag : Nat) : String :=
  if v.isTyped name then name ++ "_ s -> (" ++ toString tag ++ ", s)"
  else name ++ "_ -> (" ++ toString tag ++ ", \"" ++ name ++ "\")"

def association (v : Vocabulary) : List String :=
  v.untyped.map fun name => "(\"" ++ name ++ "\", " ++ name ++ "_)"

def pattern (k : Token.Kind) : String :=
  let name := k.label
  if k.carriesText then
    "pat_match \"^" ++ name ++ " \\\"\\\\(.*\\\\)\\\"$\" then " ++ name ++ "_ (matched s)"
  else "pat_match \"^" ++ name ++ "$\" then " ++ name ++ "_"

/-- The tests for the kinds that the vocabulary holds, in table order. -/
def patterns (v : Vocabulary) : List String :=
  let present := Token.Kind.all.filter fun k => v.all.contains k.label
  let tests := (present.filter Token.Kind.isLayout ++ present.filter Token.Kind.carriesText).map
    pattern
  if tests.isEmpty then ["false then assert false"] else tests

/-- The module; `pairs` are the clauses of the token pairs. -/
def file (v : Vocabulary) (pairs : List String) : List String :=
  ["open Core",
    "",
    "type ast = Pyast.ast",
    "",
    "type tag = int",
    "type lab = string",
    "type token_pair = (tag * lab)",
    "",
    "type token ="] ++
  cases (typeClauses v) ++
  ["",
    "let string_of_token (t : token) : string =",
    "    match t with"] ++
  cases (stringClauses v) ++
  ["",
    "let token_pair_of_token (t : token) : token_pair =",
    "    match t with"] ++
  cases pairs ++
  ["",
    "let string_token_assoc : (string * token) list ="] ++
  clauses "    [ " "    ; " (association v) ++
  ["    ]",
    "",
    "let token_of_string (s : string) : token =",
    "    let pat_match (pat : string) : bool = Str.string_match (Str.regexp pat) s 0 in",
    "    let matched (s : string) : string = Str.matched_group 1 s in"] ++
  clauses "    if " "    else if " (patterns v) ++
  ["    else try  List.Assoc.find_exn ~equal:String.equal string_token_assoc s",
    "         with Not_found -> failwith (\"Could not find token '\" ^ s ^ " ++
      "\"' in string_token_assoc.\")",
    "",
    "let token_pair_of_string (s : string) : token_pair = " ++
      "token_pair_of_token (token_of_string s)",
    ""]

def generate (d : Description) : Except TargetProblem (List String) := do
  let v := d.vocabulary
  let tagged ← v.tagged
  .ok (file v (tagged.map fun (name, tag) => pairClause v name tag))

end TokenModule
end GrammarForge
