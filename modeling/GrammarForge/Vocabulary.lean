import GrammarForge.Text.Order
import GrammarForge.Text.Word
import GrammarForge.Token.Kind

/-!
The token names of a grammar and their numeric tags.
-/

namespace GrammarForge

/-- Token names by category. Typed names come with the type of the text they carry. -/
structure Vocabulary where
  named : List String
  nameless : List String
  typed : List (String × String)
deriving DecidableEq, Repr

inductive Naming where
  | named (name : String)
  | typed (name type : String)
  | nameless
deriving DecidableEq, Repr

namespace Naming

/-- Words are named by their capitals and operators by the token table. Anything else has no
name of its own. -/
def ofTerminal (value : String) : Naming :=
  if Text.isIdentifier value then
    let name := Text.upper value
    match (Token.Kind.ofLabel? name).bind Token.Kind.payloadType? with
    | some type => .typed name type
    | none => .named name
  else match Token.Operator.ofSpelling? value with
    | some o => .named o.name
    | none => .nameless

def named? : Naming → Option String
  | .named name => some name
  | _ => none

def typed? : Naming → Option (String × String)
  | .typed name type => some (name, type)
  | _ => none

end Naming

def namelessName (n : Nat) : String := "TOKEN_" ++ toString n

/-- Pair terminals with their names; `count` names have been made before. -/
def nameTerminals (count : Nat) : List String → List (String × String)
  | [] => []
  | value :: rest =>
    match Naming.ofTerminal value with
    | .named name => (value, name) :: nameTerminals count rest
    | .typed name _ => (value, name) :: nameTerminals count rest
    | .nameless => (value, namelessName (count + 1)) :: nameTerminals (count + 1) rest

namespace Vocabulary

/-- The vocabulary of terminals in the order of their first occurrence. -/
def ofTerminals (values : List String) : Vocabulary where
  named := Text.sortedBy id (values.filterMap fun v => (Naming.ofTerminal v).named?)
  nameless := ((List.range (values.countP fun v => Naming.ofTerminal v = .nameless)).map
    fun i => namelessName (i + 1))
  typed := Text.sortedBy Prod.fst (values.filterMap fun v => (Naming.ofTerminal v).typed?)

def untyped (v : Vocabulary) : List String := v.named ++ v.nameless

def all (v : Vocabulary) : List String := v.untyped ++ v.typed.map Prod.fst

def size (v : Vocabulary) : Nat := v.named.length + v.nameless.length + v.typed.length

def isTyped (v : Vocabulary) (name : String) : Bool := (v.typed.map Prod.fst).contains name

def type? (v : Vocabulary) (name : String) : Option String := v.typed.lookup name

/-- The tag of a name: its place in the token table; behind the table come the nameless tokens,
and behind those the named tokens that are not in the table. -/
def tag? (v : Vocabulary) (name : String) : Option Nat :=
  match Token.Kind.ofLabel? name with
  | some k => some k.tag
  | none =>
    match v.nameless.idxOf? name with
    | some i => some (Token.freeTag + i)
    | none =>
      ((v.named.filter fun n => (Token.Kind.ofLabel? n).isNone).idxOf? name).map
        fun i => Token.freeTag + v.nameless.length + i

end Vocabulary
end GrammarForge
