import GrammarForge.Rule.Basic

/-!
Names of synthesized rules. A name tells the rule it was made for, why, and where; a running
number keeps names apart.
-/

namespace GrammarForge

inductive Origin where
  | list
  | group
  | optionalGroup
deriving DecidableEq, Repr

namespace Origin

def tag : Origin → String
  | .list => "lst"
  | .group => "grp"
  | .optionalGroup => "opt_grp"

/-- The name of the rule made for `owner` at a position, with the running number `counter`. -/
def name (origin : Origin) (owner : String) (position counter : Nat) : String :=
  owner ++ "__" ++ origin.tag ++ "_" ++ toString position ++ "__" ++ toString counter

def names (counter : Nat) : List (String × Origin × Nat) → List String
  | [] => []
  | (owner, origin, position) :: calls =>
    origin.name owner position counter :: names (counter + 1) calls

def firstCounter : Nat := 1

end Origin
end GrammarForge
