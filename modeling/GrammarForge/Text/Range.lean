/-!
Character classes given by ranges of code points.
-/

namespace GrammarForge
namespace Text

def isAscii (c : Char) : Bool := c.toNat < 128

def inRanges (ranges : List (Nat × Nat)) (c : Char) : Bool :=
  ranges.any fun r => r.1 ≤ c.toNat && c.toNat ≤ r.2

/-- Membership in one of the closed ranges, counting only every second code point from its start. -/
def inStrides (ranges : List (Nat × Nat)) (c : Char) : Bool :=
  ranges.any fun r => r.1 ≤ c.toNat && c.toNat ≤ r.2 && (c.toNat - r.1) % 2 == 0

end Text
end GrammarForge
