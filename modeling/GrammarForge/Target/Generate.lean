import GrammarForge.Target.BindingGroup
import GrammarForge.Target.GrammarFile
import GrammarForge.Target.TokenModule

/-!
The parser for a target, as lines of text.
-/

namespace GrammarForge
namespace Target

def generate (d : Description) : Target → Except TargetProblem (List String)
  | .menhir => FileDialect.menhir.generate d
  | .dypgen => FileDialect.dypgen.generate d
  | .library l => l.generate d

end Target
end GrammarForge
