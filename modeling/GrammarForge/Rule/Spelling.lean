import GrammarForge.Rule.Basic
import GrammarForge.Text.Word
import GrammarForge.Token.Basic

/-!
The written form of a rule body as a grammar over tokens: which tokens spell which alternatives.
-/

namespace GrammarForge

inductive BodyPart where
  | alternatives (ps : List Production)
  | sequence (p : Production)
  | component (c : Component)
  | symbol (s : Symbol)

/-- A word in upper case stands for a terminal, and any other word in lower case refers to a
rule. -/
inductive StandsFor (word : String) : Symbol → Prop where
  | terminal : Text.isUpperWord word = true → StandsFor word (.terminal word)
  | reference : Text.isUpperWord word = false → Text.isLowerWord word = true →
      StandsFor word (.nonTerminal word)

/-- Tokens spell a part of a body. Of several marks behind a component the last one counts. -/
inductive Spells : List Token → BodyPart → Prop where
  | single {ts : List Token} {p : Production} :
      Spells ts (.sequence p) → Spells ts (.alternatives [p])
  | choice {ts us : List Token} {bar : Token} {p : Production} {ps : List Production} :
      Spells ts (.sequence p) → bar.kind = .op .pipe → Spells us (.alternatives ps) →
      Spells (ts ++ bar :: us) (.alternatives (p :: ps))
  | nil : Spells [] (.sequence [])
  | cons {ts us : List Token} {c : Component} {p : Production} :
      Spells ts (.component c) → Spells us (.sequence p) → Spells (ts ++ us) (.sequence (c :: p))
  | once {ts : List Token} {s : Symbol} : Spells ts (.symbol s) → Spells ts (.component (.once s))
  | star {ts : List Token} {t : Token} {c : Component} :
      Spells ts (.component c) → t.kind = .op .star →
      Spells (ts ++ [t]) (.component ⟨c.symbol, .star⟩)
  | plus {ts : List Token} {t : Token} {c : Component} :
      Spells ts (.component c) → t.kind = .op .plus →
      Spells (ts ++ [t]) (.component ⟨c.symbol, .plus⟩)
  | word {t : Token} {s : Symbol} :
      t.kind = .name → StandsFor t.text s → Spells [t] (.symbol s)
  | literal {t : Token} : t.kind = .string → Spells [t] (.symbol (.literal t.text))
  | group {first last : Token} {ts : List Token} {ps : List Production} :
      first.kind = .op .lPar → Spells ts (.alternatives ps) → last.kind = .op .rPar →
      Spells (first :: ts ++ [last]) (.symbol (.group ⟨false, false, ps⟩))
  | optional {first last : Token} {ts : List Token} {ps : List Production} :
      first.kind = .op .lSqr → Spells ts (.alternatives ps) → last.kind = .op .rSqr →
      Spells (first :: ts ++ [last]) (.symbol (.group ⟨true, false, ps⟩))

end GrammarForge
