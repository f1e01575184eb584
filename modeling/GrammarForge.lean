import GrammarForge.Main
import GrammarForge.Proofs.Normalization
import GrammarForge.Rule.Derivation
import GrammarForge.Rule.Spelling
import GrammarForge.Target.Result
import GrammarForge.Proofs.AliasRemoval
import GrammarForge.Proofs.BodyReading
import GrammarForge.Proofs.RuleReading
import GrammarForge.Proofs.Lexing
import GrammarForge.Proofs.PrintedRules
import GrammarForge.Proofs.FlatRules
import GrammarForge.Proofs.SynthesizedNames
import GrammarForge.Proofs.References
import GrammarForge.Proofs.Canonical
import GrammarForge.Proofs.Transformation
import GrammarForge.Proofs.Reprinting
import GrammarForge.Proofs.TokenNames
import GrammarForge.Proofs.Violations
import GrammarForge.Proofs.Unmarked
import GrammarForge.Proofs.Encodings
import GrammarForge.Proofs.QuotedTexts
import GrammarForge.Proofs.Labels
import GrammarForge.Proofs.LabelSequence
import GrammarForge.Proofs.Bindings
import GrammarForge.Proofs.ReadingModes
import GrammarForge.Proofs.GrammarFiles
import GrammarForge.Proofs.DistinctNames
import GrammarForge.Proofs.Places
import GrammarForge.Proofs.WorkerPool
import GrammarForge.Proofs.JobRuns
import GrammarForge.Proofs.AliasCycles
import GrammarForge.Proofs.AliasResolution
import GrammarForge.Proofs.TokenSpans
import GrammarForge.Proofs.NormalizationOutcome
import GrammarForge.Proofs.CounterRenaming
import GrammarForge.Proofs.LeftmostErrors
import GrammarForge.Proofs.LayoutTokens
import GrammarForge.Proofs.ClosingQuotes
import GrammarForge.Proofs.LineEndLexemes
import GrammarForge.Proofs.LineEndTokens
import GrammarForge.Proofs.Classification
import GrammarForge.Proofs.TokenTags
import GrammarForge.Proofs.Placeholders
import GrammarForge.Proofs.TokenModules
