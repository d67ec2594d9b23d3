import PairGrammar.Main
import PairGrammar.Proofs.Evaluation.Rules
import PairGrammar.Proofs.Loader.RuleSets
import PairGrammar.Proofs.Piece.Reading
import PairGrammar.Proofs.Derivation.Counting
import PairGrammar.Proofs.Loader.Origin
import PairGrammar.Proofs.Evaluation.Loaded
import PairGrammar.Proofs.Pair.Tidy
import PairGrammar.Proofs.Evaluation.Tidy
import PairGrammar.Proofs.Pair.Runs
import PairGrammar.Proofs.Pair.Words
import PairGrammar.Proofs.Loader.Agreement
import PairGrammar.Proofs.Loader.Reordering
import PairGrammar.Proofs.Evaluation.Reach
import PairGrammar.Proofs.Loader.Actions
import PairGrammar.Proofs.Loader.Changing
import PairGrammar.Proofs.Registry.Unplaced
import PairGrammar.Proofs.Loader.Splitting
import PairGrammar.Proofs.Loader.Merging
import PairGrammar.Proofs.Block.Editing
import PairGrammar.Proofs.Loader.Editing
import PairGrammar.Proofs.Block.Indenting
import PairGrammar.Proofs.Loader.Indenting
import PairGrammar.Proofs.Pair.Streams
import PairGrammar.Proofs.Evaluation.Levels
import PairGrammar.Proofs.Evaluation.Limits
import PairGrammar.Proofs.Generator.History
import PairGrammar.Proofs.Evaluation.Streams
import PairGrammar.Proofs.Evaluation.Sharing
import PairGrammar.Proofs.Sampler.Drawing
import PairGrammar.Proofs.Loader.Numerals
import PairGrammar.Proofs.Piece.References
import PairGrammar.Proofs.Block.Underway
import PairGrammar.Proofs.Loader.Sealing
import PairGrammar.Proofs.Registry.Leaving
import PairGrammar.Proofs.Pair.Shedding
import PairGrammar.Proofs.Variable.Drafts
import PairGrammar.Proofs.Variable.Fields
import PairGrammar.Proofs.Grammar.Visiting
import PairGrammar.Proofs.Generator.Unused
import PairGrammar.Proofs.Registry.Handling
import PairGrammar.Proofs.Files.RuleFile
import PairGrammar.Proofs.Config.Precedence
import PairGrammar.Proofs.Cli.Generating
