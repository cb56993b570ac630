import Descent.CommandLine.Arguments
import Descent.CommandLine.Directory
import Descent.CommandLine.Report
import Descent.CommandLine.Run
import Descent.Emission.C
import Descent.Emission.Layout
import Descent.Emission.Rust
import Descent.Emission.Sink
import Descent.Emission.Source
import Descent.Emission.Spelling
import Descent.Fault
import Descent.Grammar
import Descent.Grammar.Draft
import Descent.Grammar.Edit
import Descent.Json.Magnitude
import Descent.Json.Scan
import Descent.Json.Skip
import Descent.Listing.Part
import Descent.Listing.Printer
import Descent.Listing.Reader
import Descent.Main
import Descent.Proofs.CommandLine.Generation
import Descent.Proofs.Emission.CLiteral
import Descent.Proofs.Emission.Confinement
import Descent.Proofs.Emission.Denotation
import Descent.Proofs.Emission.Determined
import Descent.Proofs.Emission.Layout
import Descent.Proofs.Emission.Legible
import Descent.Proofs.Emission.Plain
import Descent.Proofs.Emission.RustLiteral
import Descent.Proofs.Emission.Scanner
import Descent.Proofs.Emission.Translation
import Descent.Proofs.Grammar.Building
import Descent.Proofs.Grammar.Drafting
import Descent.Proofs.Grammar.History
import Descent.Proofs.Json.Decimal
import Descent.Proofs.Json.Token
import Descent.Proofs.Json.Value
import Descent.Proofs.Listing.Accepted
import Descent.Proofs.Listing.Contents
import Descent.Proofs.Listing.Line
import Descent.Proofs.Listing.Notation
import Descent.Proofs.Listing.Rejected
import Descent.Proofs.Listing.RoundTrip
import Descent.Proofs.Listing.Stable
import Descent.Proofs.Listing.Taken
import Descent.Proofs.Listing.Token
import Descent.Proofs.Recognition.Answer
import Descent.Proofs.Recognition.Coverage
import Descent.Proofs.Recognition.Exactness
import Descent.Proofs.Recognition.Expansion
import Descent.Proofs.Recognition.LeftRecursion
import Descent.Proofs.Recognition.Leftmost
import Descent.Proofs.Recognition.Limit
import Descent.Proofs.Recognition.Matcher
import Descent.Proofs.Recognition.Nesting
import Descent.Proofs.Recognition.Repetition
import Descent.Proofs.Recognition.Tree
import Descent.Proofs.Recognition.Visited
import Descent.Proofs.Recognition.Yield
import Descent.Proofs.Ruleset.Agreement
import Descent.Proofs.Ruleset.Composition
import Descent.Proofs.Ruleset.Decoding
import Descent.Proofs.Ruleset.Dispatch
import Descent.Proofs.Ruleset.Escapes
import Descent.Proofs.Ruleset.FirstFault
import Descent.Proofs.Ruleset.Landing
import Descent.Proofs.Ruleset.Reachable
import Descent.Proofs.Ruleset.WellFormed
import Descent.Proofs.Sampling.Agreement
import Descent.Proofs.Sampling.Recorded
import Descent.Proofs.Sampling.Repeated
import Descent.Proofs.Sampling.Unfolding
import Descent.Proofs.Settings.Layout
import Descent.Proofs.Text.Trim
import Descent.Proofs.Text.Utf8
import Descent.Recognition.Continuation
import Descent.Recognition.Derivation
import Descent.Recognition.Matcher
import Descent.Recognition.Search
import Descent.Recognition.State
import Descent.Recognition.Work
import Descent.Ruleset
import Descent.Ruleset.Dispatch
import Descent.Sampling.ChaCha
import Descent.Sampling.Choice
import Descent.Sampling.Cycle
import Descent.Sampling.Sentence
import Descent.Settings
import Descent.Settings.Reader
import Descent.Step
import Descent.Symbol
import Descent.Target
import Descent.Text.Blank
import Descent.Text.Digits
import Descent.Text.Quoted
import Descent.Text.Unprintable
import Descent.Text.Utf8
