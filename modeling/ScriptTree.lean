import ScriptTree.Source.Span
import ScriptTree.Source.Lines
import ScriptTree.Token.Stream
import ScriptTree.Token.Session
import ScriptTree.Json.Printer
import ScriptTree.Node.Json
import ScriptTree.Node.Walk
import ScriptTree.Node.Equality
import ScriptTree.Grammar.Program
import ScriptTree.Command.Run
import ScriptTree.Main
import ScriptTree.Proofs.Scan
import ScriptTree.Proofs.Tiling
import ScriptTree.Proofs.Lockstep
import ScriptTree.Proofs.LockstepGrammar
import ScriptTree.Proofs.Reading
import ScriptTree.Proofs.Layout
import ScriptTree.Proofs.Takes
import ScriptTree.Proofs.Ladder
import ScriptTree.Proofs.Lines
import ScriptTree.Proofs.RoundTrip
import ScriptTree.Proofs.Texts
import ScriptTree.Proofs.Derivation
import ScriptTree.Proofs.Gives
import ScriptTree.Proofs.Accepted
import ScriptTree.Proofs.Atoms
import ScriptTree.Proofs.Schema
import ScriptTree.Proofs.Made
import ScriptTree.Proofs.MadeGrammar
import ScriptTree.Proofs.Progress
import ScriptTree.Proofs.Threshold
import ScriptTree.Proofs.LineEnds
import ScriptTree.Proofs.Pieces
import ScriptTree.Proofs.Closer
import ScriptTree.Proofs.Seam
import ScriptTree.Proofs.Alone
import ScriptTree.Proofs.Templates
import ScriptTree.Proofs.Blind
import ScriptTree.Proofs.FreeReturns
import ScriptTree.Proofs.Outside
import ScriptTree.Proofs.Enclosed
import ScriptTree.Proofs.Levels
import ScriptTree.Proofs.Writing
import ScriptTree.Proofs.Statements
import ScriptTree.Proofs.Positions
import ScriptTree.Proofs.Faults
import ScriptTree.Proofs.Rounding
import ScriptTree.Proofs.JsonReader
import ScriptTree.Proofs.JsonLayout
import ScriptTree.Proofs.ReadBack
import ScriptTree.Proofs.Paths
import ScriptTree.Proofs.Ensures
import ScriptTree.Proofs.Nesting
import ScriptTree.Proofs.Chains
import ScriptTree.Proofs.Sessions
import ScriptTree.Proofs.Channels
import ScriptTree.Proofs.Prefixes
import ScriptTree.Proofs.Rescan
import ScriptTree.Proofs.Numerals
import ScriptTree.Proofs.Nearest
import ScriptTree.Proofs.WholeNumbers
import ScriptTree.Proofs.ClassBodies
import ScriptTree.Proofs.ObjectLiterals
import ScriptTree.Proofs.Forks
import ScriptTree.Proofs.Cover
import ScriptTree.Proofs.CommaRows
import ScriptTree.Proofs.ArrowParameters
import ScriptTree.Proofs.LineColumns
import ScriptTree.Proofs.References
import ScriptTree.Proofs.Backtracking
import ScriptTree.Proofs.Regexes
import ScriptTree.Proofs.Slashes
import ScriptTree.Proofs.Spellings
import ScriptTree.Proofs.Listings
import ScriptTree.Proofs.PrivateNames
import ScriptTree.Proofs.Understood
import ScriptTree.Proofs.Recursion
