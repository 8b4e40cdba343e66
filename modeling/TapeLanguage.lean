import TapeLanguage.CommandLine.Request
import TapeLanguage.CommandLine.Report
import TapeLanguage.Diagnostic
import TapeLanguage.Interpreter
import TapeLanguage.File.Source
import TapeLanguage.File.Encoding
import TapeLanguage.Machine.Session
import TapeLanguage.Machine.Basic
import TapeLanguage.Machine.Run
import TapeLanguage.Machine.Stream
import TapeLanguage.Machine.Tape
import TapeLanguage.Main
import TapeLanguage.Op
import TapeLanguage.Program.Basic
import TapeLanguage.Program.Decode
import TapeLanguage.Source
import TapeLanguage.Text
import TapeLanguage.Proofs.Brackets
import TapeLanguage.Proofs.OpenLoops
import TapeLanguage.Proofs.Matching
import TapeLanguage.Proofs.Decoding
import TapeLanguage.Proofs.Pairing
import TapeLanguage.Proofs.Step
import TapeLanguage.Proofs.LoopStack
import TapeLanguage.Proofs.DeadLoops
import TapeLanguage.Proofs.Refinement
import TapeLanguage.Proofs.Coupling
import TapeLanguage.Proofs.RunAlike
import TapeLanguage.Proofs.Places
import TapeLanguage.Proofs.Concatenation
import TapeLanguage.Proofs.Faults
import TapeLanguage.Proofs.StreamKinds
import TapeLanguage.Proofs.InTurn
import TapeLanguage.Proofs.Supply
import TapeLanguage.Proofs.Completed
import TapeLanguage.Proofs.StraightCode
import TapeLanguage.Proofs.CountingLoops
import TapeLanguage.Proofs.Loading
import TapeLanguage.Proofs.UnreadInput
import TapeLanguage.Proofs.Composition
import TapeLanguage.Proofs.InlineSource
import TapeLanguage.Proofs.Resumption
import TapeLanguage.Proofs.Reset
import TapeLanguage.Proofs.SharedInput
import TapeLanguage.Proofs.LineEnds
import TapeLanguage.Proofs.Unreported
import TapeLanguage.Proofs.Excerpts
import TapeLanguage.Proofs.StrayEnds
import TapeLanguage.Proofs.Displacement
import TapeLanguage.Proofs.Repairs
import TapeLanguage.Proofs.Echo
import TapeLanguage.Proofs.Tracing
import TapeLanguage.Proofs.FaithfulTrace
import TapeLanguage.Proofs.Footprint
import TapeLanguage.Proofs.Diagnostics
import TapeLanguage.Proofs.Listings
import TapeLanguage.Proofs.IdealTape
