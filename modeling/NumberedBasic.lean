import NumberedBasic.Console.World
import NumberedBasic.Main
import NumberedBasic.Proofs.CommandLine.Keeping
import NumberedBasic.Proofs.CommandLine.Separating
import NumberedBasic.Proofs.Data.Printed
import NumberedBasic.Proofs.Data.Reading
import NumberedBasic.Proofs.Editor.Transcript
import NumberedBasic.Proofs.Effects.Locality
import NumberedBasic.Proofs.Forward.Run
import NumberedBasic.Proofs.Grammar.Brackets
import NumberedBasic.Proofs.Grammar.Precedence
import NumberedBasic.Proofs.Grammar.Program
import NumberedBasic.Proofs.Launch.Batch
import NumberedBasic.Proofs.Launch.Pipe
import NumberedBasic.Proofs.Listing.History
import NumberedBasic.Proofs.Listing.Restoring
import NumberedBasic.Proofs.Listing.Source
import NumberedBasic.Proofs.Loops.Passes
import NumberedBasic.Proofs.Machine.Failure
import NumberedBasic.Proofs.Machine.Printing
import NumberedBasic.Proofs.Machine.Reachable
import NumberedBasic.Proofs.Memory.History
import NumberedBasic.Proofs.Memory.Positions
import NumberedBasic.Proofs.Nesting.Naming
import NumberedBasic.Proofs.Numbering.Run
import NumberedBasic.Proofs.Parsing.Joined
import NumberedBasic.Proofs.Refusal.Program
import NumberedBasic.Proofs.Remarks.Run
import NumberedBasic.Proofs.Safety.Run
import NumberedBasic.Proofs.Setting.Gathering
import NumberedBasic.Proofs.Splitting.Run
import NumberedBasic.Proofs.Token.Layout
import NumberedBasic.Proofs.Token.Rendering
import NumberedBasic.Proofs.Value.Comparison
