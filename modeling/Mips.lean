import Mips.Assembly.File
import Mips.Machine.Session
import Mips.Proofs.Machine.Agreement
import Mips.Proofs.Machine.Confluence
import Mips.Proofs.Assembly.Soundness
import Mips.Proofs.Machine.Visible
import Mips.Proofs.Machine.Effect
import Mips.Proofs.Machine.Atomicity
import Mips.Proofs.Machine.Bookkeeping
import Mips.Proofs.Assembly.Entries
import Mips.Proofs.Assembly.Binding
import Mips.Proofs.Assembly.Linking
import Mips.Proofs.Machine.Packing
import Mips.Proofs.Machine.Image
import Mips.Proofs.Assembly.Loading
import Mips.Proofs.Source.Place
import Mips.Proofs.Source.Cut
import Mips.Proofs.Source.Tiling
import Mips.Proofs.Source.Line
import Mips.Proofs.Source.Items
import Mips.Proofs.Source.Shift
import Mips.Proofs.Program.Building
import Mips.Proofs.Machine.ControlFlow
import Mips.Proofs.Text.Numeral
import Mips.Proofs.Source.Written
import Mips.Proofs.Source.Printed
import Mips.Proofs.Assembly.Clean
import Mips.Proofs.Assembly.Printed
import Mips.Proofs.Assembly.Declared
import Mips.Proofs.Machine.Phases
import Mips.Proofs.Machine.Advance
import Mips.Proofs.Assembly.Console
import Mips.Proofs.Machine.Observation
import Mips.Proofs.Machine.Stamps
import Mips.Proofs.Assembly.Leftover
import Mips.Proofs.Machine.Transfer
import Mips.Proofs.Source.Quoted
import Mips.Proofs.Source.Position
import Mips.Proofs.Assembly.Position
import Mips.Proofs.Machine.PrintLoop
import Mips.Proofs.Machine.Arithmetic
import Mips.Proofs.Machine.Access
import Mips.Proofs.Machine.Branching
import Mips.Proofs.Machine.Frame
import Mips.Proofs.Machine.History
import Mips.Proofs.Source.Integer
import Mips.Proofs.Machine.Gate
import Mips.Proofs.Machine.TextMap
import Mips.Proofs.Assembly.Names
import Mips.Proofs.Source.Comment
import Mips.Proofs.Assembly.Provenance
