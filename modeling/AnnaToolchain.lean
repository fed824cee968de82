import AnnaToolchain.Main
import AnnaToolchain.Proofs.Machine.Slices
import AnnaToolchain.Proofs.Machine.Resume
import AnnaToolchain.Proofs.Assembly.Meaning
import AnnaToolchain.Proofs.Image.Blocks
import AnnaToolchain.Proofs.Image.Binary
import AnnaToolchain.Proofs.Text.ReadBack
import AnnaToolchain.Proofs.Image.Listing
import AnnaToolchain.Proofs.Peephole.Lineage
import AnnaToolchain.Proofs.Peephole.Positions
import AnnaToolchain.Proofs.Assembly.Labels
import AnnaToolchain.Proofs.Assembly.Success
import AnnaToolchain.Proofs.Peephole.Shadow
import AnnaToolchain.Proofs.Peephole.Labels
import AnnaToolchain.Proofs.Assembly.Plain
import AnnaToolchain.Proofs.Machine.Loading
import AnnaToolchain.Proofs.Token.Reference
import AnnaToolchain.Proofs.Peephole.Leads
import AnnaToolchain.Proofs.Peephole.Simulation
import AnnaToolchain.Proofs.Peephole.Runs
import AnnaToolchain.Proofs.Assembly.Singles
import AnnaToolchain.Proofs.Assembly.Account
import AnnaToolchain.Proofs.Assembly.Addresses
import AnnaToolchain.Proofs.Program.Printing
import AnnaToolchain.Proofs.Program.Rereading
import AnnaToolchain.Proofs.Program.Parsed
import AnnaToolchain.Proofs.Peephole.Printing
import AnnaToolchain.Proofs.Machine.Sessions
import AnnaToolchain.Proofs.Program.Code
import AnnaToolchain.Proofs.Token.Quotation
import AnnaToolchain.Proofs.Token.Decimal
import AnnaToolchain.Proofs.Assembly.Strings
import AnnaToolchain.Proofs.Machine.Strings
import AnnaToolchain.Proofs.Assembly.Disassembly
import AnnaToolchain.Proofs.Image.Reading
import AnnaToolchain.Proofs.Image.Bounds
import AnnaToolchain.Proofs.Machine.Faults
import AnnaToolchain.Proofs.Assembly.Literals
import AnnaToolchain.Proofs.Program.Conservation
import AnnaToolchain.Proofs.Program.Faults
import AnnaToolchain.Proofs.Machine.StackPair
import AnnaToolchain.Proofs.Assembly.BranchReach
import AnnaToolchain.Proofs.Peephole.NormalForm
import AnnaToolchain.Proofs.Peephole.Conservation
import AnnaToolchain.Proofs.Machine.Trace
import AnnaToolchain.Proofs.Program.Formatting
import AnnaToolchain.Proofs.Assembly.LiteralBranch
import AnnaToolchain.Proofs.Machine.Visits
import AnnaToolchain.Proofs.Peephole.Distances
import AnnaToolchain.Proofs.Image.Cutting
import AnnaToolchain.Proofs.Token.Sources
import AnnaToolchain.Proofs.Assembly.Legible
import AnnaToolchain.Proofs.Peephole.Canonical
import AnnaToolchain.Proofs.Machine.Arithmetic
import AnnaToolchain.Proofs.Image.Grammar
import AnnaToolchain.Proofs.Program.Ranges
import AnnaToolchain.Proofs.Token.Coverage
import AnnaToolchain.Proofs.Token.Numbers
import AnnaToolchain.Proofs.Image.Runs
