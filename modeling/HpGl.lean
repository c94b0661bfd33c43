import HpGl.Main
import HpGl.Proofs.PenProtocol
import HpGl.Proofs.Wire
import HpGl.Proofs.Building
import HpGl.Proofs.Selection
import HpGl.Proofs.Documents
import HpGl.Proofs.StatementLog
import HpGl.Proofs.CommandLine.Inputs
import HpGl.Proofs.CommandLine.Output
import HpGl.Proofs.CommandLine.Rendering
import HpGl.Proofs.CommandLine.Debugging
import HpGl.Proofs.StyleMembers
import HpGl.Proofs.Json.Embedding
import HpGl.Proofs.StyleDocuments
import HpGl.Proofs.Canvas
import HpGl.Proofs.Scaling
import HpGl.Proofs.Outlines
import HpGl.Proofs.Angles
import HpGl.Proofs.SevenBit
import HpGl.Proofs.Rejoining
import HpGl.Proofs.OperationDocuments
import HpGl.Proofs.EventLog
import HpGl.Proofs.Snapping
import HpGl.Proofs.WireNumbers
import HpGl.Proofs.Profiles
