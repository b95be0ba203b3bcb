import XoChip.Instruction.Encode
import XoChip.Main
import XoChip.Proofs.Accounting
import XoChip.Proofs.AddressGrammar
import XoChip.Proofs.Arithmetic
import XoChip.Proofs.Batches
import XoChip.Proofs.Blocks
import XoChip.Proofs.Breakpoint
import XoChip.Proofs.CallReturn
import XoChip.Proofs.Checked.Listing
import XoChip.Proofs.Checked.Loading
import XoChip.Proofs.DialectChange
import XoChip.Proofs.DialectHistory
import XoChip.Proofs.FlagFile
import XoChip.Proofs.FontArea
import XoChip.Proofs.KeyWait
import XoChip.Proofs.PlaneIsolation
import XoChip.Proofs.RandomBytes
import XoChip.Proofs.RegisterArithmetic
import XoChip.Proofs.Rendering
import XoChip.Proofs.Scrolling
import XoChip.Proofs.SpritePixels
import XoChip.Proofs.StopReport
import XoChip.Proofs.StoreFetch
import XoChip.Proofs.Trace
import XoChip.Proofs.VisitOrder
