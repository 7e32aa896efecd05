import Lowering.Main
import Lowering.Proofs.Acceptance
import Lowering.Proofs.Binary
import Lowering.Proofs.Blame
import Lowering.Proofs.Breaks
import Lowering.Proofs.Constants
import Lowering.Proofs.Counting
import Lowering.Proofs.Frame
import Lowering.Proofs.Grouping
import Lowering.Proofs.Headers
import Lowering.Proofs.Independence
import Lowering.Proofs.Layout
import Lowering.Proofs.Path
import Lowering.Proofs.Pointers
import Lowering.Proofs.Postfix
import Lowering.Proofs.Prelude
import Lowering.Proofs.Printing
import Lowering.Proofs.Prototypes
import Lowering.Proofs.Registries
import Lowering.Proofs.Returns
import Lowering.Proofs.Sequence
import Lowering.Proofs.Session
import Lowering.Proofs.Simultaneous
import Lowering.Proofs.Symbols
import Lowering.Proofs.Target.Escape
import Lowering.Proofs.Tree.Respelling
import Lowering.Proofs.Tree.RoundTrip
import Lowering.Proofs.Widths
import Lowering.Tree.Writer
