import Quire.Main
import Quire.Proofs.Build.Accounting
import Quire.Proofs.Build.Cleaning
import Quire.Proofs.Build.Delivery
import Quire.Proofs.Build.Errands
import Quire.Proofs.Build.Gating
import Quire.Proofs.Build.Identity
import Quire.Proofs.Build.Isolating
import Quire.Proofs.Build.Loading
import Quire.Proofs.Build.Rebuilding
import Quire.Proofs.Build.Spelling
import Quire.Proofs.Build.Stocking
import Quire.Proofs.Build.Usability
import Quire.Proofs.Interchange.Placing
import Quire.Proofs.Path.Containing
import Quire.Proofs.Path.Returning
import Quire.Proofs.Path.Rooting
import Quire.Proofs.Route.Decoding
import Quire.Proofs.Template.Balance
import Quire.Proofs.Template.Breaks
import Quire.Proofs.Template.Capture
import Quire.Proofs.Template.Closure
import Quire.Proofs.Template.Expressions
import Quire.Proofs.Text.Cuts
import Quire.Proofs.Tool.Speaking
