import RichText.Converter
import RichText.Proofs.Conversion.Accepted
import RichText.Proofs.Conversion.Copying
import RichText.Proofs.Conversion.Lossless
import RichText.Proofs.Html.Decoding
import RichText.Proofs.Pass.Content
import RichText.Proofs.Pass.Coverage
import RichText.Proofs.Pass.Ending
import RichText.Proofs.Pass.Homing
import RichText.Proofs.Pass.Namespaces
import RichText.Proofs.Pass.Outside
import RichText.Proofs.Pass.Pruning
import RichText.Proofs.Pass.Reachable
import RichText.Proofs.Pass.Restored
import RichText.Proofs.Pass.Rewrite
import RichText.Proofs.Pass.Schedule
import RichText.Proofs.Proxy.Aliases
import RichText.Proofs.Proxy.Classes
import RichText.Proofs.Proxy.Publish
import RichText.Proofs.Proxy.ReadOnly
import RichText.Proofs.Rules.Filing
import RichText.Proofs.Tree.Check
import RichText.Proofs.Tree.Document
import RichText.Proofs.Tree.Loops
import RichText.Proofs.Tree.Naming
import RichText.Proofs.Tree.Placing
import RichText.Proofs.Tree.Unique
import RichText.Proofs.Xml.Decoding
import RichText.Proofs.Xml.Faithful
import RichText.Proofs.Xml.Fragments
