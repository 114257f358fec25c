import RichText.Proofs.Conversion.Lossless
import RichText.Proofs.Pass.Failing

/-!
Edits that are never refused.

A tree refuses edits that would break it. Neither persisting in a pass nor moving content into a new document ever
asks for one, so all errors of a pass are raised by its rules.
-/

namespace RichText

open RichText.Tree Effects

variable {κ σ : Type}

namespace Converter

variable {t : Tree} {space : String} {p : Nat} {c : Converter κ σ} {e : TreeError}

end Converter

namespace Filter

end Filter

end RichText
