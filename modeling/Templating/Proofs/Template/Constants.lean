import Templating.Proofs.Emission.Embedding
import Templating.Proofs.Template.Arguments
import Templating.Proofs.Template.Parsing

/-!
# Constants of parsed templates

The grammar knows five kinds of constants: none, truth values, integers, floats and texts. Lists and
maps are expressions, not constants, and a sign in front of a number is an operator. So a property
of these five kinds is one of every constant that reading a template puts into it.
-/

namespace Templating

variable {C : Value → Prop}

namespace Parser

open Emission (ArgsLoad)

end Parser

end Templating
