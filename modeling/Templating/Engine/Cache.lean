import Templating.Program.Instruction
import Templating.Options

/-!
# Cache of compiled templates

Compiled templates are kept under an identity: the source, the options that matter to the compiler,
and how many changes the registry and the template store have seen. A template that has a name takes
the place of the one last kept under that name.
-/

namespace Templating

/-- What the compilation of a template is known by. -/
structure TemplateIdentity where
  source : String
  autoescape : Bool
  controls : Controls
  registryGeneration : Nat
  storeGeneration : Nat
  deriving Repr, DecidableEq, Inhabited

/-- Compiled templates, and the identities last kept under names. -/
structure ProgramCache where
  entries : List (TemplateIdentity × Program) := []
  names : List (String × TemplateIdentity) := []
  deriving Inhabited

namespace ProgramCache

/-- The program kept under an identity. -/
def get? (c : ProgramCache) (identity : TemplateIdentity) : Option Program :=
  (c.entries.find? fun entry => entry.1 == identity).map Prod.snd

/-- The identity last kept under a name. -/
def identityOf? (c : ProgramCache) (name : String) : Option TemplateIdentity :=
  (c.names.find? fun row => row.1 == name).map Prod.snd

/-- Drop the program kept under an identity. -/
def erase (entries : List (TemplateIdentity × Program)) (identity : TemplateIdentity) :
    List (TemplateIdentity × Program) :=
  entries.filter fun entry => entry.1 != identity

/-- Keep a program. If it has a name, the program last kept under the name is dropped. -/
def insert (c : ProgramCache) (identity : TemplateIdentity) (name? : Option String)
    (program : Program) : ProgramCache :=
  match name? with
  | none => { c with entries := (identity, program) :: erase c.entries identity }
  | some name =>
    let entries := match c.identityOf? name with
      | some old => erase c.entries old
      | none => c.entries
    { entries := (identity, program) :: erase entries identity
      names := (name, identity) :: c.names.filter fun row => row.1 != name }

/-- The number of programs. -/
def size (c : ProgramCache) : Nat := c.entries.length

end ProgramCache

end Templating
