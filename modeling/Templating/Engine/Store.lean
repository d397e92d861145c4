import Templating.TemplateSet

/-!
# Template stores

Where an engine finds the sources of named templates: among the sources that were added to it, and
after that through its loader. A loader may fail for reasons of its own; its error is then the cause
of the error that the template could not be loaded.
-/

namespace Templating

/-- The named templates of an engine. -/
structure TemplateStore where
  sources : List (String × String) := []
  loader? : Option SourceProvider := none
  /-- The number of changes so far. -/
  generation : Nat := 0
  deriving Inhabited

namespace TemplateStore

/-- Add or replace a source. -/
def addSource (s : TemplateStore) (name source : String) : TemplateStore :=
  { s with sources := Registry.put s.sources name source, generation := s.generation + 1 }

/-- Set the loader that is asked for templates that were not added. -/
def setLoader (s : TemplateStore) (loader : SourceProvider) : TemplateStore :=
  { s with loader? := some loader, generation := s.generation + 1 }

/-- Turn the error of a loader into one about the template, if it is not one already. -/
def wrapError (name : String) (e : Error) : Error :=
  if e.kind = .templateLoad then e
  else { fault := .templateUnavailable name, cause? := some e }

/-- Find the source of a template. -/
def load (s : TemplateStore) : SourceProvider := fun name =>
  match Registry.find? s.sources name with
  | some source => .ok (some source)
  | none =>
    match s.loader? with
    | none => .ok none
    | some loader =>
      match loader name with
      | .ok source? => .ok source?
      | .error e => .error (wrapError name e)

end TemplateStore

end Templating
