import Templating.Engine.Cache
import Templating.Engine.Store
import Templating.Program.Compilation
import Templating.Machine.Run
import Templating.Value.Data

/-!
# Engines

An engine brings everything together: it knows tags and filters, default options and named
templates, compiles templates, runs programs and keeps what it compiled for rendering. Rendering may
change the cache and nothing else; it gives the same engine back with the result, also when it
fails.
-/

namespace Templating

/-- An engine. -/
structure Engine where
  registry : Registry := .initial
  defaults : Options := {}
  templates : TemplateStore := {}
  cache : ProgramCache := {}
  deriving Inhabited

namespace Engine

/-- The name of a template given as a text. -/
def anonymousName : String := "<string>"

/-- The name compiled programs have unless they are written under another one. -/
def entryPoint : String := "tpl"

/-- Add or replace a named template. -/
def addTemplate (e : Engine) (name source : String) : Engine :=
  { e with templates := e.templates.addSource name source }

/-- Set the loader of named templates. -/
def setLoader (e : Engine) (loader : SourceProvider) : Engine :=
  { e with templates := e.templates.setLoader loader }

/-- Add or replace a filter. -/
def addFilter (e : Engine) (name : String) (filter : Filter) : Engine :=
  { e with registry := e.registry.addFilter name filter }

/-- Remove a filter. -/
def removeFilter (e : Engine) (name : String) : Engine :=
  { e with registry := e.registry.removeFilter name }

/-- Add or replace a tag. -/
def addTag (e : Engine) (name : String) (tag : CustomTag) : Engine :=
  { e with registry := e.registry.addTag name tag }

/-- Remove a tag. -/
def removeTag (e : Engine) (name : String) : Engine :=
  { e with registry := e.registry.removeTag name }

/-- Change the default options, provided they are valid. -/
def setDefaults (e : Engine) (options : Options) : Result Engine :=
  match options.check with
  | .ok _ => .ok { e with defaults := options }
  | .error err => .error err

/-- Forget all compiled templates. -/
def invalidateCache (e : Engine) : Engine := { e with cache := {} }

/-- The number of compiled templates that are kept. -/
def cachedTemplates (e : Engine) : Nat := e.cache.size

/-- The source of a named template. -/
def source (e : Engine) (name : String) : Result String :=
  match e.templates.load name with
  | .ok (some source) => .ok source
  | .ok none => fail (.templateNotFound name)
  | .error err => .error err

/-- Compile a source under the name of a template. -/
def compileAs (e : Engine) (name source : String) (options : Options) : Result Program := do
  options.check
  let set ← TemplateSet.load e.registry options.controls e.templates.load name source
  set.compile e.registry options.autoescape entryPoint

/-- Compile a source. -/
def compile (e : Engine) (source : String) (options : Options) : Result Program :=
  e.compileAs anonymousName source options

/-- Compile a named template. -/
def compileTemplate (e : Engine) (name : String) : Result Program := do
  e.compileAs name (← e.source name) e.defaults

/-- What a compilation is known by. -/
def identity (e : Engine) (source : String) (options : Options) : TemplateIdentity :=
  { source
    autoescape := options.autoescape
    controls := options.controls
    registryGeneration := e.registry.generation
    storeGeneration := e.templates.generation }

/-- Compile a source for rendering: a program kept under the same identity is used again, and a new
one is kept, unless the options say otherwise. -/
def compileCached (e : Engine) (name source : String) (options : Options) (isNamed : Bool) :
    Result Program × Engine :=
  if options.cache then
    let identity := e.identity source options
    match e.cache.get? identity with
    | some program => (.ok program, e)
    | none =>
      match e.compileAs name source options with
      | .ok program =>
        let name? := if isNamed then some name else none
        (.ok program, { e with cache := e.cache.insert identity name? program })
      | .error err => (.error err, e)
  else (e.compileAs name source options, e)

/-- The program with its filters, and the value it runs over. -/
def prepare (e : Engine) (program : Program) (context : Data) (options : Options) :
    Result (LinkedProgram × Value) := do
  let linked ← program.link e.registry
  let context ← context.toValue
  return (linked, options.mergeContext context)

/-- Run a program over a context. -/
def run (e : Engine) (program : Program) (context : Data) (options : Options) : Result String := do
  let (linked, context) ← e.prepare program context options
  linked.run context

/-- Render a source. -/
def render (e : Engine) (source : String) (context : Data) (options : Options) :
    Result String × Engine :=
  match e.compileCached anonymousName source options false with
  | (.ok program, e) => (e.run program context options, e)
  | (.error err, e) => (.error err, e)

/-- Render a named template with the default options. -/
def renderTemplate (e : Engine) (name : String) (context : Data) : Result String × Engine :=
  match e.source name with
  | .error err => (.error err, e)
  | .ok source =>
    match e.compileCached name source e.defaults true with
    | (.ok program, e) => (e.run program context e.defaults, e)
    | (.error err, e) => (.error err, e)

end Engine

end Templating
