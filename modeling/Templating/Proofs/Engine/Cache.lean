import Mathlib.Data.List.Induction
import Mathlib.Data.List.Nodup
import Templating.Proofs.Emission.Supplied
import Templating.Proofs.Engine.Transparency

/-!
# The cache along a history

The cache holds programs under identities and, for named templates, the identity that each name was
last kept under. Two lists are changed together, and only when something new is kept. Along every
history the names refer to programs that are there, each to another one, programs stay until they
are replaced under their name or all are dropped, and whatever can be served can be run.
-/

namespace Templating

namespace ProgramCache

variable {c : ProgramCache} {identity other : TemplateIdentity} {name : String}
  {name? : Option String} {program : Program}

/-- Every identity and every name is listed once, and the names refer to different programs, which
are there. -/
structure Consistent (c : ProgramCache) : Prop where
  entries : (c.entries.map Prod.fst).Nodup
  names : (c.names.map Prod.fst).Nodup
  indexed : ∀ row ∈ c.names, row.2 ∈ c.entries.map Prod.fst
  unshared : (c.names.map Prod.snd).Nodup

/-- The empty cache is consistent. -/
theorem consistent_empty : Consistent {} := by
  constructor <;> simp

/-- There is no program under an identity that is not listed, and no other one. -/
theorem get?_eq_none_iff : c.get? identity = none ↔ identity ∉ c.entries.map Prod.fst := by
  rw [get?, Option.map_eq_none_iff, List.find?_eq_none]
  simp only [beq_iff_eq, List.mem_map, not_exists, not_and]

/-- The identity kept under a name is listed with it. -/
theorem mem_names_of_identityOf? (h : c.identityOf? name = some identity) :
    (name, identity) ∈ c.names := by
  obtain ⟨row, hrow, rfl⟩ := Option.map_eq_some_iff.mp h
  have hname := List.find?_some hrow
  obtain rfl : row.1 = name := beq_iff_eq.mp hname
  exact List.mem_of_find?_eq_some hrow

/-- In a consistent cache different names have different identities. -/
theorem Consistent.name_eq (h : c.Consistent) {name' : String}
    (hname : c.identityOf? name = some identity) (hname' : c.identityOf? name' = some identity) :
    name = name' :=
  congrArg Prod.fst (List.inj_on_of_nodup_map h.unshared (mem_names_of_identityOf? hname)
    (mem_names_of_identityOf? hname') rfl)

/-- In a consistent cache the identity of a name leads to a program. -/
theorem Consistent.exists_program (h : c.Consistent) (hname : c.identityOf? name = some identity) :
    ∃ program, c.get? identity = some program := by
  refine Option.ne_none_iff_exists'.mp fun hnone => ?_
  exact get?_eq_none_iff.mp hnone (h.indexed _ (mem_names_of_identityOf? hname))

/-- The identities that are left are those that were there, without the dropped one. -/
theorem mem_keys_erase {entries : List (TemplateIdentity × Program)} :
    other ∈ (erase entries identity).map Prod.fst ↔
      other ∈ entries.map Prod.fst ∧ other ≠ identity := by
  simp only [erase, List.mem_map, List.mem_filter, bne_iff_ne, ne_eq]
  constructor
  · rintro ⟨entry, ⟨hentry, hne⟩, rfl⟩
    exact ⟨⟨entry, hentry, rfl⟩, hne⟩
  · rintro ⟨⟨entry, hentry, rfl⟩, hne⟩
    exact ⟨entry, ⟨hentry, hne⟩, rfl⟩

/-- Identities that are listed once still are when one is dropped. -/
theorem nodup_keys_erase {entries : List (TemplateIdentity × Program)}
    (h : (entries.map Prod.fst).Nodup) : ((erase entries identity).map Prod.fst).Nodup :=
  h.sublist (List.filter_sublist.map _)

/-- Keeping a program under an identity that is new leaves the cache consistent. -/
theorem Consistent.insert (h : c.Consistent) (hnew : c.get? identity = none) :
    (c.insert identity name? program).Consistent := by
  have hfresh {entries : List (TemplateIdentity × Program)}
      (hentries : (entries.map Prod.fst).Nodup) :
      (((identity, program) :: erase entries identity).map Prod.fst).Nodup :=
    List.nodup_cons.mpr ⟨fun hmem => (mem_keys_erase.mp hmem).2 rfl, nodup_keys_erase hentries⟩
  -- what was there before is there still, if it was not dropped
  have hstays {entries : List (TemplateIdentity × Program)} {row : String × TemplateIdentity}
      (hrow : row.2 ∈ entries.map Prod.fst) :
      row.2 ∈ ((identity, program) :: erase entries identity).map Prod.fst := by
    by_cases heq : row.2 = identity
    · exact heq ▸ List.mem_cons_self
    · exact List.mem_cons_of_mem _ (mem_keys_erase.mpr ⟨hrow, heq⟩)
  cases name? with
  | none =>
    exact ⟨hfresh h.entries, h.names, fun row hrow => hstays (h.indexed row hrow), h.unshared⟩
  | some name =>
    have hnames : (c.names.filter fun row => row.1 != name).Sublist c.names := List.filter_sublist
    have hunlisted : ∀ row ∈ c.names, row.2 ≠ identity := fun row hrow heq =>
      get?_eq_none_iff.mp hnew (heq ▸ h.indexed row hrow)
    refine ⟨?_, List.nodup_cons.mpr ⟨by simp, h.names.sublist (hnames.map _)⟩, ?_,
      List.nodup_cons.mpr ⟨fun hmem => ?_, h.unshared.sublist (hnames.map _)⟩⟩
    · simp only [ProgramCache.insert]
      split
      · exact hfresh (nodup_keys_erase h.entries)
      · exact hfresh h.entries
    · refine List.forall_mem_cons.mpr ⟨List.mem_cons_self, fun row hrow => ?_⟩
      obtain ⟨hrow, hother⟩ := List.mem_filter.mp hrow
      simp only [ProgramCache.insert]
      cases hold : c.identityOf? name with
      | none => exact hstays (h.indexed row hrow)
      | some old =>
        refine hstays (mem_keys_erase.mpr ⟨h.indexed row hrow, fun heq => ?_⟩)
        have hsame := List.inj_on_of_nodup_map h.unshared hrow (mem_names_of_identityOf? hold) heq
        simp [hsame] at hother
    · obtain ⟨row, hrow, heq⟩ := List.mem_map.mp hmem
      exact hunlisted row (hnames.subset hrow) heq

/-- A program is found under the identity it was kept under. -/
theorem get?_insert_self : (c.insert identity name? program).get? identity = some program := by
  cases name? <;> simp [insert, get?]

/-- A program found before is found still, unless it was the one last kept under the name. -/
theorem get?_insert_of_ne (hne : other ≠ identity) :
    (c.insert identity name? program).get? other =
      if name?.bind c.identityOf? = some other then none else c.get? other := by
  have hne' : identity ≠ other := Ne.symm hne
  cases name? with
  | none => simp [insert, get?, hne', find?_erase, hne]
  | some name =>
    cases hold : c.identityOf? name with
    | none => simp [insert, get?, hne', find?_erase, hne, hold]
    | some old =>
      by_cases hdropped : old = other
      · subst hdropped
        simp [insert, get?, hne', find?_erase, hne, hold]
      · simp [insert, get?, hne', find?_erase, hne, hold, hdropped, Ne.symm hdropped]

/-- The name leads to the identity it was last kept under. -/
theorem identityOf?_insert_self :
    (c.insert identity (some name) program).identityOf? name = some identity := by
  simp [insert, identityOf?]

end ProgramCache

/-- A function that gives a result at every member of an array can be mapped over it. -/
theorem Result.exists_mapM {α β : Type} {f : α → Result β} {xs : Array α}
    (h : ∀ x ∈ xs, ∃ y, f x = .ok y) : ∃ ys, xs.mapM f = .ok ys := by
  have hlist (l : List α) (hl : ∀ x ∈ l, ∃ y, f x = .ok y) : ∃ ys, l.mapM f = .ok ys := by
    induction l with
    | nil => exact ⟨[], rfl⟩
    | cons x rest ih =>
      obtain ⟨⟨y, hy⟩, hrest⟩ := List.forall_mem_cons.mp hl
      obtain ⟨ys, hys⟩ := ih hrest
      exact ⟨y :: ys, by rw [List.mapM_cons, hy, hys]; rfl⟩
  obtain ⟨ys, hys⟩ := hlist xs.toList fun x hx => h x (Array.mem_toList_iff.mp hx)
  rw [← Array.toList_mapM] at hys
  obtain ⟨table, htable, -⟩ := Result.map_eq_ok.mp hys
  exact ⟨table, htable⟩

/-- A program whose filters are all registered can be linked. -/
theorem Program.exists_link {p : Program} {registry : Registry}
    (h : ∀ f ∈ p.filters, registry.hasFilter f = true) :
    ∃ linked, p.link registry = .ok linked := by
  simp only [Program.link, Result.bind_eq_ok]
  rw [exists_comm]
  refine (Result.exists_mapM fun name hname => ?_).imp fun filters hfilters =>
    ⟨⟨p, filters⟩, hfilters, rfl⟩
  obtain ⟨filter, hfilter⟩ := Option.isSome_iff_exists.mp (h name hname)
  exact ⟨filter, by rw [hfilter]⟩

namespace Engine

/-- What a call asks to be compiled. -/
structure Request where
  name : String
  source : String
  options : Options
  /-- The program is to be kept under the name. -/
  isNamed : Bool

namespace Request

/-- What the compilation is known by. -/
def identity (r : Request) (e : Engine) : TemplateIdentity := e.identity r.source r.options

/-- The name that the program is kept under. -/
def name? (r : Request) : Option String := if r.isNamed then some r.name else none

/-- The program that is compiled. -/
def compile (r : Request) (e : Engine) : Result Program := e.compileAs r.name r.source r.options

end Request

/-- What a call asks to be compiled, if it is a render of a template that has a source. -/
def request? (e : Engine) : EngineCall → Option Request
  | .render source _ options => some ⟨anonymousName, source, options, false⟩
  | .renderTemplate name _ =>
    match e.source name with
    | .ok source => some ⟨name, source, e.defaults, true⟩
    | .error _ => none
  | _ => none

variable {e : Engine} {call : EngineCall} {r : Request} {identity : TemplateIdentity}
  {program : Program}

/-- Only a render of a named template asks for a program to be kept under a name. -/
theorem eq_renderTemplate_of_name? {name : String} (h : e.request? call = some r)
    (hname : r.name? = some name) : ∃ context, call = .renderTemplate name context := by
  cases call with
  | render source context options =>
    obtain rfl := Option.some.inj h
    cases hname
  | renderTemplate called context =>
    simp only [request?] at h
    split at h
    · obtain rfl := Option.some.inj h
      obtain rfl := Option.some.inj hname
      exact ⟨context, rfl⟩
    · cases h
  | _ => cases h

/-- A call that asks for a compilation changes the cache by that. -/
theorem cache_after_of_request? (h : e.request? call = some r) : (e.after call).cache =
    (e.compileCached r.name r.source r.options r.isNamed).2.cache := by
  cases call with
  | render source context options =>
    obtain rfl := Option.some.inj h
    simp only [after, render]
    split <;> simp [*]
  | renderTemplate name context =>
    simp only [request?] at h
    split at h
    · next source hsource =>
      obtain rfl := Option.some.inj h
      simp only [after, renderTemplate, hsource]
      split <;> simp [*]
    · cases h
  | _ => cases h

/-- A call that asks for no compilation drops all programs or none. -/
theorem cache_after_of_request?_eq_none (h : e.request? call = none) :
    (e.after call).cache = e.cache ∨
      call = .invalidateCache ∧ (e.after call).cache = {} := by
  cases call with
  | invalidateCache => exact .inr ⟨rfl, rfl⟩
  | render source context options => cases h
  | renderTemplate name context =>
    simp only [request?] at h
    split at h
    · cases h
    · next hsource =>
      left
      simp only [after, renderTemplate, hsource]
  | setDefaults options =>
    left
    simp only [after, setDefaults]
    cases options.check <;> rfl
  | _ => exact .inl rfl

/-- Without the cache, or if it fails, a compilation leaves the cache as it is. -/
theorem cache_after_of_unkept (h : e.request? call = some r)
    (hunkept : r.options.cache = false ∨ ∀ program, r.compile e ≠ .ok program) :
    (e.after call).cache = e.cache := by
  rw [cache_after_of_request? h]
  unfold compileCached
  rcases hunkept with hcache | hfails
  · simp [hcache]
  · dsimp only
    split
    · split
      · rfl
      · split
        · next program hok => exact absurd hok (hfails program)
        · rfl
    · rfl

/-- What a call does to the cache: nothing, or it drops everything, or it keeps a program that was
not there. -/
theorem cache_after_cases (e : Engine) (call : EngineCall) :
    (e.after call).cache = e.cache ∨
      call = .invalidateCache ∧ (e.after call).cache = {} ∨
      ∃ r program, e.request? call = some r ∧ r.options.cache = true ∧
        e.cache.get? (r.identity e) = none ∧ r.compile e = .ok program ∧
        (e.after call).cache = e.cache.insert (r.identity e) r.name? program := by
  cases hrequest : e.request? call with
  | none => exact (cache_after_of_request?_eq_none hrequest).imp_right .inl
  | some r =>
    rw [cache_after_of_request? hrequest]
    unfold compileCached
    cases hcache : r.options.cache with
    | false => exact .inl rfl
    | true =>
      cases hget : e.cache.get? (e.identity r.source r.options) with
      | some program => exact .inl (by simp [hget])
      | none =>
        cases hcompile : e.compileAs r.name r.source r.options with
        | error err => exact .inl (by simp [hget])
        | ok program =>
          refine .inr (.inr ⟨r, program, rfl, hcache, hget, hcompile, ?_⟩)
          simp [hget, Request.identity, Request.name?]

/-- A call leaves the cache consistent. -/
theorem consistent_after (h : e.cache.Consistent) : (e.after call).cache.Consistent := by
  rcases e.cache_after_cases call with hsame | ⟨-, hempty⟩ | ⟨r, program, -, -, hnew, -, hinsert⟩
  · exact hsame ▸ h
  · exact hempty ▸ ProgramCache.consistent_empty
  · exact hinsert ▸ h.insert hnew

/-- Some call of the history compiled the program, with the cache turned on, under the identity. -/
def CompiledBy (calls : List EngineCall) (identity : TemplateIdentity) (program : Program) : Prop :=
  ∃ before call rest r, calls = before ++ call :: rest ∧
    (afterAll {} before).request? call = some r ∧ r.options.cache = true ∧
    r.identity (afterAll {} before) = identity ∧ r.compile (afterAll {} before) = .ok program

/-- What was compiled by a history was compiled by every longer one. -/
theorem CompiledBy.append {calls : List EngineCall} (h : CompiledBy calls identity program)
    (more : List EngineCall) : CompiledBy (calls ++ more) identity program := by
  obtain ⟨before, call, rest, r, rfl, hr⟩ := h
  exact ⟨before, call, rest ++ more, r, by simp, hr⟩

/-- The engine after one more call. -/
theorem afterAll_concat (e : Engine) (calls : List EngineCall) (call : EngineCall) :
    e.afterAll (calls ++ [call]) = (e.afterAll calls).after call :=
  List.foldl_concat _ _ _ _

/-- Along every history the cache is consistent, and every program in it was compiled by it. -/
theorem consistent_afterAll (calls : List EngineCall) :
    (afterAll {} calls).cache.Consistent ∧ ∀ identity program,
      (afterAll {} calls).cache.get? identity = some program →
        CompiledBy calls identity program := by
  induction calls using List.reverseRecOn with
  | nil => exact ⟨ProgramCache.consistent_empty, by simp [afterAll, ProgramCache.get?]⟩
  | append_singleton calls call ih =>
    obtain ⟨hconsistent, hcompiled⟩ := ih
    rw [afterAll_concat]
    refine ⟨consistent_after hconsistent, fun identity program hget => ?_⟩
    rcases (afterAll {} calls).cache_after_cases call with
      hsame | ⟨-, hempty⟩ | ⟨r, kept, hr, hcache, -, hcompile, hinsert⟩
    · exact (hcompiled identity program (hsame ▸ hget)).append _
    · rw [hempty] at hget
      cases hget
    · rw [hinsert] at hget
      rcases ProgramCache.get?_insert_cases _ _ _ _ _ _ hget with ⟨rfl, rfl⟩ | ⟨-, hold⟩
      · exact ⟨calls, call, [], r, rfl, hr, hcache, rfl, hcompile⟩
      · exact (hcompiled identity program hold).append _

/-- The program is gone because the one template that it was kept for was kept anew. -/
def ReplacedBy (e : Engine) (call : EngineCall) (identity : TemplateIdentity) : Prop :=
  ∃ name context new, call = .renderTemplate name context ∧
    e.cache.identityOf? name = some identity ∧
    (∀ other, e.cache.identityOf? other = some identity → other = name) ∧
    new ≠ identity ∧ (e.after call).cache.identityOf? name = some new

/-- A program stays, unless all are dropped or it is replaced under its name. -/
theorem get?_after_cases (h : e.cache.Consistent) (hget : e.cache.get? identity = some program) :
    (e.after call).cache.get? identity = some program ∨
      (e.after call).cache.get? identity = none ∧
        (call = .invalidateCache ∨ e.ReplacedBy call identity) := by
  rcases e.cache_after_cases call with
    hsame | ⟨rfl, hempty⟩ | ⟨r, kept, hr, -, hnew, -, hinsert⟩
  · exact .inl (hsame ▸ hget)
  · exact .inr ⟨by rw [hempty]; rfl, .inl rfl⟩
  · have hne : identity ≠ r.identity e := by
      rintro rfl
      exact absurd (hget.symm.trans hnew) nofun
    have hfound : (e.after call).cache.get? identity =
        if r.name?.bind e.cache.identityOf? = some identity then none
        else e.cache.get? identity := by
      rw [hinsert, ProgramCache.get?_insert_of_ne hne]
    split at hfound
    · next hdropped =>
      obtain ⟨name, hname, hold⟩ := Option.bind_eq_some_iff.mp hdropped
      obtain ⟨context, hcall⟩ := eq_renderTemplate_of_name? hr hname
      refine .inr ⟨hfound, .inr ⟨name, context, r.identity e, hcall, hold,
        fun other hother => h.name_eq hother hold, Ne.symm hne, ?_⟩⟩
      rw [hinsert, hname, ProgramCache.identityOf?_insert_self]
    · exact .inl (hfound.trans hget)

/-- A program that can be served applies filters of the present registry only. -/
theorem CacheVouched.exists_link {kept : List (TemplateIdentity × String)}
    (h : e.CacheVouched kept) {source : String} {options : Options}
    (hget : e.cache.get? (e.identity source options) = some program) :
    ∃ linked, program.link e.registry = .ok linked := by
  obtain ⟨name, -, hcompile⟩ := (h _ program hget).compiled rfl rfl
  rw [← compileAs_eq_compileIdentity] at hcompile
  obtain ⟨_, -, hcompile⟩ := Result.bind_eq_ok.mp hcompile
  obtain ⟨set, -, hcompile⟩ := Result.bind_eq_ok.mp hcompile
  exact Program.exists_link (TemplateSet.hasFilter_of_compileAt hcompile)

/-- What holds of the cache of an engine after a history. -/
structure CacheInvariant (calls : List EngineCall) : Prop where
  consistent : (afterAll {} calls).cache.Consistent
  indexed : ∀ name identity, (afterAll {} calls).cache.identityOf? name = some identity →
    ∃ program, (afterAll {} calls).cache.get? identity = some program
  unshared : ∀ name name' identity, (afterAll {} calls).cache.identityOf? name = some identity →
    (afterAll {} calls).cache.identityOf? name' = some identity → name = name'
  compiled : ∀ identity program, (afterAll {} calls).cache.get? identity = some program →
    CompiledBy calls identity program
  unkept : ∀ call r, (afterAll {} calls).request? call = some r →
    (r.options.cache = false ∨ ∀ program, r.compile (afterAll {} calls) ≠ .ok program) →
      ((afterAll {} calls).after call).cache = (afterAll {} calls).cache
  stays : ∀ call identity program, (afterAll {} calls).cache.get? identity = some program →
    ((afterAll {} calls).after call).cache.get? identity = some program ∨
      ((afterAll {} calls).after call).cache.get? identity = none ∧
        (call = .invalidateCache ∨ (afterAll {} calls).ReplacedBy call identity)
  linked : ∀ source options program,
    (afterAll {} calls).cache.get? ((afterAll {} calls).identity source options) = some program →
      ∃ linked, program.link (afterAll {} calls).registry = .ok linked

/-- The invariant of the cache holds after every history. -/
theorem cacheInvariant_afterAll (calls : List EngineCall) : CacheInvariant calls := by
  obtain ⟨hconsistent, hcompiled⟩ := consistent_afterAll calls
  have hvouched := cacheVouched_fresh.afterAll calls
  exact {
    consistent := hconsistent
    indexed := fun _ _ => hconsistent.exists_program
    unshared := fun _ _ _ => hconsistent.name_eq
    compiled := hcompiled
    unkept := fun _ _ => cache_after_of_unkept
    stays := fun _ _ _ => get?_after_cases hconsistent
    linked := fun _ _ _ => hvouched.exists_link }

end Engine

end Templating
