import Templating.Engine.Basic
import Templating.Proofs.Emission.Origins
import Templating.Proofs.Emission.Supplied
import Templating.Proofs.Template.ParsedLines
import Templating.Proofs.Template.Parsing

/-!
# Places of what was rejected

A message about something unexpected tells the line of the token, tag or label that was rejected,
and the error has a place besides. The two are noted at different times: the line of the message is
that of what was rejected, that of the place is the line of the token that was read last, or for a
label behind an `else` the one that its tag begins on. So they agree unless a line ends between the
token that was rejected and its neighbour in the same output point or tag, or between the beginning
of a tag and its label.
-/

namespace Templating

open Result (FailsWith)

/-- The fault and the place of the error of a computation that fails. -/
def Result.failure? {α : Type} : Result α → Option (Fault × Option Location)
  | .ok _ => none
  | .error e => some (e.fault, e.location?)

/-- A computation that has a fault fails with it. -/
theorem Result.eq_error_of_failure? {α : Type} {r : Result α} {fault : Fault}
    {place? : Option Location} (h : r.failure? = some (fault, place?)) :
    ∃ e, r = .error e ∧ e.fault = fault ∧ e.location? = place? := by
  cases r with
  | ok a => cases h
  | error e =>
    obtain ⟨rfl, rfl⟩ := Prod.mk.inj (Option.some.inj h)
    exact ⟨e, rfl, rfl, rfl⟩

/-- A template that could not be loaded rejects nothing. -/
theorem Fault.rejectedLine?_of_kind {f : Fault} (h : f.kind = .templateLoad) :
    f.rejectedLine? = none := by
  cases f with
  | templateNotFound | templateUnavailable | custom => rfl
  | _ => cases h

/-- The errors of a store are about templates that could not be loaded. -/
theorem TemplateStore.failsOnly_load (s : TemplateStore) (name : String) :
    (s.load name).FailsOnly (· = .templateLoad) := by
  intro e h
  unfold load at h
  split at h
  · cases h
  · split at h
    · cases h
    · split at h
      · cases h
      · obtain rfl := Except.error.inj h
        unfold wrapError
        split
        · assumption
        · rfl

/-- A branch behind an `else` is one of the branches. -/
theorem Emission.mem_of_behindElse? {branches : List Branch} {b : Branch}
    (h : behindElse? branches = some b) : b ∈ branches := by
  induction branches with
  | nil => cases h
  | cons first rest ih =>
    rw [behindElse?] at h
    split at h
    · exact List.mem_cons_of_mem _ (List.mem_of_mem_head? h)
    · exact List.mem_cons_of_mem _ (ih h)

/-- What is rejected about a tag starts in it. -/
theorem Node.exists_line_of_rejection? {registry : Registry} {n : Node} {fault : Fault}
    (h : n.rejection? registry = some fault) :
    ∃ line ∈ n.lines, fault.rejectedLine? = some line := by
  cases n with
  | literal | output => cases h
  | tag name args body branches span =>
    have hlabel {b : Branch} (hb : b ∈ branches) :
        b.line ∈ (Node.tag name args body branches span).lines :=
      List.mem_cons_of_mem _ (List.mem_append_right _
        (List.mem_flatMap.mpr ⟨b, hb, List.mem_cons_self⟩))
    unfold Node.rejection? at h
    dsimp only at h
    split at h
    · obtain rfl := Option.some.inj h
      exact ⟨_, List.mem_cons_self, rfl⟩
    · obtain ⟨b, hb, rfl⟩ := Option.map_eq_some_iff.mp h
      exact ⟨_, hlabel (Emission.mem_of_behindElse? hb), rfl⟩
    · obtain ⟨b, hb, rfl⟩ := Option.map_eq_some_iff.mp h
      exact ⟨_, hlabel (List.mem_of_getElem? hb), rfl⟩
    · cases h

namespace TemplateSet

section

variable (registry : Registry) (controls : Controls) (provider : SourceProvider)
  (root source : String)

/-- How the place of an error goes with the line on which something was rejected. -/
inductive Reports (fault : Fault) (rejected : Nat) (place : Location) : Prop
  /-- The line is the same. -/
  | here (hline : place.line = rejected)
  /-- The lines are those of two neighbours in an output point or a tag of the template. -/
  | beside {text : String} {t u : Token × Span}
      (htext : sourceOf? provider root source place.template = some text)
      (hneighbours : (lex controls text).Neighbours t u)
      (hlines : rejected = t.2.start.line ∧ place.line = u.2.start.line ∨
        rejected = u.2.start.line ∧ place.line = t.2.start.line)
  /-- The line is the one that the tag with the label begins on. -/
  | label {t : Template} {n : Node} (ht : IsParsed registry controls provider root source t)
      (hn : n ∈ Node.everywhere t.nodes) (hfault : n.rejection? registry = some fault)
      (hline : place.line = n.line)

/-- In every template two neighbours in an output point or a tag stand on one line, and a label that
is rejected on the line that its tag begins on. -/
structure IsLevel : Prop where
  neighbours : ∀ {file text}, sourceOf? provider root source file = some text →
    ∀ {t u}, (lex controls text).Neighbours t u → t.2.start.line = u.2.start.line
  labels : ∀ {t}, IsParsed registry controls provider root source t →
    ∀ {n}, n ∈ Node.everywhere t.nodes → ∀ {fault}, n.rejection? registry = some fault →
      fault.rejectedLine? = some n.line

/-- An error that rejects something has a place that goes with it. -/
def IsTraced (e : Error) : Prop :=
  ∀ ⦃rejected⦄, e.fault.rejectedLine? = some rejected → ∃ place, e.location? = some place ∧
    Reports registry controls provider root source e.fault rejected place

end

variable {registry : Registry} {controls : Controls} {provider : SourceProvider}
  {root source : String}

/-- An error that rejects nothing. -/
theorem IsTraced.of_none {e : Error} (h : e.fault.rejectedLine? = none) :
    IsTraced registry controls provider root source e := fun rejected hrejected => by
  rw [h] at hrejected
  cases hrejected

/-- Placing an error changes nothing, as an error that rejects something has its place already. -/
theorem IsTraced.locate {e : Error} (h : IsTraced registry controls provider root source e)
    (template : String) (line : Nat) :
    IsTraced registry controls provider root source (e.locate template line) := by
  intro rejected hrejected
  rw [Error.fault_locate] at hrejected
  obtain ⟨place, hplace, hreports⟩ := h hrejected
  refine ⟨place, ?_, (e.fault_locate template line).symm ▸ hreports⟩
  simp [Error.locate, hplace]

/-- Emission may end with such errors. -/
theorem admits_isTraced :
    Emission.Admits (IsTraced registry controls provider root source) :=
  ⟨fun _ hnone => .of_none hnone, fun template line h => h.locate template line⟩

section

variable (hcontrols : controls.check = .ok ()) (hbuiltin : registry.OnlyBuiltinTags)

include hcontrols hbuiltin

/-- Reading a template of the set. -/
theorem failsWith_parse {name text : String}
    (htext : sourceOf? provider root source name = some text) :
    (Template.parse registry controls name text).FailsWith
      (IsTraced registry controls provider root source) := by
  intro e he rejected hrejected
  obtain ⟨bare, hbare, rfl⟩ :=
    (Template.run_template_spec hcontrols hbuiltin.exists_builtin).2 e he
  rw [Error.fault_locate] at hrejected ⊢
  obtain ⟨line, hline, hnotes⟩ := hbare.line hrejected
  refine ⟨⟨name, line⟩, by simp [Error.locate, hbare.location, hline], ?_⟩
  rcases hnotes with rfl | ⟨t, u, hneighbours, hlines⟩
  · exact .here rfl
  · exact .beside htext hneighbours hlines

/-- Nothing goes on over the end of a line in templates of one line. -/
theorem isLevel_of_one_line
    (hone : ∀ file text, sourceOf? provider root source file = some text →
      text.toList.count '\n' = 0) : IsLevel registry controls provider root source := by
  have htoken {file text : String} (htext : sourceOf? provider root source file = some text)
      {t : Token × Span} (ht : t ∈ (lex controls text).tokens) : t.2.start.line = 1 := by
    obtain ⟨hfirst, hlast⟩ := line_of_mem_lex hcontrols ht
    rw [hone file text htext] at hlast
    exact Nat.le_antisymm hlast hfirst
  constructor
  · rintro file text htext t u ⟨-, before, after, htokens⟩
    have ht : t ∈ (lex controls text).tokens := by simp [htokens]
    have hu : u ∈ (lex controls text).tokens := by simp [htokens]
    rw [htoken htext ht, htoken htext hu]
  · rintro t ⟨text, htext, hparse⟩ n hn fault hfault
    have hstarts : ∀ line ∈ n.lines, line = 1 := by
      intro line hline
      obtain ⟨token, hstands, rfl⟩ :=
        ((Template.run_template_spec hcontrols hbuiltin.exists_builtin).1 t hparse).2 line
          (List.mem_flatMap.mpr ⟨n, hn, hline⟩)
      exact htoken htext hstands
    obtain ⟨line, hline, hrejected⟩ := Node.exists_line_of_rejection? hfault
    rw [hrejected, hstarts line hline, hstarts n.line (by cases n <;> exact List.mem_cons_self)]

variable (hprovider : ∀ name, (provider name).FailsOnly (· = .templateLoad))

include hprovider

/-- Following one reference. -/
theorem failsWith_followOne {t : Template} (hroot : t.name = root) {r : Reference}
    {h : Holdings} :
    (followOne registry controls provider t r h).FailsWith
      (IsTraced registry controls provider root source) := by
  have hmissing : IsTraced registry controls provider root source (notFound r) :=
    .of_none (Fault.rejectedLine?_of_kind (notFound_spec r).2)
  unfold followOne
  dsimp only
  split
  · exact .ok _
  · next hnew =>
    split
    · split
      · exact .ok _
      · exact .error hmissing
    · split
      · next e he =>
        exact .error (.of_none (e.fault_locate _ _ ▸ Fault.rejectedLine?_of_kind (hprovider _ e he)))
      · split
        · exact .ok _
        · exact .error hmissing
      · next text htext =>
        have hname : r.dependency.name ≠ root := fun heq => by simp [hroot, heq] at hnew
        have hsource : sourceOf? provider root source r.dependency.name = some text := by
          rw [sourceOf?, if_neg hname, htext]
          rfl
        split
        · next e he => exact .error (failsWith_parse hcontrols hbuiltin hsource e he)
        · exact .ok _

/-- Following references. -/
theorem failsWith_follow {t : Template} (hroot : t.name = root) {budget : Nat}
    {queue : List Reference} {h : Holdings} :
    (follow registry controls provider t budget queue h.loaded h.missing).FailsWith
      (IsTraced registry controls provider root source) := by
  induction budget generalizing queue h with
  | zero =>
    cases queue with
    | nil => exact .ok _
    | cons r queue => exact .fail (.of_none rfl)
  | succ budget ih =>
    cases queue with
    | nil => exact .ok _
    | cons r queue =>
      -- whatever is held and referred to then, the rest of the loop fails in no other way
      rw [follow_succ]
      exact (failsWith_followOne hcontrols hbuiltin hprovider hroot).bind fun _ _ => ih

/-- Loading a template with everything that it refers to. -/
theorem failsWith_load :
    (load registry controls provider root source).FailsWith
      (IsTraced registry controls provider root source) :=
  (failsWith_parse hcontrols hbuiltin (if_pos rfl)).bind fun _ hparse =>
    @failsWith_follow _ _ _ _ _ hcontrols hbuiltin hprovider _ (name_of_parse hparse) _ _ {}

end

/-- Compiling a set that was loaded. -/
theorem failsWith_compile (hbuiltin : registry.OnlyBuiltinTags) {s : TemplateSet}
    (hload : load registry controls provider root source = .ok s) (autoescape : Bool)
    (name : String) : (s.compile registry autoescape name).FailsWith
      (IsTraced registry controls provider root source) := by
  have hmissing : Emission.MissingAllowed (IsTraced registry controls provider root source) :=
    fun _ => .of_none rfl
  have htemplates : ∀ t ∈ s.templates,
      Emission.Supplied (IsTraced registry controls provider root source) registry s t.nodes := by
    intro t ht n hn
    -- the set need not be closed, as a missing template may be reported
    refine ⟨fun hbad => absurd hmissing hbad, fun hfault template rejected _ => ?_⟩
    refine ⟨⟨template, n.line⟩, rfl, .label (isParsed_of_load hload t ht) hn ?_ rfl⟩
    rw [Error.fault_locate]
    exact hfault
  have hresolve : ∀ t ∈ s.templates, (s.resolve t).FailsWith
      (IsTraced registry controls provider root source) := fun _ ht =>
    @failsWith_resolve registry _ _ admits_isTraced (fun hbad => absurd hmissing hbad) _ ht
  have hkeeps := emitRoot_keeps admits_isTraced
    (fun name tag htag => by obtain ⟨b, hb, -⟩ := hbuiltin htag; cases hb)
    hresolve htemplates referenceBudget
  exact FailsWith.bind (fun e he => hkeeps.errors he) fun _ _ => .ok _

/-- Where nothing goes on over the end of a line, the place has the line of what was rejected. -/
theorem IsLevel.line_eq (hlevel : IsLevel registry controls provider root source) {fault : Fault}
    {rejected : Nat} {place : Location} (hrejected : fault.rejectedLine? = some rejected)
    (h : Reports registry controls provider root source fault rejected place) :
    place.line = rejected := by
  cases h with
  | here hline => exact hline
  | beside htext hneighbours hlines =>
    have hsame := hlevel.neighbours htext hneighbours
    rcases hlines with ⟨rfl, hline⟩ | ⟨rfl, hline⟩
    · exact hline.trans hsame.symm
    · exact hline.trans hsame
  | label ht hn hfault hline =>
    rw [hline]
    exact Option.some.inj ((hlevel.labels ht hn hfault).symm.trans hrejected)

end TemplateSet

/-- The check of delimiters rejects no part of a source. -/
theorem Controls.failsWith_check (c : Controls) :
    c.check.FailsWith fun e => e.fault.rejectedLine? = none := by
  have hpair (name : String) (d : Delimiters) :
      (checkPair name d).FailsWith fun e => e.fault.rejectedLine? = none := by
    unfold checkPair
    split
    · exact .fail rfl
    · split
      · exact .fail rfl
      · exact .ok _
  refine (hpair _ _).bind fun _ _ => (hpair _ _).bind fun _ _ => (hpair _ _).bind fun _ _ => ?_
  split
  · exact .fail rfl
  · exact .ok _

namespace Engine

open TemplateSet (Reports IsLevel IsTraced)

variable {e : Engine} {name source : String} {options : Options} {err : Error} {n : Nat}

/-- Compiling a source. -/
theorem failsWith_compileAs (hbuiltin : e.registry.OnlyBuiltinTags) :
    (e.compileAs name source options).FailsWith
      (IsTraced e.registry options.controls e.templates.load name source) := by
  refine FailsWith.bind ?_ fun _ hcontrols => ?_
  · exact (Controls.failsWith_check _).imp fun _ => .of_none
  · exact (TemplateSet.failsWith_load hcontrols hbuiltin (TemplateStore.failsOnly_load _)).bind
      fun s hload => TemplateSet.failsWith_compile hbuiltin hload _ _

/-- A compilation that fails with a message about something unexpected rejected it on a line that
the message tells, at the end or for a stray end tag before the line of the tag that is open. The
error has a place in a template that goes with this line: it is the same one, or a token and its
neighbour in an output point or a tag stand on the two lines, or a label stands on the one and its
tag begins on the other. So it is the same one where nothing goes on over the end of a line. -/
theorem reports_of_compileAs (hbuiltin : e.registry.OnlyBuiltinTags)
    (h : e.compileAs name source options = .error err) (hcustom : err.fault.isCustom = false)
    (hform : err.fault.SaysUnexpected n) :
    ∃ place rejected, err.location? = some place ∧ err.fault.rejectedLine? = some rejected ∧
      (rejected = n ∨ ∃ word opened, err.fault = .strayEndTag word rejected (some (opened, n))) ∧
      Reports e.registry options.controls e.templates.load name source err.fault rejected place ∧
      (IsLevel e.registry options.controls e.templates.load name source →
        place.line = rejected) := by
  obtain ⟨rejected, hrejected, hn⟩ : ∃ rejected, err.fault.rejectedLine? = some rejected ∧
      (rejected = n ∨
        ∃ word opened, err.fault = .strayEndTag word rejected (some (opened, n))) := by
    rcases hform.rejectedLine? hcustom with hline | ⟨word, line, opened, hfault⟩
    · exact ⟨n, hline, .inl rfl⟩
    · exact ⟨line, congrArg Fault.rejectedLine? hfault, .inr ⟨word, opened, hfault⟩⟩
  obtain ⟨place, hplace, hreports⟩ := failsWith_compileAs hbuiltin err h hrejected
  exact ⟨place, rejected, hplace, hrejected, hn, hreports,
    fun hlevel => hlevel.line_eq hrejected hreports⟩

/-- A tag that is rejected on its second line. -/
def assigningOverLines : String := "\x7b% set x\n  y %\x7d"

/-- The same tag on one line. -/
def assigningOnLine : String := "\x7b% set x y %\x7d"

set_option maxRecDepth 100000 in
/-- In a template that is included, the name on the second line of a tag is rejected and reported on
the first one, with the token in front of it. On one line it is reported where it stands. -/
theorem reports_of_compileAs_included_and_level :
    let e : Engine := addTemplate {} "t" assigningOverLines
    let source := "\x7b% include \"t\" %\x7d"
    (∃ err, e.compileAs anonymousName source {} = .error err ∧ err.fault.isCustom = false ∧
      err.fault.SaysUnexpected 2 ∧ err.location? = some ⟨"t", 1⟩ ∧
        Reports e.registry {} e.templates.load anonymousName source err.fault 2 ⟨"t", 1⟩) ∧
    ∃ err place, compileAs {} anonymousName assigningOnLine {} = .error err ∧
      err.fault.isCustom = false ∧ err.fault.SaysUnexpected 1 ∧
        IsLevel .initial {} (TemplateStore.load {}) anonymousName assigningOnLine ∧
          err.location? = some place ∧ place.line = 1 := by
  intro e source
  constructor
  · have hfailure : (e.compileAs anonymousName source {}).failure? =
        some (.unexpectedToken "variable" "y" 2, some ⟨"t", 1⟩) := by decide +kernel
    obtain ⟨err, herror, hfault, hplace⟩ := Result.eq_error_of_failure? hfailure
    have hcustom : err.fault.isCustom = false := hfault ▸ rfl
    have hform : err.fault.SaysUnexpected 2 := ⟨"variable " ++ Fault.quote "y", hfault ▸ rfl⟩
    obtain ⟨place, rejected, hlocated, hrejected, -, hreports, -⟩ :=
      reports_of_compileAs Registry.onlyBuiltinTags_initial herror hcustom hform
    obtain rfl : (⟨"t", 1⟩ : Location) = place := Option.some.inj (hplace.symm.trans hlocated)
    obtain rfl : 2 = rejected := by simpa [hfault, Fault.rejectedLine?] using hrejected
    exact ⟨err, herror, hcustom, hform, hplace, hreports⟩
  · have hfailure : (compileAs {} anonymousName assigningOnLine {}).failure? =
        some (.unexpectedToken "variable" "y" 1, some ⟨anonymousName, 1⟩) := by decide +kernel
    obtain ⟨err, herror, hfault, hplace⟩ := Result.eq_error_of_failure? hfailure
    have hcustom : err.fault.isCustom = false := hfault ▸ rfl
    have hform : err.fault.SaysUnexpected 1 := ⟨"variable " ++ Fault.quote "y", hfault ▸ rfl⟩
    have hlevel : IsLevel .initial {} (TemplateStore.load {}) anonymousName assigningOnLine := by
      refine TemplateSet.isLevel_of_one_line rfl Registry.onlyBuiltinTags_initial
        fun file text htext => ?_
      rw [TemplateSet.sourceOf?] at htext
      split at htext
      · obtain rfl := Option.some.inj htext
        decide
      · cases htext
    obtain ⟨place, rejected, hlocated, hrejected, -, -, hline⟩ :=
      reports_of_compileAs Registry.onlyBuiltinTags_initial herror hcustom hform
    obtain rfl : 1 = rejected := by simpa [hfault, Fault.rejectedLine?] using hrejected
    exact ⟨err, place, herror, hcustom, hform, hlevel, hlocated, hline hlevel⟩

set_option maxRecDepth 100000 in
/-- The line of the place need not be that of the message. -/
theorem not_forall_line_of_location :
    ¬ ∀ (source : String) (err : Error) (n : Nat),
      compileAs {} anonymousName source {} = .error err → err.fault.isCustom = false →
        err.fault.SaysUnexpected n → ∃ place, err.location? = some place ∧ place.line = n := by
  intro h
  have hfailure : (compileAs {} anonymousName assigningOverLines {}).failure? =
      some (.unexpectedToken "variable" "y" 2, some ⟨anonymousName, 1⟩) := by decide +kernel
  obtain ⟨err, herror, hfault, hplace⟩ := Result.eq_error_of_failure? hfailure
  obtain ⟨place, hlocated, hline⟩ := h _ err 2 herror (hfault ▸ rfl)
    ⟨"variable " ++ Fault.quote "y", hfault ▸ rfl⟩
  obtain rfl : (⟨anonymousName, 1⟩ : Location) = place :=
    Option.some.inj (hplace.symm.trans hlocated)
  cases hline

end Engine

end Templating
