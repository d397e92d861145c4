import Templating.Proofs.Template.Including

/-!
# Following references

What happens to the references of a set while its templates are loaded. One reference is followed at
a time: either its template is at hand or known to be missing, or its source is asked for, and what
comes of that is kept, so that the name is never asked for again. The loop is replayed with a record
of the references it followed and the names it asked for.
-/

namespace Templating

open Node (Throughout ThroughoutBranches everywhere everywhereInBranches)

/-- The tag, if the node is one, requires a template of this name. -/
def Node.Requires (registry : Registry) (required : String) : Node → Prop
  | .tag name args .. =>
    ∃ tag, registry.tag? name = some tag ∧ { name := required } ∈ tag.dependencies args
  | _ => False

/-- All templates that the node requires are in the set. -/
def Node.IsSupplied (registry : Registry) (s : TemplateSet) (n : Node) : Prop :=
  ∀ required, n.Requires registry required → ∃ u ∈ s.templates, u.name = required

/-- Every template that a tag anywhere in the set requires is in the set. -/
def TemplateSet.Closed (registry : Registry) (s : TemplateSet) : Prop :=
  ∀ t ∈ s.templates, Throughout (Node.IsSupplied registry s) t.nodes

mutual

/-- What a node requires, however deep it is, is among the references. -/
theorem mem_nodeReferences_of_requires {registry : Registry} {origin required : String} {n : Node} :
    ∀ {ns : List Node}, n ∈ everywhere ns → n.Requires registry required →
      ∃ r ∈ nodeReferences registry origin ns, r.dependency = { name := required }
  | [], hn, _ => by simp [everywhere] at hn
  | .literal .. :: rest, hn, hrequires => by
    rw [nodeReferences]
    rw [everywhere] at hn
    rcases List.mem_cons.mp hn with rfl | hn
    · exact hrequires.elim
    · exact mem_nodeReferences_of_requires hn hrequires
  | .output .. :: rest, hn, hrequires => by
    rw [nodeReferences]
    rw [everywhere] at hn
    rcases List.mem_cons.mp hn with rfl | hn
    · exact hrequires.elim
    · exact mem_nodeReferences_of_requires hn hrequires
  | .tag name args body branches span :: rest, hn, hrequires => by
    rw [nodeReferences]
    rw [everywhere, List.cons_append, List.cons_append] at hn
    rcases List.mem_cons.mp hn with rfl | hn
    · obtain ⟨tag, htag, hd⟩ := hrequires
      rw [htag]
      have hown := List.mem_map_of_mem (f := fun d => Reference.mk d origin span.start.line) hd
      exact ⟨_, List.mem_append_left _ (List.mem_append_left _ (List.mem_append_left _ hown)), rfl⟩
    · rcases List.mem_append.mp hn with hn | hn
      · rcases List.mem_append.mp hn with hn | hn
        · obtain ⟨r, hr, hdependency⟩ := mem_nodeReferences_of_requires hn hrequires
          exact ⟨r, List.mem_append_left _ (List.mem_append_left _
            (List.mem_append_right _ hr)), hdependency⟩
        · obtain ⟨r, hr, hdependency⟩ := mem_branchReferences_of_requires hn hrequires
          exact ⟨r, List.mem_append_left _ (List.mem_append_right _ hr), hdependency⟩
      · obtain ⟨r, hr, hdependency⟩ := mem_nodeReferences_of_requires hn hrequires
        exact ⟨r, List.mem_append_right _ hr, hdependency⟩

/-- What a node in a branch requires, however deep it is, is among the references. -/
theorem mem_branchReferences_of_requires {registry : Registry} {origin required : String}
    {n : Node} : ∀ {branches : List Branch}, n ∈ everywhereInBranches branches →
      n.Requires registry required →
        ∃ r ∈ branchReferences registry origin branches, r.dependency = { name := required }
  | [], hn, _ => by simp [everywhereInBranches] at hn
  | .mk _ _ body _ :: rest, hn, hrequires => by
    rw [branchReferences]
    rw [everywhereInBranches] at hn
    rcases List.mem_append.mp hn with hn | hn
    · obtain ⟨r, hr, hdependency⟩ := mem_nodeReferences_of_requires hn hrequires
      exact ⟨r, List.mem_append_left _ hr, hdependency⟩
    · obtain ⟨r, hr, hdependency⟩ := mem_branchReferences_of_requires hn hrequires
      exact ⟨r, List.mem_append_right _ hr, hdependency⟩

end

namespace TemplateSet

/-- The templates that are loaded so far, and the names that were asked for in vain. -/
structure Holdings where
  loaded : List Template := []
  missing : List String := []

/-- The name has to be asked for: it is not that of the root, and nothing is known about it. -/
def Holdings.asks (root : Template) (h : Holdings) (name : String) : Bool :=
  !(name == root.name || h.loaded.any fun t => t.name == name) && !h.missing.contains name

/-- How references are followed: the references in the order they were followed in, the names in the
order they were asked for in, and the outcome. -/
structure Course where
  followed : List Reference
  asked : List String
  outcome : Result TemplateSet

variable (registry : Registry) (controls : Controls) (provider : SourceProvider) (root : Template)

/-- Follow one reference: what is held then, and the references to be followed in addition. -/
def followOne (r : Reference) (h : Holdings) : Result (Holdings × List Reference) :=
  let name := r.dependency.name
  if name == root.name || h.loaded.any (fun t => t.name == name) then .ok (h, [])
  else if h.missing.contains name then
    if r.dependency.isOptional then .ok (h, []) else .error (notFound r)
  else
    match provider name with
    | .error e => .error (e.locate r.origin r.line)
    | .ok none =>
      if r.dependency.isOptional then .ok ({ h with missing := name :: h.missing }, [])
      else .error (notFound r)
    | .ok (some source) =>
      match Template.parse registry controls name source with
      | .error e => .error e
      | .ok t => .ok ({ h with loaded := t :: h.loaded }, t.references registry)

/-- Follow the references in the queue and those of the templates loaded on the way, and record
that. -/
def course : Nat → List Reference → Holdings → Course
  | _, [], h => ⟨[], [], .ok ⟨root, h.loaded⟩⟩
  | 0, _ :: _, _ => ⟨[], [], fail .nestedTooDeep⟩
  | budget + 1, r :: queue, h =>
    let rest : Course :=
      match followOne registry controls provider root r h with
      | .error e => ⟨[], [], .error e⟩
      | .ok (h', more) => course budget (queue ++ more) h'
    { rest with
      followed := r :: rest.followed
      asked := if h.asks root r.dependency.name then r.dependency.name :: rest.asked
        else rest.asked }

/-- Parse a template, load everything it refers to, and record that. -/
def loadCourse (name source : String) : Course :=
  match Template.parse registry controls name source with
  | .error e => ⟨[], [], .error e⟩
  | .ok root => course registry controls provider root loadBudget (root.references registry) {}

variable {registry controls provider root} {r : Reference} {h h' : Holdings}
  {budget : Nat} {queue more : List Reference} {s : TemplateSet}

/-- Following references is following one after the other. -/
theorem follow_succ :
    follow registry controls provider root (budget + 1) (r :: queue) h.loaded h.missing =
      followOne registry controls provider root r h >>= fun p =>
        follow registry controls provider root budget (queue ++ p.2) p.1.loaded p.1.missing := by
  rw [follow]
  unfold followOne
  dsimp only
  split
  · rw [← List.append_nil queue]
    simp [bind, Except.bind]
  · split
    · split <;> simp [bind, Except.bind]
    · cases provider r.dependency.name with
      | error e => rfl
      | ok source? =>
        cases source? with
        | none =>
          dsimp only
          split <;> simp [bind, Except.bind]
        | some source =>
          dsimp only
          cases Template.parse registry controls r.dependency.name source <;> rfl

/-- The record has the outcome of the loop it is a record of. -/
theorem outcome_course : (course registry controls provider root budget queue h).outcome =
    follow registry controls provider root budget queue h.loaded h.missing := by
  induction budget generalizing queue h with
  | zero => cases queue <;> simp [course, follow]
  | succ budget ih =>
    cases queue with
    | nil => simp [course, follow]
    | cons r queue =>
      rw [follow_succ, course]
      cases followOne registry controls provider root r h with
      | error e => rfl
      | ok p => exact ih

/-- The record of loading has the outcome of loading. -/
theorem outcome_loadCourse (name source : String) :
    (loadCourse registry controls provider name source).outcome =
      load registry controls provider name source := by
  unfold loadCourse load
  cases Template.parse registry controls name source with
  | error e => rfl
  | ok root => exact outcome_course

/-- What following a reference does if it succeeds. Its name is settled, nothing else comes into
question again, and a required template is at hand afterwards. -/
structure Settles (registry : Registry) (root : Template) (r : Reference) (h h' : Holdings)
    (more : List Reference) : Prop where
  settled : h'.asks root r.dependency.name = false
  asks_of_asks : ∀ name, h'.asks root name = true → h.asks root name = true
  loaded : h.loaded ⊆ h'.loaded
  references : ∀ t ∈ h'.loaded,
    t ∈ h.loaded ∨ t.name = r.dependency.name ∧ more = t.references registry
  required : r.dependency.isOptional = false →
    r.dependency.name = root.name ∨ ∃ t ∈ h'.loaded, t.name = r.dependency.name

/-- Following a reference settles it. -/
theorem settles_of_followOne
    (hone : followOne registry controls provider root r h = .ok (h', more)) :
    Settles registry root r h h' more := by
  unfold followOne at hone
  dsimp only at hone
  split at hone
  · next hknown =>
    obtain ⟨rfl, rfl⟩ := Prod.mk.inj (Except.ok.inj hone)
    refine ⟨by simp [Holdings.asks, hknown], fun _ => id, fun _ => id, fun _ => .inl, fun _ => ?_⟩
    simpa using hknown
  · split at hone
    · next hmissing =>
      split at hone
      · next hoptional =>
        obtain ⟨rfl, rfl⟩ := Prod.mk.inj (Except.ok.inj hone)
        refine ⟨?_, fun _ => id, fun _ => id, fun _ => .inl, by simp [hoptional]⟩
        rw [Holdings.asks, hmissing, Bool.not_true, Bool.and_false]
      · simp at hone
    · split at hone
      · simp at hone
      · split at hone
        · next hoptional =>
          obtain ⟨rfl, rfl⟩ := Prod.mk.inj (Except.ok.inj hone)
          refine ⟨by simp [Holdings.asks], ?_, fun _ => id, fun _ => .inl, by simp [hoptional]⟩
          simp +contextual [Holdings.asks]
        · simp at hone
      · next source _ =>
        split at hone
        · simp at hone
        · next t hparse =>
          obtain ⟨rfl, rfl⟩ := Prod.mk.inj (Except.ok.inj hone)
          have hname := name_of_parse hparse
          refine ⟨by simp [Holdings.asks, hname], ?_, List.subset_cons_self _ _, fun u hu => ?_,
            fun _ => .inr ⟨t, List.mem_cons_self, hname⟩⟩
          · simp +contextual [Holdings.asks]
          · rcases List.mem_cons.mp hu with rfl | hu
            · exact .inr ⟨hname, rfl⟩
            · exact .inl hu

/-- Names are asked for at most once, and only those about which nothing was known. -/
theorem asked_course : (course registry controls provider root budget queue h).asked.Nodup ∧
    ∀ name ∈ (course registry controls provider root budget queue h).asked,
      h.asks root name = true := by
  induction budget generalizing queue h with
  | zero => cases queue <;> simp [course]
  | succ budget ih =>
    cases queue with
    | nil => simp [course]
    | cons r queue =>
      rw [course]
      cases hone : followOne registry controls provider root r h with
      | error e => by_cases hasks : h.asks root r.dependency.name = true <;> simp [hasks]
      | ok p =>
        obtain ⟨h', more⟩ := p
        have hsettles := settles_of_followOne hone
        obtain ⟨hnodup, hlater⟩ := @ih h' (queue ++ more)
        have hbefore := fun name hname => hsettles.asks_of_asks name (hlater name hname)
        dsimp only
        split
        · next hasks =>
          refine ⟨List.nodup_cons.mpr ⟨fun hagain => ?_, hnodup⟩,
            List.forall_mem_cons.mpr ⟨hasks, hbefore⟩⟩
          have := hlater _ hagain
          simp [hsettles.settled] at this
        · exact ⟨hnodup, hbefore⟩

/-- A provider that gives the same for the names that are asked for makes no difference. -/
theorem course_congr {provider' : SourceProvider}
    (hsame : ∀ name ∈ (course registry controls provider root budget queue h).asked,
      provider' name = provider name) :
    course registry controls provider' root budget queue h =
      course registry controls provider root budget queue h := by
  induction budget generalizing queue h with
  | zero => cases queue <;> simp [course]
  | succ budget ih =>
    cases queue with
    | nil => simp [course]
    | cons r queue =>
      have hone : followOne registry controls provider' root r h =
          followOne registry controls provider root r h := by
        by_cases hasks : h.asks root r.dependency.name = true
        · have hasked := hsame r.dependency.name (by simp [course, hasks])
          unfold followOne
          simp only [hasked]
        · unfold followOne
          dsimp only
          split
          · rfl
          · next hnew =>
            split
            · rfl
            · next hunknown =>
              rw [Bool.not_eq_true] at hnew hunknown
              exact absurd (by rw [Holdings.asks, hnew, hunknown]; rfl) hasks
      rw [course, course, hone]
      cases hnext : followOne registry controls provider root r h with
      | error e => rfl
      | ok p =>
        obtain ⟨h', more⟩ := p
        have hrest := @ih h' (queue ++ more) fun name hname => hsame name (by
          rw [course, hnext]
          dsimp only
          split
          · exact List.mem_cons_of_mem _ hname
          · exact hname)
        dsimp only
        rw [hrest]

/-- The reference does without its template, or finds it in the set. -/
def Reference.IsAnswered (s : TemplateSet) (r : Reference) : Prop :=
  r.dependency.isOptional = false → ∃ u ∈ s.templates, u.name = r.dependency.name

/-- In the end all references are answered, those in the queue and those of the templates that were
loaded on the way. -/
theorem isAnswered_of_follow
    (hfollow : follow registry controls provider root budget queue h.loaded h.missing = .ok s) :
    s.root = root ∧ h.loaded ⊆ s.loaded ∧ (∀ r ∈ queue, Reference.IsAnswered s r) ∧
      ∀ t ∈ s.loaded, t ∈ h.loaded ∨ ∀ r ∈ t.references registry, Reference.IsAnswered s r := by
  induction budget generalizing queue h with
  | zero =>
    cases queue with
    | nil =>
      obtain rfl := Except.ok.inj hfollow
      exact ⟨rfl, fun _ => id, by simp, fun _ => .inl⟩
    | cons r queue => simp [follow, fail] at hfollow
  | succ budget ih =>
    cases queue with
    | nil =>
      obtain rfl := Except.ok.inj hfollow
      exact ⟨rfl, fun _ => id, by simp, fun _ => .inl⟩
    | cons r queue =>
      rw [follow_succ] at hfollow
      obtain ⟨⟨h', more⟩, hone, hrest⟩ := Result.bind_eq_ok.mp hfollow
      have hsettles := settles_of_followOne hone
      obtain ⟨hroot, hloaded, hqueue, htemplates⟩ := ih hrest
      obtain ⟨hqueue, hmore⟩ := List.forall_mem_append.mp hqueue
      refine ⟨hroot, fun t ht => hloaded (hsettles.loaded ht),
        List.forall_mem_cons.mpr ⟨fun hrequired => ?_, hqueue⟩, fun t ht => ?_⟩
      · rcases hsettles.required hrequired with hname | ⟨t, ht, hname⟩
        · exact ⟨s.root, List.mem_cons_self, (congrArg Template.name hroot).trans hname.symm⟩
        · exact ⟨t, List.mem_cons_of_mem _ (hloaded ht), hname⟩
      · rcases htemplates t ht with ht | hanswered
        · rcases hsettles.references t ht with ht | ⟨-, hown⟩
          · exact .inl ht
          · exact .inr (hown ▸ hmore)
        · exact .inr hanswered

/-- A set that is loaded has every template that a tag anywhere in it requires. -/
theorem closed_of_load {name source : String}
    (hload : load registry controls provider name source = .ok s) : s.Closed registry := by
  obtain ⟨root, -, hfollow⟩ := Result.bind_eq_ok.mp hload
  obtain ⟨rfl, -, hqueue, htemplates⟩ := isAnswered_of_follow (h := {}) hfollow
  have hanswered : ∀ t ∈ s.templates, ∀ r ∈ t.references registry, Reference.IsAnswered s r :=
    List.forall_mem_cons.mpr ⟨hqueue, fun t ht => (htemplates t ht).resolve_left List.not_mem_nil⟩
  intro t ht n hn required hrequires
  obtain ⟨r, hr, hdependency⟩ : ∃ r ∈ t.references registry, r.dependency = { name := required } :=
    mem_nodeReferences_of_requires hn hrequires
  have hanswer := hanswered t ht r hr
  rw [Reference.IsAnswered, hdependency] at hanswer
  exact hanswer rfl

section

variable {missing : String}

/-- A template that the provider does not know is not among those at hand. -/
def Holdings.Lacks (h : Holdings) (missing : String) : Prop := ∀ t ∈ h.loaded, t.name ≠ missing

/-- Following a required reference to a template that the provider does not know fails. -/
theorem followOne_of_required (hunknown : provider r.dependency.name = .ok none)
    (hroot : r.dependency.name ≠ root.name) (hlacks : h.Lacks r.dependency.name)
    (hrequired : r.dependency.isOptional = false) :
    followOne registry controls provider root r h = .error (notFound r) := by
  have hnew : ¬ (r.dependency.name == root.name ||
      h.loaded.any fun t => t.name == r.dependency.name) = true := by
    simp only [beq_eq_false_iff_ne.mpr hroot, Bool.false_or, List.any_eq_true, beq_iff_eq,
      not_exists, not_and]
    exact hlacks
  unfold followOne
  dsimp only
  rw [if_neg hnew, hunknown, hrequired]
  split <;> rfl

/-- Following an optional reference to a template that the provider does not know goes on. -/
theorem followOne_of_optional (hunknown : provider r.dependency.name = .ok none)
    (hoptional : r.dependency.isOptional = true) :
    ∃ h', followOne registry controls provider root r h = .ok (h', []) ∧ h'.loaded = h.loaded := by
  unfold followOne
  dsimp only
  rw [hunknown, hoptional]
  split
  · exact ⟨h, rfl, rfl⟩
  · split
    · exact ⟨h, rfl, rfl⟩
    · exact ⟨_, rfl, rfl⟩

/-- A template that is reported missing is named, and the class of the error is its own. -/
theorem notFound_spec (r : Reference) :
    (notFound r).fault = .templateNotFound r.dependency.name ∧
      (notFound r).kind = .templateLoad := by
  have hfault : (notFound r).fault = .templateNotFound r.dependency.name := Error.fault_locate ..
  exact ⟨hfault, congrArg Fault.kind hfault⟩

/-- Where nothing was followed no template was reported missing. -/
theorem outcome_ne_of_followed_eq_nil
    (hnil : (course registry controls provider root budget queue h).followed = []) :
    (course registry controls provider root budget queue h).outcome ≠ .error (notFound r) := by
  cases queue with
  | nil => cases budget <;> simp [course]
  | cons r' queue =>
    cases budget with
    | zero =>
      rw [course]
      intro heq
      have hfault := congrArg Error.fault (Except.error.inj heq)
      rw [(notFound_spec r).1] at hfault
      cases hfault
    | succ budget => simp [course] at hnil

/-- The last reference that was followed asks for the template, which is reported missing. -/
def Course.ReportsMissing (c : Course) (missing : String) : Prop :=
  ∃ r, c.followed.getLast? = some r ∧ r.dependency.name = missing ∧ c.outcome = .error (notFound r)

/-- A reference that others may be followed behind is not the one that is reported. -/
theorem Course.reportsMissing_cons {c : Course} {asked : List String}
    (hquiet : c.followed = [] → c.outcome ≠ .error (notFound r)) :
    (Course.mk (r :: c.followed) asked c.outcome).ReportsMissing missing ↔
      c.ReportsMissing missing := by
  dsimp only [ReportsMissing]
  cases hfollowed : c.followed with
  | nil =>
    constructor
    · rintro ⟨_, hlast, -, houtcome⟩
      obtain rfl := Option.some.inj hlast
      exact absurd houtcome (hquiet hfollowed)
    · rintro ⟨_, hlast, -⟩
      cases hlast
  | cons first others => rw [List.getLast?_cons_cons]

/-- Of the references to a template that the provider does not know, the first required one that is
followed is reported. The optional ones before it make no difference. -/
theorem reportsMissing_course (hunknown : provider missing = .ok none) (hroot : missing ≠ root.name)
    (hlacks : h.Lacks missing) :
    (course registry controls provider root budget queue h).ReportsMissing missing ↔
      ∃ r ∈ (course registry controls provider root budget queue h).followed,
        r.dependency.name = missing ∧ r.dependency.isOptional = false := by
  induction budget generalizing queue h with
  | zero => cases queue <;> simp [course, Course.ReportsMissing]
  | succ budget ih =>
    cases queue with
    | nil => simp [course, Course.ReportsMissing]
    | cons r queue =>
      rw [course]
      cases hone : followOne registry controls provider root r h with
      | error e =>
        have hlast : (∃ r', some r = some r' ∧ r'.dependency.name = missing ∧
            (Except.error e : Result TemplateSet) = .error (notFound r')) ↔
              r.dependency.name = missing ∧ r.dependency.isOptional = false := by
          constructor
          · rintro ⟨_, heq, hname, -⟩
            obtain rfl := Option.some.inj heq
            refine ⟨hname, Bool.eq_false_iff.mpr fun hoptional => ?_⟩
            obtain ⟨h', hgoesOn, -⟩ :
                ∃ h', followOne registry controls provider root r h = .ok (h', []) ∧
                  h'.loaded = h.loaded :=
              followOne_of_optional (hname ▸ hunknown) hoptional
            exact absurd (hone.symm.trans hgoesOn) nofun
          · rintro ⟨rfl, hrequired⟩
            refine ⟨r, rfl, rfl, ?_⟩
            rw [← Except.error.inj (hone.symm.trans
              (followOne_of_required hunknown hroot hlacks hrequired))]
        simpa [Course.ReportsMissing] using hlast
      | ok p =>
        obtain ⟨h', more⟩ := p
        have hsettles := settles_of_followOne hone
        -- the reference that was just followed is none that could have been reported
        have hoptional : r.dependency.name = missing → r.dependency.isOptional = true := by
          rintro rfl
          refine Bool.not_eq_false _ |>.mp fun hrequired => ?_
          exact absurd (hone.symm.trans
            (followOne_of_required hunknown hroot hlacks hrequired)) nofun
        have hlacks' : h'.Lacks missing := by
          intro t ht hname
          rcases hsettles.references t ht with ht | ⟨hsame, -⟩
          · exact hlacks t ht hname
          · have hmissing := hsame.symm.trans hname
            obtain ⟨h'', hgoesOn, hkept⟩ :
                ∃ h'', followOne registry controls provider root r h = .ok (h'', []) ∧
                  h''.loaded = h.loaded :=
              followOne_of_optional (hmissing ▸ hunknown) (hoptional hmissing)
            obtain ⟨rfl, -⟩ := Prod.mk.inj (Except.ok.inj (hone.symm.trans hgoesOn))
            exact hlacks t (hkept ▸ ht) hname
        have hrest := @ih h' (queue ++ more) hlacks'
        have hfirst : (∃ r' ∈ r :: (course registry controls provider root budget (queue ++ more)
            h').followed, r'.dependency.name = missing ∧ r'.dependency.isOptional = false) ↔
              ∃ r' ∈ (course registry controls provider root budget (queue ++ more) h').followed,
                r'.dependency.name = missing ∧ r'.dependency.isOptional = false := by
          simp only [List.exists_mem_cons_iff, or_iff_right_iff_imp]
          rintro ⟨hname, hrequired⟩
          rw [hoptional hname] at hrequired
          cases hrequired
        rw [hfirst, ← hrest]
        exact Course.reportsMissing_cons outcome_ne_of_followed_eq_nil

end

end TemplateSet

end Templating
