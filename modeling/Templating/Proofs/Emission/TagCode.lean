import Templating.Proofs.Emission.Laws

/-!
# What the code of a tag is made of

What is known of a built-in tag whose code was emitted: its arguments have the form that the tag
asks for, and its code consists of pieces that were emitted one after the other. Proofs about
emitted code go through these cases, and need not take apart the function that emits it again.
-/

namespace Templating.Emission

/-- The code of a built-in tag with given arguments, body and branches that was emitted between two
states. -/
inductive TagCode (E : Elsewhere) (env : Surroundings) (args : List TagArg) (body : List Node)
    (branches : List Branch) : BuiltinTag → EmissionState → Fragment → EmissionState → Prop
  | inherit {s : EmissionState} : TagCode E env args body branches .inherit s [] s
  | block {s t : EmissionState} {code : Fragment} {name : String} :
    args.head?.bind TagArg.asIdent? = some name → blockLayer E env name 0 s = .ok (code, t) →
      TagCode E env args body branches .block s code t
  | parent {s t : EmissionState} {code : Fragment} : parentLayer E env s = .ok (code, t) →
    TagCode E env args body branches .parent s code t
  | cond {s t u v : EmissionState} {test yes rest : Fragment} {condition : Expr} {onFalse : Nat} :
    behindElse? branches = none → args.head?.bind TagArg.asExpr? = some condition →
      expr env.isFilter condition s = .ok (test, u) →
      nodes E env body { u with next := u.next + 1 } = .ok (yes, v) →
      alternatives E env branches v = .ok ((rest, onFalse), t) →
        TagCode E env args body branches .cond s
          (test ++ ⟨.jumpIfFalse onFalse, u.file, u.line⟩ :: yes ++ rest) t
  | loop {s t : EmissionState} {code : Fragment} : branches = [] →
    loop env.isFilter args (nodes E env body) none s = .ok (code, t) →
      TagCode E env args body branches .loop s code t
  | loopOrElse {s t : EmissionState} {code : Fragment} {other : Branch} : branches = [other] →
    loop env.isFilter args (nodes E env body) (some (branchAt E env branches 0)) s = .ok (code, t) →
      TagCode E env args body branches .loop s code t
  | assign {s t : EmissionState} {code : Fragment} :
    assignment env.isFilter args s = .ok (code, t) →
      TagCode E env args body branches .assign s code t
  | insert {s t : EmissionState} {code : Fragment} {template : String} :
    args.head?.bind TagArg.asText? = some template →
      insertTemplate E env template (args.findSome? TagArg.asExpr?)
        (args.any (TagArg.isFlag "only")) (args.any (TagArg.isFlag "ignore missing")) s =
          .ok (code, t) →
        TagCode E env args body branches .insert s code t
  | importMacros {s t u : EmissionState} {macros store : Fragment} {template alias_ : String} :
    args = [.text template, .ident alias_] →
      importTemplate E env template s = .ok (macros, u) →
      op (.storeLocal alias_) u = .ok (store, t) →
        TagCode E env args body branches .importMacros s (macros ++ store) t
  | defineMacro {s t u v : EmissionState} {build store : Fragment} {name : String}
      {params : List String} {id : Nat} :
    macroSignature? args = some (name, params) →
      macroCode name params (nodes E env body) s = .ok (id, u) →
      op (.buildMacro id) u = .ok (build, v) → op (.storeLocal name) v = .ok (store, t) →
        TagCode E env args body branches .defineMacro s (build ++ store) t
  | filter {s t : EmissionState} {code : Fragment} :
    filtered env.isFilter args (nodes E env body) s = .ok (code, t) →
      TagCode E env args body branches .filter s code t
  | escaping {s t : EmissionState} {code : Fragment} :
    escaping args (nodes E env body) s = .ok (code, t) →
      TagCode E env args body branches .escaping s code t

/-- The code of another template at some place: none if there is no such template and need not be
one; otherwise its nodes in a frame. -/
inductive InsertedCode (E : Elsewhere) (env : Surroundings) (name : String) (value? : Option Expr)
    (isolated : Bool) : EmissionState → Fragment → EmissionState → Prop
  | missing {s : EmissionState} : env.set.get? name = none →
    InsertedCode E env name value? isolated s [] s
  | inserted {s t u v : EmissionState} {frame body pop : Fragment} {template : Template}
      {resolved : Resolved} :
    env.set.get? name = some template → env.including.contains template.name = false →
      env.set.resolve template = .ok resolved →
      includeFrame env value? isolated s = .ok (frame, u) →
      nodesOf E { env with resolved, blocks := [], including := template.name :: env.including }
        resolved.body u = .ok (body, v) →
      op .popFrame v = .ok (pop, t) →
        InsertedCode E env name value? isolated s (frame ++ body ++ pop) t

variable {E : Elsewhere} {env : Surroundings} {s t : EmissionState} {code : Fragment}

/-- Code that was emitted for another template is such code. -/
theorem insertedCode_of_eq_ok {name : String} {value? : Option Expr} {isolated isOptional : Bool}
    (h : insertTemplate E env name value? isolated isOptional s = .ok (code, t)) :
    InsertedCode E env name value? isolated s code t := by
  cases hget : env.set.get? name with
  | none =>
    cases isOptional with
    | true =>
      obtain ⟨rfl, rfl⟩ : [] = code ∧ s = t := by
        simpa [insertTemplate, hget, pure_eq_ok] using h
      exact .missing hget
    | false => simp [insertTemplate, hget, fail_eq_ok] at h
  | some template =>
    cases hincluding : env.including.contains template.name with
    | true =>
      simp only [insertTemplate, hget, hincluding, if_true, bind_eq_ok, fail_eq_ok] at h
      obtain ⟨_, _, _, h⟩ := h
      exact h.elim
    | false =>
      simp only [insertTemplate, hget, hincluding, Bool.false_eq_true, if_false, bind_eq_ok,
        pure_eq_ok] at h
      obtain ⟨resolved, u, hresolve, frame, v, hframe, body, w, hbody, pop, x, hpop, rfl, rfl⟩ := h
      obtain ⟨hresolved, rfl⟩ := lift_eq_ok.mp hresolve
      exact .inserted hget hincluding hresolved hframe hbody hpop

/-- Bad arguments are no success. -/
theorem badArguments_eq_ok {name : String} : badArguments name s = .ok (code, t) ↔ False := by
  simp [badArguments, bind_eq_ok, fail_eq_ok]

/-- Noting the use of an added tag only changes the list of these. -/
theorem noted_eq_ok {note : Bool} {name : String} {rest : Unit → Emission Fragment}
    (h : (if note = true then useTag name >>= rest else rest ()) s = .ok (code, t)) :
    ∃ tags, rest () { s with tags } = .ok (code, t) := by
  cases note with
  | true =>
    obtain ⟨⟨⟩, u, huse, h⟩ := bind_eq_ok.mp h
    obtain rfl := useTag_eq_ok.mp huse
    exact ⟨_, h⟩
  | false => exact ⟨s.tags, h⟩

/-- A tag that code was emitted for is a built-in one unless it is an added one, and its code is
that of the tag, behind a change of the line and of the added tags that were noted. -/
theorem exists_tagCode {name : String} {args : List TagArg} {body : List Node}
    {branches : List Branch} {span : Span}
    (h : node E env (.tag name args body branches span) s = .ok (code, t))
    (hbuiltin : ∀ tag, env.registry.tag? name ≠ some (.custom tag)) :
    ∃ tag tags, env.registry.tag? name = some (.builtin tag) ∧
      TagCode E env args body branches tag { s with line := span.start.line, tags } code t := by
  simp only [node, bind_eq_ok, setLine_eq_ok, placed_eq_ok] at h
  obtain ⟨_, _, rfl, h⟩ := h
  obtain ⟨tags, h⟩ := noted_eq_ok h
  cases htag : env.registry.tag? name with
  | none => simp [htag, fail_eq_ok] at h
  | some tag =>
    cases tag with
    | custom tag => exact absurd htag (hbuiltin tag)
    | builtin tag =>
      refine ⟨tag, tags, rfl, ?_⟩
      simp only [htag] at h
      cases tag with
      | inherit =>
        obtain ⟨rfl, rfl⟩ := pure_eq_ok.mp h
        exact .inherit
      | block =>
        cases hblock : args.head?.bind TagArg.asIdent? with
        | none => simp [hblock, badArguments_eq_ok] at h
        | some block => exact .block hblock (by simpa only [hblock] using h)
      | parent => exact .parent h
      | cond =>
        cases hlast : behindElse? branches with
        | some b => simp [hlast, fail_eq_ok] at h
        | none =>
          cases hcondition : args.head?.bind TagArg.asExpr? with
          | none => simp [hlast, hcondition, badArguments_eq_ok] at h
          | some condition =>
            simp only [hlast, hcondition, bind_eq_ok, reserve_eq_ok, pure_eq_ok] at h
            obtain ⟨test, u, htest, _, _, ⟨rfl, rfl⟩, yes, v, hyes, ⟨rest, onFalse⟩, w, hrest,
              rfl, rfl⟩ := h
            exact .cond hlast hcondition htest hyes hrest
      | loop =>
        simp only at h
        split at h
        · exact .loop rfl h
        · exact .loopOrElse rfl h
        · exact (fail_eq_ok.mp h).elim
      | assign => exact .assign h
      | insert =>
        cases htemplate : args.head?.bind TagArg.asText? with
        | none => simp [htemplate, badArguments_eq_ok] at h
        | some template => exact .insert htemplate (by simpa only [htemplate] using h)
      | importMacros =>
        simp only at h
        split at h
        · simp only [bind_eq_ok, pure_eq_ok] at h
          obtain ⟨macros, u, hmacros, store, v, hstore, rfl, rfl⟩ := h
          exact .importMacros rfl hmacros hstore
        · exact (badArguments_eq_ok.mp h).elim
      | defineMacro =>
        cases hsignature : macroSignature? args with
        | none => simp [hsignature, badArguments_eq_ok] at h
        | some signature =>
          simp only [hsignature, bind_eq_ok, pure_eq_ok] at h
          obtain ⟨id, u, hid, build, v, hbuild, store, w, hstore, rfl, rfl⟩ := h
          exact .defineMacro hsignature hid hbuild hstore
      | filter => exact .filter h
      | escaping => exact .escaping h

end Templating.Emission
