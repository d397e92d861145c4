import Templating.Proofs.Emission.Origins
import Templating.Proofs.Emission.Supplied
import Templating.Proofs.Template.Chains
import Templating.Proofs.Template.Inheritance

/-!
# What inheritance accepts

A template says in front which one it extends: at its top level, behind nothing but white space.
Following these tags leads from one template to the next. Inheritance is applied exactly where the
way ends in a template that extends none before a name comes again, where no template on the way has
another tag of this kind, and none defines a block twice. Then a block has the definitions that the
templates on the way give it, most derived first. Everything else is rejected, and no bound on the
steps is met.
-/

namespace Templating

open Node (Throughout ThroughoutBranches everywhere everywhereInBranches)

namespace Result

variable {α β : Type} {f : α → Result β} {xs : List α}

/-- Computations over a list succeed if each one does. -/
theorem mapM_eq_map {g : α → β} (h : ∀ x ∈ xs, f x = .ok (g x)) : xs.mapM f = .ok (xs.map g) := by
  induction xs with
  | nil => rfl
  | cons x rest ih =>
    obtain ⟨hx, hrest⟩ := List.forall_mem_cons.mp h
    rw [List.mapM_cons, hx, ih hrest]
    rfl

/-- Each of them succeeds if they all do. -/
theorem exists_ok_of_mem {ys : List β} (h : xs.mapM f = .ok ys) {x : α} (hx : x ∈ xs) :
    ∃ y, f x = .ok y := by
  obtain ⟨hlength, hplaces⟩ := mapM_eq_ok h
  obtain ⟨i, hi, rfl⟩ := List.getElem_of_mem hx
  exact ⟨_, hplaces (List.getElem?_eq_getElem hi) (List.getElem?_eq_getElem (hlength ▸ hi))⟩

end Result

/-- The block that a node defines. -/
def Node.definition? : Node → Option BlockDef
  | .tag name args body _ span =>
    if name = "block" then
      (args.head?.bind TagArg.asIdent?).map fun block => ⟨block, span.start.line, body⟩
    else none
  | _ => none

/-- The template that a node extends. -/
def Node.extended? : Node → Option String
  | .tag name args .. => if name = "extends" then args.head?.bind TagArg.asText? else none
  | _ => none

/-- The tags among the nodes, at any depth, that extend a template. -/
def extendsTags (ns : List Node) : List Node := (everywhere ns).filter Node.isExtends

/-- The tag that extends a template, with nothing but white space before it. -/
def frontTag? (ns : List Node) : Option Node :=
  (ns.find? fun n => !n.isBlank).filter Node.isExtends

namespace Template

/-- The template that the tag in front extends. -/
def extended? (t : Template) : Option String := (frontTag? t.nodes).bind Node.extended?

/-- The blocks that the template defines, at any depth. -/
def definedBlocks (t : Template) : List BlockDef := (everywhere t.nodes).filterMap Node.definition?

/-- What inheritance asks of a template on the way. -/
structure IsAccepted (t : Template) : Prop where
  /-- No tag but one in front extends a template. -/
  front : extendsTags t.nodes = (frontTag? t.nodes).toList
  blocks : (t.definedBlocks.map BlockDef.name).Nodup

end Template

namespace TemplateSet

/-- The templates on the way from a template to one that extends none, each of them extending the
next one. -/
inductive IsWay (s : TemplateSet) : Template → List Template → Prop
  | base {t : Template} (h : t.extended? = none) : IsWay s t [t]
  | derived {t next : Template} {base : String} {way : List Template} (h : t.extended? = some base)
    (hget : s.get? base = some next) (hway : IsWay s next way) : IsWay s t (t :: way)

/-- The way that inheritance follows from a template. -/
structure IsPassable (s : TemplateSet) (t : Template) (way : List Template) : Prop where
  isWay : s.IsWay t way
  once : (way.map Template.name).Nodup
  accepted : ∀ u ∈ way, u.IsAccepted

end TemplateSet

/-! ## Blocks -/

mutual

/-- The definitions of blocks are found at any depth. -/
theorem blockDefs_eq : ∀ ns : List Node, blockDefs ns = (everywhere ns).filterMap Node.definition?
  | [] => by simp [blockDefs, everywhere]
  | .literal .. :: rest => by
    rw [blockDefs, everywhere, List.filterMap_cons_none rfl, blockDefs_eq rest]
  | .output .. :: rest => by
    rw [blockDefs, everywhere, List.filterMap_cons_none rfl, blockDefs_eq rest]
  | .tag name args body branches span :: rest => by
    rw [blockDefs, everywhere, blockDefs_eq body, branchBlockDefs_eq branches, blockDefs_eq rest]
    simp only [List.cons_append, List.filterMap_cons, List.filterMap_append, Node.definition?]
    cases args.head?.bind TagArg.asIdent? <;> split <;> simp_all

/-- The definitions of blocks in branches are found at any depth. -/
theorem branchBlockDefs_eq : ∀ branches : List Branch,
    branchBlockDefs branches = (everywhereInBranches branches).filterMap Node.definition?
  | [] => by simp [branchBlockDefs, everywhereInBranches]
  | .mk _ _ body _ :: rest => by
    rw [branchBlockDefs, everywhereInBranches, List.filterMap_append, blockDefs_eq body,
      branchBlockDefs_eq rest]

end

/-- A definition comes again exactly if a name does, or was there before. -/
theorem firstDuplicate?_eq_none_iff {seen : List String} {defs : List BlockDef} :
    firstDuplicate? seen defs = none ↔
      (defs.map BlockDef.name).Nodup ∧ ∀ d ∈ defs, d.name ∉ seen := by
  induction defs generalizing seen with
  | nil => simp [firstDuplicate?]
  | cons d rest ih =>
    by_cases h : d.name ∈ seen
    · simp [firstDuplicate?, h]
    · simp only [firstDuplicate?, List.contains_iff_mem, h, if_false, ih, List.map_cons,
        List.nodup_cons, List.mem_map]
      constructor
      · rintro ⟨hnodup, hfresh⟩
        have hnew (e : BlockDef) (he : e ∈ rest) := not_or.mp (List.mem_cons.not.mp (hfresh e he))
        refine ⟨⟨?_, hnodup⟩, List.forall_mem_cons.mpr ⟨h, fun e he => (hnew e he).2⟩⟩
        rintro ⟨e, he, hname⟩
        exact (hnew e he).1 hname
      · rintro ⟨⟨hnew, hnodup⟩, hfresh⟩
        refine ⟨hnodup, fun e he hname => ?_⟩
        rcases List.mem_cons.mp hname with hsame | hseen
        · exact hnew ⟨e, he, hsame⟩
        · exact hfresh e (List.mem_cons_of_mem d he) hseen

/-- Of definitions with different names there is one of a name at most. -/
theorem find?_eq_head_of_nodup {defs : List BlockDef} (h : (defs.map BlockDef.name).Nodup)
    (block : String) :
    (defs.find? fun d => d.name == block).toList = defs.filter fun d => d.name == block := by
  induction defs with
  | nil => rfl
  | cons d rest ih =>
    obtain ⟨hnew, hnodup⟩ := List.nodup_cons.mp h
    by_cases hname : d.name = block
    · have hnone : rest.filter (fun e => e.name == block) = [] := List.filter_eq_nil_iff.mpr
        fun e he heq => hnew (List.mem_map.mpr ⟨e, he, (beq_iff_eq.mp heq).trans hname.symm⟩)
      simp [hname, hnone]
    · simpa [hname] using ih hnodup

namespace Template

variable {t : Template}

/-- The computation rejects a template. -/
def Rejects {α : Type} (r : Result α) : Prop := ∃ e, r = .error e ∧ e.kind = .compileError

/-- An error at a line of the template. -/
theorem rejects_failAt {α : Type} {line : Nat} {fault : Fault} (h : fault.kind = .compileError) :
    Rejects (t.failAt line fault : Result α) :=
  ⟨_, rfl, by rw [Error.kind_locate]; exact h⟩

/-- The blocks of a template are taken if their names are different, and rejected if not. -/
theorem blocks_cases (t : Template) :
    ((t.definedBlocks.map BlockDef.name).Nodup ∧ t.blocks = .ok t.definedBlocks) ∨
      (¬ (t.definedBlocks.map BlockDef.name).Nodup ∧ Rejects t.blocks) := by
  have hduplicate : firstDuplicate? [] t.definedBlocks = none ↔ _ := firstDuplicate?_eq_none_iff
  rw [blocks, blockDefs_eq, ← definedBlocks]
  cases hfirst : firstDuplicate? [] t.definedBlocks with
  | none => exact .inl ⟨(hduplicate.mp hfirst).1, rfl⟩
  | some d =>
    refine .inr ⟨fun hnodup => ?_, rejects_failAt rfl⟩
    simp [hduplicate.mpr ⟨hnodup, by simp⟩] at hfirst

end Template

/-! ## Tags that extend a template -/

/-- A tag that extends a template is the built-in one, names the template and has nothing inside. -/
def Node.ExtendsPlainly (registry : Registry) : Node → Prop
  | .tag name args body branches _ => name = "extends" →
    registry.tag? "extends" = some (.builtin .inherit) ∧ (∃ base, args = [.text base]) ∧
      body = [] ∧ branches = []
  | _ => True

/-- The tags that are read extend templates in this way. -/
theorem Parser.reads_extendsPlainly {registry : Registry} (hbuiltin : registry.OnlyBuiltinTags) :
    Parser.Reads registry 0 (fun _ _ => True)
      (fun _ tag args => tag = .builtin .inherit → ∃ base, args = [.text base])
      (fun _ _ _ => True) fun _ n => Throughout (Node.ExtendsPlainly registry) [n] := by
  refine .throughout (fun _ _ _ _ _ => trivial) ?arguments (fun _ _ _ _ _ _ _ => trivial)
    (fun _ _ => trivial) (fun _ _ => trivial) ?tag
  case arguments =>
    rintro expr _ - s args rest hrun rfl
    have hgives : (do return [TagArg.text (← Parser.text)] : Parser (List TagArg)).Gives
        fun args => ∃ base, args = [.text base] :=
      (Within.behind fun base => .pure ⟨base, rfl⟩).gives
    exact hgives hrun
  case tag =>
    rintro name tag args body branches span htag hargs hempty - rfl
    obtain ⟨b, rfl, hname⟩ := hbuiltin htag
    obtain rfl : b = .inherit := by cases b <;> simp [BuiltinTag.name] at hname ⊢
    exact ⟨htag, hargs rfl, hempty rfl⟩

section

variable {registry : Registry} {n : Node} {ns rest : List Node}

/-- There is no tag that extends a template exactly if none is found. -/
theorem extendsTags_eq_nil_iff : extendsTags ns = [] ↔ firstExtends? ns = none := by
  rw [firstExtends?_eq_none_iff, extendsTags, List.filter_eq_nil_iff]
  refine forall₂_congr fun n _ => ?_
  cases n <;> simp [Node.isExtends, Node.OnTag]

/-- Literal text is no tag. -/
@[simp] theorem extendsTags_literal {text : String} {span : Span} :
    extendsTags (.literal text span :: rest) = extendsTags rest := by
  rw [extendsTags, everywhere, List.filter_cons_of_neg (by simp [Node.isExtends]), extendsTags]

/-- An output point is no tag. -/
@[simp] theorem extendsTags_output {subject : Expr} {filters : List FilterCall} {span : Span} :
    extendsTags (.output subject filters span :: rest) = extendsTags rest := by
  rw [extendsTags, everywhere, List.filter_cons_of_neg (by simp [Node.isExtends]), extendsTags]

/-- The tags of the first node come first. -/
theorem extendsTags_cons (n : Node) (rest : List Node) :
    extendsTags (n :: rest) = extendsTags [n] ++ extendsTags rest := by
  rw [extendsTags, Node.everywhere_cons, List.filter_append]
  rfl

/-- A tag that extends a template is the only one in it. -/
theorem extendsTags_extends {args : List TagArg} {span : Span} :
    extendsTags [.tag "extends" args [] [] span] = [.tag "extends" args [] [] span] := by
  simp [extendsTags, everywhere, everywhereInBranches, Node.isExtends]

/-- In another tag they are those inside. -/
theorem extendsTags_tag_eq_nil_iff {name : String} {args : List TagArg} {body : List Node}
    {branches : List Branch} {span : Span} (hname : name ≠ "extends") :
    extendsTags [.tag name args body branches span] = [] ↔
      (firstExtends? body).or (firstExtendsInBranches? branches) = none := by
  rw [extendsTags_eq_nil_iff, firstExtends?, if_neg hname]
  cases firstExtends? body <;> cases firstExtendsInBranches? branches <;> simp [firstExtends?]

/-- White space may stand in front of the tag. -/
theorem frontTag?_of_blank (h : n.isBlank = true) : frontTag? (n :: rest) = frontTag? rest := by
  rw [frontTag?, List.find?_cons_of_neg (by simp [h]), frontTag?]

/-- Nothing else may. -/
theorem frontTag?_of_not_blank (h : n.isBlank = false) :
    frontTag? (n :: rest) = (some n).filter Node.isExtends := by
  rw [frontTag?, List.find?_cons_of_pos (by simp [h])]

namespace Template

variable {t : Template} {found : Option (String × Nat)} {content : Bool}

/-- Behind anything but white space no tag may extend a template. -/
theorem extendsTag?_behind (hplain : Throughout (Node.ExtendsPlainly registry) ns)
    (hlate : (content || found.isSome) = true) :
    (extendsTags ns = [] ∧ t.extendsTag? found content ns = .ok found) ∨
      (extendsTags ns ≠ [] ∧ Rejects (t.extendsTag? found content ns)) := by
  induction ns generalizing content with
  | nil => exact .inl ⟨by simp [extendsTags, everywhere], rfl⟩
  | cons n rest ih =>
    obtain ⟨hn, hrest⟩ := Node.throughout_cons.mp hplain
    cases n with
    | literal text span =>
      rw [extendsTags_literal, extendsTag?]
      exact ih hrest (by rw [Bool.or_right_comm, hlate, Bool.true_or])
    | output subject filters span =>
      rw [extendsTags_output, extendsTag?]
      exact ih hrest (Bool.true_or _)
    | tag name args body branches span =>
      rw [extendsTags_cons, extendsTag?]
      by_cases hname : name = "extends"
      · obtain ⟨-, -, rfl, rfl⟩ := hn.apply List.mem_cons_self hname
        subst hname
        rw [extendsTags_extends]
        exact .inr ⟨by simp, by simpa [hlate] using rejects_failAt rfl⟩
      · have hinside : extendsTags [.tag name args body branches span] = [] ↔ _ :=
          extendsTags_tag_eq_nil_iff hname
        cases hnested : (firstExtends? body).or (firstExtendsInBranches? branches) with
        | none =>
          rw [hinside.mpr hnested]
          have hrest := @ih true hrest (Bool.true_or _)
          simpa [hname, hnested] using hrest
        | some line =>
          refine .inr ⟨fun hnone => ?_, by simpa [hname, hnested] using rejects_failAt rfl⟩
          rw [hinside.mp (List.append_eq_nil_iff.mp hnone).1] at hnested
          cases hnested

/-- A template that is extended is found by the tag in front, if there is no other such tag; with
another one, the template is rejected. -/
theorem base?_cases (hplain : Throughout (Node.ExtendsPlainly registry) t.nodes) :
    (extendsTags t.nodes = (frontTag? t.nodes).toList ∧
        ∃ base?, t.base? = .ok base? ∧ base?.map Prod.fst = t.extended?) ∨
      (extendsTags t.nodes ≠ (frontTag? t.nodes).toList ∧ Rejects t.base?) := by
  rw [base?, extended?]
  generalize t.nodes = ns at hplain
  induction ns with
  | nil => exact .inl ⟨by simp [extendsTags, everywhere, frontTag?], none, rfl, rfl⟩
  | cons n rest ih =>
    obtain ⟨hn, hrest⟩ := Node.throughout_cons.mp hplain
    have hbehind {content : Bool} {found : Option (String × Nat)}
        (hlate : (content || found.isSome) = true) :
        (extendsTags rest = [] ∧ t.extendsTag? found content rest = .ok found) ∨
          (extendsTags rest ≠ [] ∧ Rejects (t.extendsTag? found content rest)) :=
      extendsTag?_behind hrest hlate
    cases n with
    | literal text span =>
      rw [extendsTags_literal, extendsTag?, Bool.false_or]
      cases hblank : (Node.literal text span).isBlank with
      | true =>
        rw [frontTag?_of_blank hblank]
        exact ih hrest
      | false =>
        rw [frontTag?_of_not_blank hblank]
        exact (hbehind rfl).imp_left fun h => ⟨h.1, none, h.2, rfl⟩
    | output subject filters span =>
      rw [extendsTags_output, extendsTag?, frontTag?_of_not_blank rfl]
      exact (hbehind rfl).imp_left fun h => ⟨h.1, none, h.2, rfl⟩
    | tag name args body branches span =>
      rw [extendsTags_cons, extendsTag?, frontTag?_of_not_blank rfl]
      by_cases hname : name = "extends"
      · subst hname
        obtain ⟨-, ⟨base, rfl⟩, rfl, rfl⟩ := hn.apply List.mem_cons_self rfl
        rw [extendsTags_extends]
        have hfound := @hbehind false (some (base, span.start.line)) rfl
        refine hfound.imp ?_ ?_
        · rintro ⟨hnone, hok⟩
          exact ⟨by rw [hnone]; rfl, _, hok, rfl⟩
        · rintro ⟨hsome, hrejects⟩
          exact ⟨fun heq => hsome (List.cons.inj heq).2, hrejects⟩
      · have hinside : extendsTags [.tag name args body branches span] = [] ↔ _ :=
          extendsTags_tag_eq_nil_iff hname
        have hfront :
            (some (Node.tag name args body branches span)).filter Node.isExtends = none := by
          simp [Option.filter, Node.isExtends, hname]
        rw [hfront]
        cases hnested : (firstExtends? body).or (firstExtendsInBranches? branches) with
        | none =>
          rw [hinside.mpr hnested]
          simp only [if_neg hname]
          exact (hbehind rfl).imp_left fun h => ⟨h.1, none, h.2, rfl⟩
        | some line =>
          refine .inr ⟨fun hnone => ?_, by simpa [hname] using rejects_failAt rfl⟩
          rw [hinside.mp (List.append_eq_nil_iff.mp hnone).1] at hnested
          cases hnested

/-- The template that is extended is found if no tag but one in front extends a template. -/
theorem base?_of_front (hplain : Throughout (Node.ExtendsPlainly registry) t.nodes)
    (hfront : extendsTags t.nodes = (frontTag? t.nodes).toList) :
    ∃ base?, t.base? = .ok base? ∧ base?.map Prod.fst = t.extended? :=
  ((base?_cases hplain).resolve_right fun h => h.1 hfront).2

end Template

end

/-! ## The way -/

namespace TemplateSet

variable {s : TemplateSet} {t current : Template} {earlier way chain : List Template}

/-- The templates on the way are those of the set. -/
theorem IsWay.mem (h : s.IsWay t way) (ht : t ∈ s.templates) : ∀ u ∈ way, u ∈ s.templates := by
  induction h with
  | base _ => simpa using ht
  | derived _ hget _ ih => exact List.forall_mem_cons.mpr ⟨ht, ih (mem_of_get? hget).1⟩

/-- There is one way at most. -/
theorem IsWay.unique {way' : List Template} (h : s.IsWay t way) (h' : s.IsWay t way') :
    way = way' := by
  induction h generalizing way' with
  | base h =>
    cases h' with
    | base _ => rfl
    | derived h' _ _ => simp [h] at h'
  | derived h hget _ ih =>
    cases h' with
    | base h' => simp [h] at h'
    | derived h' hget' hway' =>
      obtain rfl := Option.some.inj (h.symm.trans h')
      obtain rfl := Option.some.inj (hget.symm.trans hget')
      rw [ih hway']

/-- The way begins with the template that it leads from. -/
theorem IsWay.head (h : s.IsWay t way) : t ∈ way := by
  cases h <;> exact List.mem_cons_self

variable {registry : Registry}

/-- A template that is extended by one of a complete set is in the set. -/
theorem Closed.exists_extended (hclosed : s.Closed registry) (ht : t ∈ s.templates)
    (hplain : Throughout (Node.ExtendsPlainly registry) t.nodes) {base : String}
    (hbase : t.extended? = some base) : ∃ next, s.get? base = some next := by
  obtain ⟨n, hfront, hn⟩ := Option.bind_eq_some_iff.mp hbase
  have hmem : n ∈ t.nodes := List.mem_of_find?_eq_some (Option.filter_eq_some_iff.mp hfront).1
  cases n with
  | literal text span => cases hn
  | output subject filters span => cases hn
  | tag name args body branches span =>
    obtain ⟨hname, hn⟩ : name = "extends" ∧ args.head?.bind TagArg.asText? = some base := by
      simpa [Node.extended?] using hn
    obtain ⟨htag, ⟨base', rfl⟩, -⟩ := hplain.apply hmem hname
    obtain rfl := Option.some.inj hn
    obtain ⟨u, hu, huname⟩ := (hclosed t ht).apply hmem base'
      ⟨_, hname ▸ htag, List.mem_singleton_self _⟩
    cases hget : s.get? base' with
    | some next => exact ⟨next, rfl⟩
    | none => exact absurd huname (name_ne_of_get?_eq_none hget u hu)

section

variable (hplain : ∀ u ∈ s.templates, Throughout (Node.ExtendsPlainly registry) u.nodes)

include hplain

/-- Where following the templates comes to an end, there is a way. -/
theorem exists_isWay_of_chainFrom {bound : Nat} (hcurrent : current ∈ s.templates)
    (h : s.chainFrom bound current earlier = .ok chain) :
    ∃ way, s.IsWay current way ∧ chain = earlier.reverse ++ way ∧
      ∀ u ∈ way, extendsTags u.nodes = (frontTag? u.nodes).toList := by
  induction bound generalizing current earlier with
  | zero => cases h
  | succ bound ih =>
    rw [chainFrom] at h
    rcases Template.base?_cases (hplain current hcurrent) with
      ⟨hfront, base?, hbase, hextended⟩ | ⟨-, e, he, -⟩
    · rw [hbase] at h
      rcases base? with _ | ⟨base, line⟩
      · obtain rfl := Except.ok.inj h
        exact ⟨[current], .base hextended.symm, List.reverse_cons, by simpa using hfront⟩
      · simp only [Template.failAt] at h
        split at h
        · cases h
        · cases hget : s.get? base with
          | none => simp [hget] at h
          | some next =>
            rw [hget] at h
            obtain ⟨way, hway, rfl, hfronts⟩ := ih (mem_of_get? hget).1 h
            exact ⟨current :: way, .derived hextended.symm hget hway, by simp,
              List.forall_mem_cons.mpr ⟨hfront, hfronts⟩⟩
    · rw [he] at h
      cases h

/-- Where there is a way, following the templates finds it. -/
theorem chainFrom_of_isWay {bound : Nat} (hcurrent : current ∈ s.templates)
    (hway : s.IsWay current way)
    (hfront : ∀ u ∈ way, extendsTags u.nodes = (frontTag? u.nodes).toList)
    (honce : ((earlier.reverse ++ way).map Template.name).Nodup) (hbound : way.length ≤ bound) :
    s.chainFrom bound current earlier = .ok (earlier.reverse ++ way) := by
  induction hway generalizing bound earlier with
  | @base current hnone =>
    cases bound with
    | zero => simp at hbound
    | succ bound =>
      obtain ⟨base?, hbase, hextended⟩ :=
        Template.base?_of_front (hplain current hcurrent) (hfront current List.mem_cons_self)
      rw [hnone, Option.map_eq_none_iff] at hextended
      rw [chainFrom, hbase, hextended]
      simp
  | @derived current next base way hsome hget hway ih =>
    cases bound with
    | zero => simp at hbound
    | succ bound =>
      obtain ⟨base?, hbase, hextended⟩ :=
        Template.base?_of_front (hplain current hcurrent) (hfront current List.mem_cons_self)
      rw [hsome, Option.map_eq_some_iff] at hextended
      obtain ⟨⟨base', line⟩, rfl, hsame⟩ := hextended
      obtain rfl : base' = base := hsame
      obtain ⟨hnext, hname⟩ := mem_of_get? hget
      have hsplit : (current :: earlier).reverse ++ way = earlier.reverse ++ current :: way := by
        simp
      -- the next template comes later on the way, so its name was not met yet
      have hnew : ((current :: earlier).reverse.any fun t => t.name == base') = false := by
        rw [← hsplit, List.map_append] at honce
        refine List.any_eq_false.mpr fun u hu heq => ?_
        exact (List.disjoint_of_nodup_append honce) (List.mem_map_of_mem hu)
          (List.mem_map.mpr ⟨next, hway.head, hname.trans (beq_iff_eq.mp heq).symm⟩)
      rw [chainFrom, hbase]
      simp only [hnew, hget, Bool.false_eq_true, if_false]
      rw [← hsplit] at honce ⊢
      exact ih hnext (fun u hu => hfront u (List.mem_cons_of_mem _ hu)) honce
        (Nat.le_of_succ_le_succ hbound)

/-- Where following the templates fails, they are rejected. -/
theorem rejects_of_chainFrom (hclosed : s.Closed registry) {bound : Nat} {e : Error}
    (hcurrent : current ∈ s.templates) (h : s.chainFrom bound current earlier = .error e) :
    e.kind = .compileError := by
  induction bound generalizing current earlier with
  | zero =>
    obtain rfl := Except.error.inj h
    rfl
  | succ bound ih =>
    rw [chainFrom] at h
    rcases Template.base?_cases (hplain current hcurrent) with
      ⟨-, base?, hbase, hextended⟩ | ⟨-, e', he, hkind⟩
    · rw [hbase] at h
      rcases base? with _ | ⟨base, line⟩
      · cases h
      · obtain ⟨next, hget⟩ := hclosed.exists_extended hcurrent (hplain current hcurrent)
          hextended.symm
        simp only [hget] at h
        split at h
        · obtain rfl := Except.error.inj h
          exact Error.kind_locate _ _ _
        · exact ih (mem_of_get? hget).1 h
    · rw [he] at h
      exact Except.error.inj h ▸ hkind

/-- Where there is a passable way, inheritance is applied along it. -/
theorem resolve_of_isPassable (ht : t ∈ s.templates) (h : s.IsPassable t way) :
    s.resolve t = .ok ⟨chainBody way, way.map fun u => (u.name, u.definedBlocks)⟩ := by
  have hlength : way.length ≤ s.size + 1 := by
    have hle := (List.subperm_of_subset h.once.of_map (h.isWay.mem ht)).length_le
    simp only [templates, List.length_cons] at hle
    simp only [size]
    omega
  have hchain : s.chain t = .ok way := chainFrom_of_isWay hplain ht h.isWay
    (fun u hu => (h.accepted u hu).front) (by simpa using h.once) hlength
  have hlevels : way.mapM (fun t => do return (t.name, ← t.blocks)) =
      Except.ok (way.map fun u => (u.name, u.definedBlocks)) :=
    Result.mapM_eq_map fun u hu => by
      rw [(u.blocks_cases.resolve_right fun hfalse => hfalse.1 (h.accepted u hu).blocks).2]
      rfl
  exact Result.bind_eq_ok.mpr ⟨way, hchain, Result.bind_eq_ok.mpr ⟨_, hlevels, rfl⟩⟩

/-- Where inheritance is applied, there is a passable way. -/
theorem exists_isPassable_of_resolve (ht : t ∈ s.templates) {r : Resolved}
    (h : s.resolve t = .ok r) : ∃ way, s.IsPassable t way := by
  obtain ⟨chain, hchain, h⟩ := Result.bind_eq_ok.mp h
  obtain ⟨levels, hlevels, -⟩ := Result.bind_eq_ok.mp h
  obtain ⟨way, hway, rfl, hfront⟩ := exists_isWay_of_chainFrom hplain ht hchain
  refine ⟨_, hway, nodup_of_chainFrom hchain (List.nodup_singleton _),
    fun u hu => ⟨hfront u hu, ?_⟩⟩
  obtain ⟨row, hrow⟩ := Result.exists_ok_of_mem hlevels hu
  obtain ⟨defs, hdefs, -⟩ := Result.bind_eq_ok.mp hrow
  rcases u.blocks_cases with ⟨hnodup, -⟩ | ⟨-, e, he, -⟩
  · exact hnodup
  · simp [he] at hdefs

/-- Where inheritance is refused, the templates are rejected. -/
theorem rejects_of_resolve (hclosed : s.Closed registry) (ht : t ∈ s.templates) :
    (s.resolve t).FailsWith fun e => e.kind = .compileError := by
  refine .bind (fun e he => rejects_of_chainFrom hplain hclosed ht he) fun chain _ => ?_
  refine .bind (.mapM fun u _ => .bind (fun e he => ?_) fun _ _ => .ok _) fun _ _ => .ok _
  rcases u.blocks_cases with ⟨-, hok⟩ | ⟨-, e', he', hkind⟩
  · simp [hok] at he
  · exact Except.error.inj (he'.symm.trans he) ▸ hkind

end

/-- Along a passable way, a block has the definitions that the templates give it, one after the
other. -/
theorem IsPassable.layers (h : s.IsPassable t way) (body : List (String × Node)) (block : String) :
    Resolved.layers ⟨body, way.map fun u => (u.name, u.definedBlocks)⟩ block =
      way.flatMap fun u => (u.definedBlocks.filter fun d => d.name == block).map fun d =>
        ⟨u.name, d.body⟩ := by
  have haccepted := h.accepted
  clear h
  induction way with
  | nil => rfl
  | cons u rest ih =>
    obtain ⟨hu, hrest⟩ := List.forall_mem_cons.mp haccepted
    rw [List.flatMap_cons, ← ih hrest, ← find?_eq_head_of_nodup hu.blocks]
    simp only [Resolved.layers, List.map_cons, List.filterMap_cons]
    cases u.definedBlocks.find? fun d => d.name == block <;> rfl

/-- Inheritance over built-in tags is applied exactly along passable ways, and everything else is
rejected. -/
theorem resolve_exact {registry : Registry} {controls : Controls} {provider : SourceProvider}
    {name source : String} (hbuiltin : registry.OnlyBuiltinTags)
    (hload : load registry controls provider name source = .ok s) {start : String}
    (hstart : s.get? start = some t) :
    (∀ way, s.IsPassable t way → ∃ r, s.resolve t = .ok r ∧ ∀ block, r.layers block =
        way.flatMap fun u => (u.definedBlocks.filter fun d => d.name == block).map fun d =>
          ⟨u.name, d.body⟩) ∧
      ((∀ way, ¬ s.IsPassable t way) →
        ∃ e, s.resolve t = .error e ∧ e.kind = .compileError ∧ e.fault ≠ .nestedTooDeep) := by
  have hplain := throughout_of_load (Parser.reads_extendsPlainly hbuiltin).template_gives hload
  have ht := (mem_of_get? hstart).1
  constructor
  · intro way hway
    exact ⟨_, resolve_of_isPassable hplain ht hway, hway.layers _⟩
  · intro hnone
    cases hresolve : s.resolve t with
    | ok r =>
      obtain ⟨way, hway⟩ := exists_isPassable_of_resolve hplain ht hresolve
      exact absurd hway (hnone way)
    | error e =>
      exact ⟨e, rfl, rejects_of_resolve hplain (closed_of_load hload) ht e hresolve,
        fun hfault => not_isFault_resolve ht ⟨e, hresolve, hfault⟩⟩

/-- The templates of the example below, besides the pages: two above one page, and one that extends
the other page. -/
def volumes : SourceProvider := fun name =>
  .ok <|
    if name = "mid" then
      some "\x7b% extends 'base' %\x7d\x7b% block c %\x7d\x7b% parent %\x7d\x7b% endblock %\x7d"
    else if name = "base" then
      some ("\x7b% if x %\x7d1\x7b% else %\x7d" ++
        "\x7b% block c %\x7d2\x7b% endblock %\x7d\x7b% endif %\x7d")
    else if name = "round" then some "\x7b% extends 'circle' %\x7d"
    else none

/-- A page with white space before the tag in front, and a block inside of another tag. -/
def volumesPage : String :=
  "\n\x7b% extends 'mid' %\x7d" ++
    "\x7b% if y %\x7d\x7b% block c %\x7d3\x7b% endblock %\x7d\x7b% endif %\x7d"

set_option maxRecDepth 100000 in
/-- Over the initial registry the page gets the definitions of three templates, and two templates
that extend each other are rejected. -/
theorem resolve_exact_volumes :
    (∃ s t way r, load .initial {} volumes "page" volumesPage = .ok s ∧ s.get? "page" = some t ∧
      s.IsPassable t way ∧ s.resolve t = .ok r ∧
      (r.layers "c").map BlockLayer.template = ["page", "mid", "base"] ∧
      ∀ block, r.layers block =
        way.flatMap fun u => (u.definedBlocks.filter fun d => d.name == block).map fun d =>
          ⟨u.name, d.body⟩) ∧
    ∃ s t e, load .initial {} volumes "circle" "\x7b% extends 'round' %\x7d" = .ok s ∧
      s.get? "round" = some t ∧ (∀ way, ¬ s.IsPassable t way) ∧ s.resolve t = .error e ∧
        e.kind = .compileError ∧ e.fault ≠ .nestedTooDeep := by
  constructor
  · have hlayers : (do
        let s ← (load .initial {} volumes "page" volumesPage).toOption
        let t ← s.get? "page"
        let r ← (s.resolve t).toOption
        return (r.layers "c").map BlockLayer.template) = some ["page", "mid", "base"] := by
      decide +kernel
    obtain ⟨s, hload, hlayers⟩ := Option.bind_eq_some_iff.mp hlayers
    obtain ⟨t, hstart, hlayers⟩ := Option.bind_eq_some_iff.mp hlayers
    obtain ⟨r, hr, hlayers⟩ := Option.bind_eq_some_iff.mp hlayers
    replace hload := Result.eq_ok_of_toOption hload
    replace hr := Result.eq_ok_of_toOption hr
    obtain ⟨way, hway⟩ := exists_isPassable_of_resolve (throughout_of_load
      (Parser.reads_extendsPlainly Registry.onlyBuiltinTags_initial).template_gives hload)
      (mem_of_get? hstart).1 hr
    obtain ⟨r', hr', hall⟩ :=
      (resolve_exact Registry.onlyBuiltinTags_initial hload hstart).1 way hway
    obtain rfl := Except.ok.inj (hr.symm.trans hr')
    exact ⟨s, t, way, r, hload, hstart, hway, hr, Option.some.inj hlayers, hall⟩
  · have hfails : (do
        let s ← (load .initial {} volumes "circle" "\x7b% extends 'round' %\x7d").toOption
        let t ← s.get? "round"
        return (s.resolve t).isOk) = some false := by
      decide +kernel
    obtain ⟨s, hload, hfails⟩ := Option.bind_eq_some_iff.mp hfails
    obtain ⟨t, hstart, hfails⟩ := Option.bind_eq_some_iff.mp hfails
    replace hload := Result.eq_ok_of_toOption hload
    obtain ⟨hok, herror⟩ := resolve_exact Registry.onlyBuiltinTags_initial hload hstart
    have hnone : ∀ way, ¬ s.IsPassable t way := fun way hway => by
      obtain ⟨r, hr, -⟩ := hok way hway
      simp [hr, Except.isOk, Except.toBool] at hfails
    obtain ⟨e, he, hkind, hfault⟩ := herror hnone
    exact ⟨s, t, e, hload, hstart, hnone, he, hkind, hfault⟩

end TemplateSet

end Templating
