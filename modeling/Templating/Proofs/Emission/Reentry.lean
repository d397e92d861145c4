import Templating.Proofs.Emission.Splicing

/-!
# Re-entered blocks

Emission of spliced blocks ends if no definition of a block is entered while it is being emitted,
and never ends otherwise. A guard makes that visible: it refuses to enter a definition again. Where
the guard is silent it changes nothing, and a number of levels that follows from the definitions is
enough. Where emission ends at all, each definition needs more levels than those that it enters, so
that none is entered again and the guard is silent.
-/

namespace Templating

namespace Resolved

/-- The definitions of blocks, each by the name of the block and its number among the definitions of
that name, in levels of inheritance. -/
def placementsIn : List (String × List BlockDef) → List (String × Nat)
  | [] => []
  | level :: rest =>
    level.2.map (fun d => (d.name, 0)) ++ (placementsIn rest).map fun (block, index) =>
      if level.2.any fun d => d.name == block then (block, index + 1) else (block, index)

/-- The definitions of blocks, each by the name of the block and its number among the definitions of
that name. -/
def placements (r : Resolved) : List (String × Nat) := placementsIn r.levels

/-- There are as many places as definitions. -/
theorem length_placementsIn (levels : List (String × List BlockDef)) :
    (placementsIn levels).length = (levels.flatMap Prod.snd).length := by
  induction levels with
  | nil => rfl
  | cons level rest ih => simp [placementsIn, ih]

/-- Every definition of a block has its place. -/
theorem mem_placements {r : Resolved} {block : String × Nat} {layer : BlockLayer}
    (h : (r.layers block.1)[block.2]? = some layer) : block ∈ r.placements := by
  obtain ⟨name, index⟩ := block
  obtain ⟨body, levels⟩ := r
  simp only [layers, placements] at h ⊢
  induction levels generalizing index with
  | nil => simp at h
  | cons level rest ih =>
    rw [placementsIn, List.mem_append]
    rw [List.filterMap_cons] at h
    cases hfind : level.2.find? fun d => d.name == name with
    | none =>
      have hany : (level.2.any fun d => d.name == name) = false := by
        simpa using List.find?_eq_none.mp hfind
      simp only [hfind, Option.map_none] at h
      exact .inr (List.mem_map.mpr ⟨(name, index), ih index h, by simp [hany]⟩)
    | some d =>
      have hname : d.name = name := by simpa using List.find?_some hfind
      have hany : (level.2.any fun d => d.name == name) = true :=
        List.any_eq_true.mpr ⟨d, List.mem_of_find?_eq_some hfind, beq_iff_eq.mpr hname⟩
      simp only [hfind, Option.map_some] at h
      cases index with
      | zero => exact .inl (List.mem_map.mpr ⟨d, List.mem_of_find?_eq_some hfind, by rw [hname]⟩)
      | succ index =>
        rw [List.getElem?_cons_succ] at h
        exact .inr (List.mem_map.mpr ⟨(name, index), ih index h, by simp [hany]⟩)

end Resolved

namespace Emission

/-- Emits nodes while references nest at most so many levels deep and only within blocks that are
admitted. All else is refused. -/
def admitting (admits : List (String × Nat) → Bool) (refusal : Fault) : Nat → Elsewhere
  | 0 => fun _ _ => fail refusal
  | depth + 1 => fun env ns =>
    if admits env.blocks then nodes (admitting admits refusal depth) env ns else fail refusal

/-- Emits nodes while references nest at most so many levels deep, and refuses to enter a definition
of a block that is being emitted. -/
def guardedAt (refusal : Fault) : Nat → Elsewhere :=
  admitting (fun blocks => decide blocks.Nodup) refusal

/-- Without a guard the number of levels is all that is refused. -/
theorem atDepth_eq_admitting (depth : Nat) :
    atDepth depth = admitting (fun _ => true) .nestedTooDeep depth := by
  induction depth with
  | zero => rfl
  | succ depth ih =>
    funext env ns
    rw [atDepth, ih]
    rfl

section Levels

variable {env : Surroundings} {blocks : List (String × Nat)} {ns : List Node}

/-- The body of a definition of a block neither includes nor imports templates. -/
theorem Surroundings.StaysInChain.body (henv : env.StaysInChain) {block : String × Nat}
    {layer : BlockLayer} (hlayer : (env.resolved.layers block.1)[block.2]? = some layer) :
    StayInChain env.registry layer.body :=
  henv block.1 layer (List.mem_of_getElem? hlayer)

/-- More levels and a guard that admits more change only what was refused. -/
theorem admitting_follows (henv : env.StaysInChain) {admits admits' : List (String × Nat) → Bool}
    (hadmits : ∀ blocks, admits blocks → admits' blocks) {refusal refusal' : Fault}
    {depth depth' : Nat} (hdepth : depth ≤ depth') (hns : StayInChain env.registry ns) :
    Follows refusal True (admitting admits refusal depth { env with blocks } ns)
      (admitting admits' refusal' depth' { env with blocks } ns) := by
  induction depth generalizing depth' blocks ns with
  | zero => exact .refused _
  | succ depth ih =>
    cases depth' with
    | zero => exact absurd hdepth (Nat.not_succ_le_zero depth)
    | succ depth' =>
      simp only [admitting]
      by_cases h : admits blocks
      · rw [if_pos h, if_pos (hadmits blocks h)]
        refine nodes_follows (fun h => absurd trivial h) rfl (fun block layer hlayer => ?_) hns
        exact ih (Nat.le_of_succ_le_succ hdepth) (henv.body hlayer)
      · rw [if_neg h]
        exact .refused _

/-- How emission goes on depends on the innermost block only, whatever the state. -/
theorem atDepth_follows_of_head (henv : env.StaysInChain) {blocks' : List (String × Nat)}
    (hhead : blocks'.head? = blocks.head?) (depth : Nat) (hns : StayInChain env.registry ns) :
    Follows .nestedTooDeep False (atDepth depth { env with blocks } ns)
      (atDepth depth { env with blocks := blocks' } ns) := by
  induction depth generalizing blocks blocks' ns with
  | zero => exact .refused _
  | succ depth ih =>
    refine nodes_follows (fun _ => rfl) hhead (fun block layer hlayer => ?_) hns
    exact ih rfl (henv.body hlayer)

/-- So many levels are not enough to emit a definition of a block, whatever the state and the blocks
around it. -/
def Lacks (env : Surroundings) (depth : Nat) (block : String × Nat) : Prop :=
  ∀ layer, (env.resolved.layers block.1)[block.2]? = some layer → ∀ blocks s,
    Result.IsFault (atDepth depth { env with blocks := block :: blocks } layer.body s)
      .nestedTooDeep

/-- More levels change only what needed more. -/
theorem atDepth_follows_succ (henv : env.StaysInChain) (depth : Nat)
    (hns : StayInChain env.registry ns) :
    Follows .nestedTooDeep True (atDepth depth { env with blocks } ns)
      (atDepth (depth + 1) { env with blocks } ns) := by
  rw [atDepth_eq_admitting, atDepth_eq_admitting]
  exact admitting_follows henv (fun _ => id) (Nat.le_succ depth) hns

/-- What is not enough is not enough with one level less. -/
theorem Lacks.pred (henv : env.StaysInChain) {depth : Nat} {block : String × Nat}
    (h : Lacks env (depth + 1) block) : Lacks env depth block := by
  intro layer hlayer blocks s
  have hfault := h layer hlayer blocks s
  exact (atDepth_follows_succ henv depth (henv.body hlayer)).isFault (fun _ => rfl) hfault

/-- A number of levels that is enough once is always enough. -/
theorem not_isFault_of_not_lacks (henv : env.StaysInChain) {depth : Nat} {block : String × Nat}
    (h : ¬ Lacks env depth block) {layer : BlockLayer}
    (hlayer : (env.resolved.layers block.1)[block.2]? = some layer) (blocks : List (String × Nat))
    (s : EmissionState) :
    ¬ Result.IsFault (atDepth depth { env with blocks := block :: blocks } layer.body s)
      .nestedTooDeep := by
  intro hfault
  refine h fun layer' hlayer' blocks' t => ?_
  obtain rfl := Option.some.inj (hlayer'.symm.trans hlayer)
  have hhead : (block :: blocks).head? = (block :: blocks').head? := rfl
  exact (atDepth_follows_of_head henv hhead depth (henv.body hlayer)).isFault nofun hfault

/-- Within different blocks the guard lets emission go on. -/
theorem guardedAt_succ (hnodup : blocks.Nodup) (refusal : Fault) (depth : Nat) :
    guardedAt refusal (depth + 1) { env with blocks } ns =
      nodes (guardedAt refusal depth) { env with blocks } ns := if_pos (decide_eq_true hnodup)

/-- Within a block that was entered twice all is refused. -/
theorem guardedAt_eq_fail (hblocks : ¬ blocks.Nodup) (refusal : Fault) (depth : Nat) :
    guardedAt refusal depth { env with blocks } ns = fail refusal := by
  cases depth with
  | zero => rfl
  | succ depth => exact if_neg fun h => hblocks (of_decide_eq_true h)

/-- Where so many levels are enough, the guard is silent. Each definition that is being emitted
needs more levels than are left, and what is entered next does not. -/
theorem atDepth_follows_guardedAt (henv : env.StaysInChain) {depth bound : Nat}
    (hbound : depth ≤ bound) (hnodup : blocks.Nodup)
    (hlacks : ∀ block ∈ blocks, Lacks env depth block) :
    Elsewhere.FollowsInto .nestedTooDeep True (atDepth depth) (guardedAt .nestedTooDeep bound) env
      blocks blocks := by
  induction depth generalizing bound blocks with
  | zero => exact fun _ _ _ => .refused _
  | succ depth ih =>
    intro block layer hlayer s t hst
    have hpred : ∀ block ∈ blocks, Lacks env depth block := fun b hb => (hlacks b hb).pred henv
    by_cases hmore : Lacks env (depth + 1) block
    · exact .inl (hmore layer hlayer blocks s)
    · by_cases hless : Lacks env depth block
      · have hfresh : block ∉ blocks := fun hmem => hmore (hlacks block hmem)
        have hinner : (block :: blocks).Nodup := List.nodup_cons.mpr ⟨hfresh, hnodup⟩
        have hall : ∀ b ∈ block :: blocks, Lacks env depth b :=
          List.forall_mem_cons.mpr ⟨hless, hpred⟩
        cases bound with
        | zero => exact absurd hbound (Nat.not_succ_le_zero depth)
        | succ bound =>
          have hlevel := ih (Nat.le_of_succ_le_succ hbound) hinner hall
          rw [guardedAt_succ hinner]
          exact nodes_follows (fun h => absurd trivial h) rfl hlevel (henv.body hlayer) hst
      · have hdone := not_isFault_of_not_lacks henv hless hlayer blocks s
        have hsame := (atDepth_follows_succ henv depth (henv.body hlayer)).eq hdone
        rw [← hsame]
        exact ih (Nat.le_of_succ_le hbound) hnodup hpred hlayer hst

/-- Outside of all blocks, too, the guard is silent where so many levels are enough. -/
theorem atDepth_follows_guardedAt_outside (henv : env.StaysInChain) {depth bound : Nat}
    (hbound : depth ≤ bound) (hns : StayInChain env.registry ns) :
    Follows .nestedTooDeep True (atDepth depth { env with blocks := [] } ns)
      (guardedAt .nestedTooDeep bound { env with blocks := [] } ns) := by
  cases depth with
  | zero => exact .refused _
  | succ depth =>
    cases bound with
    | zero => exact absurd hbound (Nat.not_succ_le_zero depth)
    | succ bound =>
      have hlevel := atDepth_follows_guardedAt henv (Nat.le_of_succ_le_succ hbound) List.nodup_nil
        (List.forall_mem_nil _)
      rw [guardedAt_succ List.nodup_nil]
      exact nodes_follows (fun h => absurd trivial h) rfl hlevel hns

/-- As many levels as there are definitions of blocks, and one more, are enough for the guard. -/
theorem guardedAt_follows_of_bound (henv : env.StaysInChain) {refusal : Fault} {depth more : Nat}
    (hblocks : ∀ block ∈ blocks, block ∈ env.resolved.placements)
    (hdepth : env.resolved.placements.length < blocks.length + depth)
    (hns : StayInChain env.registry ns) :
    Follows refusal True (guardedAt refusal (depth + more) { env with blocks } ns)
      (guardedAt refusal depth { env with blocks } ns) := by
  induction depth generalizing blocks ns with
  | zero =>
    have htwice : ¬ blocks.Nodup := fun hnodup =>
      absurd (hnodup.length_le_of_subset hblocks) (Nat.not_le_of_lt hdepth)
    rw [guardedAt_eq_fail htwice]
    exact .refused _
  | succ depth ih =>
    by_cases hnodup : blocks.Nodup
    · rw [Nat.add_right_comm, guardedAt_succ hnodup, guardedAt_succ hnodup]
      refine nodes_follows (fun h => absurd trivial h) rfl (fun block layer hlayer => ?_) hns
      refine ih (List.forall_mem_cons.mpr ⟨?_, hblocks⟩) ?_ (henv.body hlayer)
      · exact Resolved.mem_placements hlayer
      · rw [List.length_cons]
        omega
    · rw [guardedAt_eq_fail hnodup]
      exact .refused _

end Levels

end Emission

end Templating
