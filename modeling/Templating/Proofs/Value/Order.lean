import Templating.Proofs.Number.Rounding

/-!
# The order in which values are sorted

The order that sorting goes by is reflexive, and exchanging its sides reverses it. It is transitive
as long as no float is compared with two different integers that both become this float: integers
are compared exactly with each other, but as floats with floats. Containers are compared part by
part, so what holds of the numbers in them holds of them.
-/

namespace Templating

instance : Std.TransCmp compareText := inferInstanceAs (Std.TransCmp (compare : String → _))

/-- How the first of three things compares with the third goes by how they compare with the second,
wherever that decides it. -/
structure Composes (first second both : Ordering) : Prop where
  of_left : first = .eq → both = second
  of_right : second = .eq → both = first
  of_same : first = second → both = first

namespace Composes

variable {o₁ o₂ o₃ p₁ p₂ p₃ : Ordering}

/-- A transitive order composes. -/
theorem of_transCmp {α : Type} (cmp : α → α → Ordering) [Std.TransCmp cmp] (a b c : α) :
    Composes (cmp a b) (cmp b c) (cmp a c) where
  of_left := Std.TransCmp.congr_left
  of_right h := (Std.TransCmp.congr_right h).symm
  of_same h := by
    cases hab : cmp a b with
    | lt => exact Std.TransCmp.lt_trans hab (h ▸ hab)
    | eq => exact Std.TransCmp.eq_trans hab (h ▸ hab)
    | gt => exact Std.TransCmp.gt_trans hab (h ▸ hab)

/-- Two things that compare alike with a third one, and that are alike if they equal it. -/
theorem absorb (h : o₂ = .eq → o₁ = .eq) : Composes o₁ o₂ o₂ where
  of_left _ := rfl
  of_right h₂ := h₂.trans (h h₂).symm
  of_same := Eq.symm

/-- Comparing what follows decides only between things that compare alike. -/
theorem andThen (h : Composes o₁ o₂ o₃)
    (h' : o₁ = .eq → o₂ = .eq → Composes p₁ p₂ p₃) :
    Composes (o₁.then p₁) (o₂.then p₂) (o₃.then p₃) := by
  obtain ⟨hleft, hright, hsame⟩ := h
  cases o₁ <;> cases o₂
  case eq.eq =>
    obtain rfl := hleft rfl
    exact h' rfl rfl
  case eq.lt | eq.gt =>
    obtain rfl := hleft rfl
    constructor <;> simp +contextual
  case lt.eq | gt.eq =>
    obtain rfl := hright rfl
    constructor <;> simp
  case lt.lt | gt.gt =>
    obtain rfl := hsame rfl
    constructor <;> simp
  case lt.gt | gt.lt => constructor <;> simp

/-- Composition with the second and the third exchanged. -/
theorem exchange (h : Composes o₁ o₂ o₃) : Composes o₃ o₂.swap o₁ := by
  obtain ⟨hleft, hright, hsame⟩ := h
  cases o₁ <;> cases o₂ <;> constructor <;> simp_all

/-- Composition the other way around. -/
theorem reverse (h : Composes o₁ o₂ o₃) : Composes o₂.swap o₁.swap o₃.swap := by
  obtain ⟨hleft, hright, hsame⟩ := h
  cases o₁ <;> cases o₂ <;> constructor <;> simp_all

/-- What is not behind something that is not behind a third is not behind the third. -/
theorem ne_gt (h : Composes o₁ o₂ o₃) (h₁ : o₁ ≠ .gt) (h₂ : o₂ ≠ .gt) : o₃ ≠ .gt := by
  obtain ⟨hleft, hright, hsame⟩ := h
  cases o₁ <;> cases o₂ <;> simp_all

end Composes

namespace Value

/-- The floats of two integers are ordered as the integers are, or not at all. -/
theorem compareFloatTotal_floatOfWord (x y : Int64) :
    compareFloatTotal (floatOfWord x) (floatOfWord y) = compare x.toInt y.toInt ∨
      compareFloatTotal (floatOfWord x) (floatOfWord y) = .eq := by
  have hbound (z : Int64) : z.toInt.natAbs < 2 ^ 64 := by
    have hlow := z.le_toInt
    have hhigh := z.toInt_lt
    omega
  have hle {x y : Int64} (h : x.toInt ≤ y.toInt) :
      compareFloatTotal (floatOfWord x) (floatOfWord y) ≠ .gt := by
    rw [compareFloatTotal_eq_comparePlaces]
    exact Number.comparePlaces_floatOfInt h (hbound x) (hbound y)
  rcases Int.lt_trichotomy x.toInt y.toInt with h | h | h
  · have hne := hle (Int.le_of_lt h)
    rw [Int.compare_eq_lt.mpr h]
    revert hne
    cases compareFloatTotal (floatOfWord x) (floatOfWord y) <;> simp
  · rw [Int64.toInt_inj.mp h]
    exact .inr Std.ReflCmp.compare_self
  · have hne := hle (Int.le_of_lt h)
    rw [@Std.OrientedCmp.eq_swap _ compareFloatTotal] at hne
    rw [Int.compare_eq_gt.mpr h]
    revert hne
    cases compareFloatTotal (floatOfWord x) (floatOfWord y) <;> simp

/-- Values of different kinds are ordered by their kinds. -/
theorem totalCompare_of_rank_ne {a b : Value} (h : a.kind.rank ≠ b.kind.rank) :
    totalCompare a b = compare a.kind.rank b.kind.rank := by
  cases a <;> cases b <;> first
    | exact absurd rfl h
    | rfl

mutual

/-- A value compares as equal to itself. -/
theorem totalCompare_self : ∀ v : Value, totalCompare v v = .eq
  | undefined | null => rfl
  | bool b => by cases b <;> rfl
  | int n => by simp [totalCompare]
  | float x => @Std.ReflCmp.compare_self _ compareFloatTotal _ x
  | text s _ => @Std.ReflCmp.compare_self _ compareText _ s
  | seq items => totalCompareItems_self items
  | map entries => totalCompareEntries_self entries
  | callable i _ => by simp [totalCompare]

/-- Items compare as equal to themselves. -/
theorem totalCompareItems_self : ∀ vs : List Value, totalCompareItems vs vs = .eq
  | [] => rfl
  | v :: vs => by
    rw [totalCompareItems, totalCompare_self v, totalCompareItems_self vs]
    rfl

/-- Entries compare as equal to themselves. -/
theorem totalCompareEntries_self :
    ∀ entries : List (String × Value), totalCompareEntries entries entries = .eq
  | [] => rfl
  | (k, v) :: rest => by
    rw [totalCompareEntries, @Std.ReflCmp.compare_self _ compareText _ k, totalCompare_self v,
      totalCompareEntries_self rest]
    rfl

end

mutual

/-- Exchanging the sides reverses the order of values. -/
theorem totalCompare_swap (a b : Value) : totalCompare b a = (totalCompare a b).swap := by
  by_cases hrank : a.kind.rank = b.kind.rank
  · match a, b, hrank with
    | undefined, undefined, _ | null, null, _ => rfl
    | bool x, bool y, _ => exact @Std.OrientedCmp.eq_swap _ (compareOn Bool.toNat) _ y x
    | int x, int y, _ => exact @Std.OrientedCmp.eq_swap _ (compareOn Int64.toInt) _ y x
    | int x, float y, _ => exact @Std.OrientedCmp.eq_swap _ compareFloatTotal _ y (floatOfWord x)
    | float x, int y, _ => exact @Std.OrientedCmp.eq_swap _ compareFloatTotal _ (floatOfWord y) x
    | float x, float y, _ => exact @Std.OrientedCmp.eq_swap _ compareFloatTotal _ y x
    | text s _, text t _, _ => exact @Std.OrientedCmp.eq_swap _ compareText _ t s
    | seq xs, seq ys, _ => exact totalCompareItems_swap xs ys
    | map xs, map ys, _ => exact totalCompareEntries_swap xs ys
    | callable i _, callable j _, _ => exact @Std.OrientedCmp.eq_swap Nat compare _ j i
  · rw [totalCompare_of_rank_ne hrank, totalCompare_of_rank_ne (Ne.symm hrank)]
    exact Std.OrientedCmp.eq_swap

/-- Exchanging the sides reverses the order of items. -/
theorem totalCompareItems_swap (xs ys : List Value) :
    totalCompareItems ys xs = (totalCompareItems xs ys).swap := by
  match xs, ys with
  | [], [] | [], _ :: _ | _ :: _, [] => rfl
  | x :: xs, y :: ys =>
    rw [totalCompareItems, totalCompareItems, Ordering.swap_then, totalCompare_swap x y,
      totalCompareItems_swap xs ys]

/-- Exchanging the sides reverses the order of entries. -/
theorem totalCompareEntries_swap (xs ys : List (String × Value)) :
    totalCompareEntries ys xs = (totalCompareEntries xs ys).swap := by
  match xs, ys with
  | [], [] | [], _ :: _ | _ :: _, [] => rfl
  | (k, x) :: xs, (l, y) :: ys =>
    rw [totalCompareEntries, totalCompareEntries, Ordering.swap_then, Ordering.swap_then,
      totalCompare_swap x y, totalCompareEntries_swap xs ys,
      @Std.OrientedCmp.eq_swap _ compareText _ l k]

end

mutual

/-- The numbers in a value. -/
def numbers : Value → List Value
  | int n => [int n]
  | float x => [float x]
  | seq items => numbersOfItems items
  | map entries => numbersOfEntries entries
  | _ => []

/-- The numbers in items. -/
def numbersOfItems : List Value → List Value
  | [] => []
  | v :: rest => numbers v ++ numbersOfItems rest

/-- The numbers in the values of entries. -/
def numbersOfEntries : List (String × Value) → List Value
  | [] => []
  | (_, v) :: rest => numbers v ++ numbersOfEntries rest

end

/-- No float among the numbers compares as equal to two different integers among them. -/
def TellsApart (ns : List Value) : Prop :=
  ∀ x y z, int x ∈ ns → int y ∈ ns → float z ∈ ns → totalCompare (int x) (float z) = .eq →
    totalCompare (int y) (float z) = .eq → x = y

section Numbers

variable {ns : List Value} {x y : Int64} {z : Float}

/-- Integers are compared with a float as floats. They are ordered as themselves all the same if
the float does not equal two different ones. -/
theorem composes_int_int_float (h : TellsApart ns) (hx : int x ∈ ns) (hy : int y ∈ ns)
    (hz : float z ∈ ns) :
    Composes (totalCompare (int x) (int y)) (totalCompare (int y) (float z))
      (totalCompare (int x) (float z)) := by
  have hfloats : Composes (compareFloatTotal (floatOfWord x) (floatOfWord y))
      (totalCompare (int y) (float z)) (totalCompare (int x) (float z)) :=
    Composes.of_transCmp compareFloatTotal (floatOfWord x) (floatOfWord y) z
  rcases compareFloatTotal_floatOfWord x y with hints | hsame
  · rw [hints] at hfloats
    exact hfloats
  · have hboth := hfloats.of_left hsame
    rw [hboth]
    refine Composes.absorb fun hyz => ?_
    rw [h x y z hx hy hz (hboth.trans hyz) hyz]
    exact totalCompare_self _

/-- Two integers on both sides of a float. -/
theorem composes_int_float_int (h : TellsApart ns) (hx : int x ∈ ns) (hy : int y ∈ ns)
    (hz : float z ∈ ns) :
    Composes (totalCompare (int x) (float z)) (totalCompare (float z) (int y))
      (totalCompare (int x) (int y)) := by
  rw [totalCompare_swap (int y) (float z)]
  exact (composes_int_int_float h hx hy hz).exchange

/-- Two integers behind a float. -/
theorem composes_float_int_int (h : TellsApart ns) (hx : int x ∈ ns) (hy : int y ∈ ns)
    (hz : float z ∈ ns) :
    Composes (totalCompare (float z) (int x)) (totalCompare (int x) (int y))
      (totalCompare (float z) (int y)) := by
  rw [totalCompare_swap (int x) (float z), totalCompare_swap (int y) (int x),
    totalCompare_swap (int y) (float z)]
  exact (composes_int_int_float h hy hx hz).reverse

end Numbers

/-- Contents decide only between values of one kind. -/
theorem totalCompare_eq_then (a b : Value) :
    totalCompare a b = (compare a.kind.rank b.kind.rank).then (totalCompare a b) := by
  by_cases h : a.kind.rank = b.kind.rank
  · simp [h]
  · rw [totalCompare_of_rank_ne h]
    cases compare a.kind.rank b.kind.rank <;> rfl

mutual

/-- The order of values is transitive where their numbers are told apart. -/
theorem composes_totalCompare {ns : List Value} (h : TellsApart ns) (a b c : Value)
    (ha : numbers a ⊆ ns) (hb : numbers b ⊆ ns) (hc : numbers c ⊆ ns) :
    Composes (totalCompare a b) (totalCompare b c) (totalCompare a c) := by
  rw [totalCompare_eq_then a b, totalCompare_eq_then b c, totalCompare_eq_then a c]
  refine (Composes.of_transCmp (compareOn fun v : Value => v.kind.rank) a b c).andThen
    fun hab hbc => ?_
  match a, b, c, Nat.compare_eq_eq.mp hab, Nat.compare_eq_eq.mp hbc with
  | undefined, undefined, undefined, _, _ | null, null, null, _, _ => exact .absorb fun _ => rfl
  | bool x, bool y, bool z, _, _ => exact .of_transCmp (compareOn Bool.toNat) x y z
  | int x, int y, int z, _, _ => exact .of_transCmp (compareOn Int64.toInt) x y z
  | int x, int y, float z, _, _ =>
    exact composes_int_int_float h (ha (.head _)) (hb (.head _)) (hc (.head _))
  | int x, float z, int y, _, _ =>
    exact composes_int_float_int h (ha (.head _)) (hc (.head _)) (hb (.head _))
  | float z, int x, int y, _, _ =>
    exact composes_float_int_int h (hb (.head _)) (hc (.head _)) (ha (.head _))
  | int x, float y, float z, _, _ => exact .of_transCmp compareFloatTotal (floatOfWord x) y z
  | float x, int y, float z, _, _ => exact .of_transCmp compareFloatTotal x (floatOfWord y) z
  | float x, float y, int z, _, _ => exact .of_transCmp compareFloatTotal x y (floatOfWord z)
  | float x, float y, float z, _, _ => exact .of_transCmp compareFloatTotal x y z
  | text s _, text t _, text u _, _, _ => exact .of_transCmp compareText s t u
  | seq xs, seq ys, seq zs, _, _ => exact composes_totalCompareItems h xs ys zs ha hb hc
  | map xs, map ys, map zs, _, _ => exact composes_totalCompareEntries h xs ys zs ha hb hc
  | callable i _, callable j _, callable k _, _, _ => exact .of_transCmp compare i j k

/-- The order of items is transitive where the numbers in them are told apart. -/
theorem composes_totalCompareItems {ns : List Value} (h : TellsApart ns) (xs ys zs : List Value)
    (hxs : numbersOfItems xs ⊆ ns) (hys : numbersOfItems ys ⊆ ns) (hzs : numbersOfItems zs ⊆ ns) :
    Composes (totalCompareItems xs ys) (totalCompareItems ys zs) (totalCompareItems xs zs) := by
  match xs, ys, zs with
  | [], [], _ => exact .absorb fun _ => rfl
  | _ :: _, _ :: _, [] => exact .absorb nofun
  | [], _ :: _, [] | [], _ :: _, _ :: _ | _ :: _, [], [] | _ :: _, [], _ :: _ =>
    constructor <;> simp [totalCompareItems]
  | x :: xs, y :: ys, z :: zs =>
    obtain ⟨hx, hxs⟩ := List.append_subset.mp hxs
    obtain ⟨hy, hys⟩ := List.append_subset.mp hys
    obtain ⟨hz, hzs⟩ := List.append_subset.mp hzs
    exact (composes_totalCompare h x y z hx hy hz).andThen fun _ _ =>
      composes_totalCompareItems h xs ys zs hxs hys hzs

/-- The order of entries is transitive where the numbers in them are told apart. -/
theorem composes_totalCompareEntries {ns : List Value} (h : TellsApart ns)
    (xs ys zs : List (String × Value)) (hxs : numbersOfEntries xs ⊆ ns)
    (hys : numbersOfEntries ys ⊆ ns) (hzs : numbersOfEntries zs ⊆ ns) :
    Composes (totalCompareEntries xs ys) (totalCompareEntries ys zs)
      (totalCompareEntries xs zs) := by
  match xs, ys, zs with
  | [], [], _ => exact .absorb fun _ => rfl
  | _ :: _, _ :: _, [] => exact .absorb nofun
  | [], _ :: _, [] | [], _ :: _, _ :: _ | _ :: _, [], [] | _ :: _, [], _ :: _ =>
    constructor <;> simp [totalCompareEntries]
  | (k, x) :: xs, (l, y) :: ys, (m, z) :: zs =>
    obtain ⟨hx, hxs⟩ := List.append_subset.mp hxs
    obtain ⟨hy, hys⟩ := List.append_subset.mp hys
    obtain ⟨hz, hzs⟩ := List.append_subset.mp hzs
    exact ((Composes.of_transCmp compareText k l m).andThen fun _ _ =>
      composes_totalCompare h x y z hx hy hz).andThen fun _ _ =>
        composes_totalCompareEntries h xs ys zs hxs hys hzs

end

section Sorting

/-- The order of values is a preorder, where no float equals two different integers: values are
equal to themselves, exchanging the sides reverses the order, and what is not behind something that
is not behind a third value is not behind the third, nor before it if both are equal. -/
theorem totalCompare_preorder (a b c : Value) :
    totalCompare a a = .eq ∧ totalCompare b a = (totalCompare a b).swap ∧
      (TellsApart (numbers a ++ (numbers b ++ numbers c)) →
        (totalCompare a b ≠ .gt → totalCompare b c ≠ .gt → totalCompare a c ≠ .gt) ∧
          (totalCompare a b = .eq → totalCompare b c = .eq → totalCompare a c = .eq)) := by
  refine ⟨totalCompare_self a, totalCompare_swap a b, fun h => ?_⟩
  obtain ⟨ha, hrest⟩ := List.append_subset.mp (List.Subset.refl _)
  obtain ⟨hb, hc⟩ := List.append_subset.mp hrest
  have hcomposes := composes_totalCompare h a b c ha hb hc
  exact ⟨hcomposes.ne_gt, fun hab hbc => (hcomposes.of_left hab).trans hbc⟩

/-- Sequences of integers and floats of 54 digits, with what is not a number. -/
theorem totalCompare_preorder_sequences :
    totalCompare (seq [int 9007199254740992, float (0.0 / 0.0)])
        (seq [float 9007199254740994.0, text "a" false]) ≠ .gt ∧
      totalCompare (seq [float 9007199254740994.0, text "a" false])
        (seq [int 9007199254740994, map [("k", null)]]) ≠ .gt ∧
      totalCompare (seq [int 9007199254740992, float (0.0 / 0.0)])
        (seq [int 9007199254740994, map [("k", null)]]) ≠ .gt := by
  have hapart : TellsApart [int 9007199254740992, float (0.0 / 0.0), float 9007199254740994.0,
      int 9007199254740994] := by
    intro x y z hx hy hz hxz hyz
    simp only [List.mem_cons, int.injEq, float.injEq, reduceCtorEq, List.not_mem_nil, or_false,
      false_or] at hx hy hz
    obtain rfl | rfl := hx <;> obtain rfl | rfl := hy <;> obtain rfl | rfl := hz <;>
      first
      | rfl
      | exact absurd hxz (by decide +kernel)
      | exact absurd hyz (by decide +kernel)
  have hab : totalCompare (seq [int 9007199254740992, float (0.0 / 0.0)])
      (seq [float 9007199254740994.0, text "a" false]) ≠ .gt := by decide +kernel
  have hbc : totalCompare (seq [float 9007199254740994.0, text "a" false])
      (seq [int 9007199254740994, map [("k", null)]]) ≠ .gt := by decide +kernel
  refine ⟨hab, hbc, ((totalCompare_preorder _ _ _).2.2 ?_).1 hab hbc⟩
  exact hapart

/-- A float between two integers that are told apart equals both of them. -/
theorem not_forall_totalCompare_preorder :
    ¬ ∀ a b c : Value, totalCompare a a = .eq ∧ totalCompare b a = (totalCompare a b).swap ∧
      (totalCompare a b ≠ .gt → totalCompare b c ≠ .gt → totalCompare a c ≠ .gt) := by
  intro h
  obtain ⟨-, -, htrans⟩ :=
    h (int 9007199254740993) (float 9007199254740992.0) (int 9007199254740992)
  exact htrans (by decide +kernel) (by decide +kernel) (by decide +kernel)

end Sorting

end Value

end Templating
