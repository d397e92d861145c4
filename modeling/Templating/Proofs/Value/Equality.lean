import Mathlib.Data.List.Perm.Subperm
import Templating.Proofs.Sorting
import Templating.Proofs.Value.Json
import Templating.Proofs.Value.Markup
import Templating.Proofs.Value.Order

/-!
# The equality of templates

Values without floats are equal in templates exactly if they have the same canonical form, in which
there is no undefined value and no safe string and the entries of maps are sorted by their keys. So
the equality of templates is an equivalence of them, and neither the order of keys nor the marks of
safe strings matter to it.
-/

namespace Templating

namespace Entries

variable {entries : Entries} {key : String} {v : Value}

/-- Storing under a key that is there already changes no key. -/
theorem keys_insert_of_mem (v : Value) (hmem : key ∈ entries.map Prod.fst) :
    (insert entries key v).map Prod.fst = entries.map Prod.fst := by
  induction entries with
  | nil => exact absurd hmem List.not_mem_nil
  | cons e rest ih =>
    obtain ⟨k, w⟩ := e
    rw [insert]
    split
    · rfl
    · next hne =>
      obtain heq | hmem := List.mem_cons.mp hmem
      · exact absurd heq.symm hne
      · rw [List.map_cons, List.map_cons, ih hmem]

/-- Among entries that hold each key once, looking up a key finds the entry with that key. -/
theorem get?_eq_some_iff (hnodup : (entries.map Prod.fst).Nodup) :
    get? entries key = some v ↔ (key, v) ∈ entries := by
  refine ⟨mem_of_get?, fun hmem => ?_⟩
  induction entries with
  | nil => exact absurd hmem List.not_mem_nil
  | cons e rest ih =>
    obtain ⟨k, w⟩ := e
    obtain ⟨hnew, hnodup⟩ := List.nodup_cons.mp hnodup
    rw [get?]
    obtain heq | hmem := List.mem_cons.mp hmem
    · obtain ⟨rfl, rfl⟩ := Prod.mk.inj heq
      exact if_pos rfl
    · have hne : k ≠ key := by
        rintro rfl
        exact hnew (List.mem_map.mpr ⟨_, hmem, rfl⟩)
      rw [if_neg hne]
      exact ih hnodup hmem

/-- Storing a value keeps the keys apart. -/
theorem nodup_keys_insert (hnodup : (entries.map Prod.fst).Nodup) (key : String) (v : Value) :
    ((insert entries key v).map Prod.fst).Nodup := by
  by_cases hmem : key ∈ entries.map Prod.fst
  · rw [keys_insert_of_mem v hmem]
    exact hnodup
  · rw [insert_of_notMem v hmem, List.map_append]
    refine List.nodup_append.mpr ⟨hnodup, List.nodup_singleton key, fun k hk l hl heq => ?_⟩
    obtain rfl : l = key := List.mem_singleton.mp hl
    exact hmem (heq ▸ hk)

/-- Entries that are stored one after the other have different keys. -/
theorem nodup_keys_ofPairs (pairs : List (String × Value)) :
    ((ofPairs pairs).map Prod.fst).Nodup :=
  List.foldlRecOn (motive := fun entries : Entries => (entries.map Prod.fst).Nodup) pairs _
    List.nodup_nil fun _ hnodup p _ => nodup_keys_insert hnodup p.1 p.2

/-- Compare two entries by their keys. -/
def compareKeys (e f : String × Value) : Ordering := compareText e.1 f.1

instance : Std.LawfulEqCmp compareText :=
  inferInstanceAs (Std.LawfulEqCmp (compare : String → String → Ordering))

instance : Std.TransCmp compareKeys := inferInstanceAs (Std.TransCmp (compareOn Prod.fst))

/-- Entries with the same keys and values, each key once, are sorted to the same entries. -/
theorem sortBy_compareKeys_eq_iff {xs ys : Entries} (hnodup : (xs.map Prod.fst).Nodup) :
    sortBy compareKeys xs = sortBy compareKeys ys ↔ xs.Perm ys := by
  constructor
  · intro h
    exact (sortBy_perm _ xs).symm.trans (h ▸ sortBy_perm _ ys)
  · intro hperm
    have hsorted (zs : Entries) :
        (sortBy compareKeys zs).Pairwise fun e f => compareKeys e f ≠ .gt :=
      sortBy_pairwise (.of_transCmp compareKeys) fun _ _ => trivial
    refine List.Perm.eq_of_pairwise (fun e f he hf hef hfe => ?_) (hsorted xs) (hsorted ys)
      ((sortBy_perm _ xs).trans (hperm.trans (sortBy_perm _ ys).symm))
    have hkeys : compareText e.1 f.1 = .eq :=
      (Preorders.of_transCmp compareKeys).eq_of_ne_gt hef hfe
    exact List.inj_on_of_nodup_map hnodup ((sortBy_perm _ xs).mem_iff.mp he)
      (hperm.mem_iff.mpr ((sortBy_perm _ ys).mem_iff.mp hf)) (Std.LawfulEqCmp.eq_of_compare hkeys)

end Entries

namespace Value

mutual

/-- There is no float in the value, at whatever depth, and its maps hold each key once. -/
def isExact : Value → Bool
  | undefined => true
  | null => true
  | bool _ => true
  | int _ => true
  | float _ => false
  | text .. => true
  | seq items => itemsExact items
  | map entries => decide (entries.map Prod.fst).Nodup && entriesExact entries
  | callable .. => true

/-- All items are exact. -/
def itemsExact : List Value → Bool
  | [] => true
  | v :: rest => isExact v && itemsExact rest

/-- The values of all entries are exact. -/
def entriesExact : List (String × Value) → Bool
  | [] => true
  | (_, v) :: rest => isExact v && entriesExact rest

end

/-- Items are exact if each of them is. -/
theorem itemsExact_iff {items : List Value} :
    itemsExact items = true ↔ ∀ v ∈ items, v.isExact = true := by
  induction items with
  | nil => simp [itemsExact]
  | cons v rest ih => simp [itemsExact, ih]

/-- Entries are exact if each of their values is. -/
theorem entriesExact_iff {entries : List (String × Value)} :
    entriesExact entries = true ↔ ∀ e ∈ entries, e.2.isExact = true := by
  induction entries with
  | nil => simp [entriesExact]
  | cons e rest ih => simp [entriesExact, ih]

mutual

/-- The form of a value that shows what it is equal to: nothing is undefined, no string is safe, and
the entries of maps are sorted by their keys. -/
def canonical : Value → Value
  | undefined => null
  | null => null
  | bool b => bool b
  | int n => int n
  | float x => float x
  | text s _ => text s false
  | seq items => seq (canonicalItems items)
  | map entries => map (sortBy Entries.compareKeys (canonicalEntries entries))
  | callable id name => callable id name

/-- The canonical forms of items. -/
def canonicalItems : List Value → List Value
  | [] => []
  | v :: rest => canonical v :: canonicalItems rest

/-- Entries with the canonical forms of their values. -/
def canonicalEntries : List (String × Value) → List (String × Value)
  | [] => []
  | (k, v) :: rest => (k, canonical v) :: canonicalEntries rest

end

/-- Each item is brought to its canonical form. -/
theorem canonicalItems_eq_map (items : List Value) :
    canonicalItems items = items.map canonical := by
  induction items with
  | nil => rfl
  | cons v rest ih => rw [canonicalItems, ih, List.map_cons]

/-- Each value of an entry is brought to its canonical form. -/
theorem canonicalEntries_eq_map (entries : List (String × Value)) :
    canonicalEntries entries = entries.map fun e => (e.1, e.2.canonical) := by
  induction entries with
  | nil => rfl
  | cons e rest ih => rw [canonicalEntries, ih, List.map_cons]

/-- Canonical forms are stored under the same keys. -/
theorem keys_canonicalEntries (entries : List (String × Value)) :
    (canonicalEntries entries).map Prod.fst = entries.map Prod.fst := by
  rw [canonicalEntries_eq_map, List.map_map]
  rfl

/-- The canonical forms of the entries, found by looking up their keys. -/
theorem mem_canonicalEntries_iff {entries : Entries} {key : String} {v : Value}
    (hnodup : (entries.map Prod.fst).Nodup) :
    (key, v) ∈ canonicalEntries entries ↔
      ∃ w, entries.get? key = some w ∧ w.canonical = v := by
  simp only [canonicalEntries_eq_map, List.mem_map, Entries.get?_eq_some_iff hnodup]
  constructor
  · rintro ⟨e, he, heq⟩
    obtain ⟨rfl, rfl⟩ := Prod.mk.inj heq
    exact ⟨e.2, he, rfl⟩
  · rintro ⟨w, hw, rfl⟩
    exact ⟨_, hw, rfl⟩

/-- Every entry of one map has an equal partner in another one with as many entries, if and only if
the two have the same sorted entries. -/
theorem length_and_subset_iff {xs ys : Entries} (hnodup : (xs.map Prod.fst).Nodup) :
    xs.length = ys.length ∧ xs ⊆ ys ↔
      sortBy Entries.compareKeys xs = sortBy Entries.compareKeys ys := by
  rw [Entries.sortBy_compareKeys_eq_iff hnodup]
  constructor
  · rintro ⟨hlength, hsub⟩
    -- one direction is enough: as the keys differ, no two entries have the same partner
    exact (List.subperm_of_subset hnodup.of_map hsub).perm_of_length_le hlength.ge
  · intro hperm
    exact ⟨hperm.length_eq, hperm.subset⟩

mutual

/-- Exact values are equal in templates exactly if they have the same canonical form. -/
theorem looseEq_iff_canonical : ∀ {a b : Value}, a.isExact = true → b.isExact = true →
    (looseEq a b = true ↔ a.canonical = b.canonical)
  | undefined, b, _, _ => by cases b <;> simp [looseEq, isMissing, canonical]
  | null, b, _, _ => by cases b <;> simp [looseEq, isMissing, canonical]
  | bool x, b, _, _ => by cases b <;> simp [looseEq, canonical]
  | int x, b, _, hb => by
    cases b with
    | float y => simp [isExact] at hb
    | _ => simp [looseEq, commonEq, common?, canonical]
  | text s safe, b, _, hb => by
    cases b with
    | float y => simp [isExact] at hb
    | _ => simp [looseEq, commonEq, common?, canonical]
  | callable i n, b, _, _ => by cases b <;> simp [looseEq, canonical]
  | seq xs, b, ha, hb => by
    cases b with
    | seq ys => simpa [looseEq, canonical] using looseEqItems_iff_canonical ha hb
    | _ => simp [looseEq, canonical]
  | map xs, b, ha, hb => by
    cases b with
    | map ys =>
      simp only [isExact, Bool.and_eq_true, decide_eq_true_eq] at ha hb
      have hnodup : ((canonicalEntries xs).map Prod.fst).Nodup := keys_canonicalEntries xs ▸ ha.1
      calc looseEq (map xs) (map ys) = true
          ↔ xs.length = ys.length ∧ looseEqEntries xs ys = true := by simp [looseEq]
        _ ↔ (canonicalEntries xs).length = (canonicalEntries ys).length ∧
              canonicalEntries xs ⊆ canonicalEntries ys := by
            rw [looseEqEntries_iff_canonical ha.2 hb.1 hb.2]
            simp only [canonicalEntries_eq_map, List.length_map]
        _ ↔ (map xs).canonical = (map ys).canonical := by
            rw [length_and_subset_iff hnodup, canonical, canonical, map.injEq]
    | _ => simp [looseEq, canonical]

/-- Exact items are equal in templates exactly if they have the same canonical forms. -/
theorem looseEqItems_iff_canonical : ∀ {xs ys : List Value}, itemsExact xs = true →
    itemsExact ys = true → (looseEqItems xs ys = true ↔ canonicalItems xs = canonicalItems ys)
  | [], ys, _, _ => by cases ys <;> simp [looseEqItems, canonicalItems]
  | x :: xs, [], _, _ => by simp [looseEqItems, canonicalItems]
  | x :: xs, y :: ys, hxs, hys => by
    simp only [itemsExact, Bool.and_eq_true] at hxs hys
    simp only [looseEqItems, canonicalItems, Bool.and_eq_true, List.cons.injEq,
      looseEq_iff_canonical hxs.1 hys.1, looseEqItems_iff_canonical hxs.2 hys.2]

/-- Exact entries have equal partners in a map exactly if their canonical forms are among those of
its entries. -/
theorem looseEqEntries_iff_canonical : ∀ {xs : List (String × Value)} {ys : Entries},
    entriesExact xs = true → (ys.map Prod.fst).Nodup → entriesExact ys = true →
    (looseEqEntries xs ys = true ↔ canonicalEntries xs ⊆ canonicalEntries ys)
  | [], ys, _, _, _ => by simp [looseEqEntries, canonicalEntries]
  | (k, v) :: xs, ys, hxs, hnodup, hys => by
    simp only [entriesExact, Bool.and_eq_true] at hxs
    simp only [looseEqEntries, canonicalEntries, Bool.and_eq_true, List.cons_subset,
      looseEqEntries_iff_canonical hxs.2 hnodup hys, mem_canonicalEntries_iff hnodup]
    refine and_congr_left' ?_
    cases hget : Entries.get? ys k with
    | none => simp
    | some w =>
      have hw := entriesExact_iff.mp hys _ (Entries.mem_of_get? hget)
      simp only [Option.some.injEq, exists_eq_left', looseEq_iff_canonical hxs.1 hw]
      exact eq_comm

end

/-- A value and the same one with keys of maps in another order and with strings that are safe where
they were not or the other way around, at whatever depth. -/
inductive Rearranged : Value → Value → Prop
  | refl (v : Value) : Rearranged v v
  | mark (s : String) (safe safe' : Bool) : Rearranged (text s safe) (text s safe')
  | keys {xs ys : List (String × Value)} : xs.Perm ys → Rearranged (map xs) (map ys)
  | item {v w : Value} (front back : List Value) : Rearranged v w →
    Rearranged (seq (front ++ v :: back)) (seq (front ++ w :: back))
  | entry {v w : Value} (key : String) (front back : List (String × Value)) : Rearranged v w →
    Rearranged (map (front ++ (key, v) :: back)) (map (front ++ (key, w) :: back))
  | trans {u v w : Value} : Rearranged u v → Rearranged v w → Rearranged u w

/-- Rearranging a value changes nothing about its canonical form. -/
theorem Rearranged.canonical_eq {a b : Value} (h : Rearranged a b) (ha : a.isExact = true) :
    b.isExact = true ∧ a.canonical = b.canonical := by
  induction h with
  | refl => exact ⟨ha, rfl⟩
  | mark => exact ⟨rfl, rfl⟩
  | @keys xs ys hperm =>
    simp only [isExact, Bool.and_eq_true, decide_eq_true_eq, entriesExact_iff] at ha ⊢
    have hnodup : ((canonicalEntries xs).map Prod.fst).Nodup := keys_canonicalEntries xs ▸ ha.1
    refine ⟨⟨(hperm.map Prod.fst).nodup_iff.mp ha.1, fun e he => ha.2 e (hperm.mem_iff.mpr he)⟩, ?_⟩
    rw [canonical, canonical, (Entries.sortBy_compareKeys_eq_iff hnodup).mpr]
    simp only [canonicalEntries_eq_map]
    exact hperm.map _
  | @item v w front back _ ih =>
    simp only [isExact, itemsExact_iff, List.forall_mem_append, List.forall_mem_cons] at ha ⊢
    obtain ⟨hw, heq⟩ := ih ha.2.1
    refine ⟨⟨ha.1, hw, ha.2.2⟩, ?_⟩
    simp only [canonical, canonicalItems_eq_map, List.map_append, List.map_cons, heq]
  | @entry v w key front back _ ih =>
    simp only [isExact, Bool.and_eq_true, decide_eq_true_eq, entriesExact_iff,
      List.forall_mem_append, List.forall_mem_cons] at ha ⊢
    obtain ⟨hw, heq⟩ := ih ha.2.2.1
    refine ⟨⟨?_, ha.2.1, hw, ha.2.2.2⟩, ?_⟩
    · simpa using ha.1
    · simp only [canonical, canonicalEntries_eq_map, List.map_append, List.map_cons, heq]
  | trans _ _ ih ih' =>
    obtain ⟨hb, hab⟩ := ih ha
    obtain ⟨hc, hbc⟩ := ih' hb
    exact ⟨hc, hab.trans hbc⟩

/-- A value without floats, whose maps hold each key once. -/
structure Exact where
  val : Value
  isExact : val.isExact = true

end Value

end Templating
