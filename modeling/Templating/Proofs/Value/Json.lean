import Templating.Proofs.Json.Spelling
import Templating.Value.Json

/-!
# Values that a document says exactly

A document cannot tell a safe string from another one, nor undefined and callables from none. Every
other value is the value of its document.
-/

namespace Templating

namespace Entries

/-- A key that is not there yet goes to the end. -/
theorem insert_of_notMem {entries : Entries} {key : String} (value : Value)
    (h : key ∉ entries.map Prod.fst) : insert entries key value = entries ++ [(key, value)] := by
  induction entries with
  | nil => rfl
  | cons e rest ih =>
    obtain ⟨k, v⟩ := e
    simp only [List.map_cons, List.mem_cons, not_or] at h
    rw [insert, if_neg (Ne.symm h.1), ih h.2, List.cons_append]

/-- Storing pairs with new keys appends them. -/
theorem foldl_insert_of_nodup (entries : Entries) {pairs : List (String × Value)}
    (h : ((entries ++ pairs).map Prod.fst).Nodup) :
    pairs.foldl (fun entries (key, value) => insert entries key value) entries =
      entries ++ pairs := by
  induction pairs generalizing entries with
  | nil => rw [List.foldl_nil, List.append_nil]
  | cons p rest ih =>
    obtain ⟨key, value⟩ := p
    have hnew : key ∉ entries.map Prod.fst := by
      rw [List.map_append, List.nodup_append] at h
      exact fun hmem => h.2.2 key hmem key (by simp) rfl
    simp only [List.foldl_cons, insert_of_notMem value hnew]
    rw [ih _ (by simpa using h), List.append_assoc]
    rfl

/-- Pairs without a repeated key are entries as they stand. -/
theorem ofPairs_of_nodup {pairs : List (String × Value)} (h : (pairs.map Prod.fst).Nodup) :
    ofPairs pairs = pairs :=
  foldl_insert_of_nodup [] h

end Entries

namespace Value

mutual

/-- The value is data that its document says exactly. The keys of a map are unique. -/
def isPlain : Value → Bool
  | undefined => false
  | null => true
  | bool _ => true
  | int _ => true
  | float _ => true
  | text _ safe => !safe
  | seq items => itemsPlain items
  | map entries => decide (entries.map Prod.fst).Nodup && entriesPlain entries
  | callable .. => false

/-- All items are plain. -/
def itemsPlain : List Value → Bool
  | [] => true
  | v :: rest => isPlain v && itemsPlain rest

/-- The values of all entries are plain. -/
def entriesPlain : List (String × Value) → Bool
  | [] => true
  | (_, v) :: rest => isPlain v && entriesPlain rest

end

/-- A word is the integer it stands for. -/
theorem ofInt_toInt (n : Int64) : ofInt n.toInt = int n := by
  rw [ofInt, Number.toWord?_toInt]

mutual

/-- A plain value is the value of its document. -/
theorem ofJson_toJson : ∀ {v : Value}, v.isPlain = true → ofJson v.toJson = v
  | null, _ => rfl
  | bool _, _ => rfl
  | int n, _ => ofInt_toInt n
  | float _, _ => rfl
  | text s safe, h => by
    obtain rfl : safe = false := by simpa [isPlain] using h
    rfl
  | seq items, h => congrArg seq (ofJsonItems_toJsonItems h)
  | map entries, h => by
    simp only [isPlain, Bool.and_eq_true, decide_eq_true_eq] at h
    rw [toJson, ofJson, ofJsonMembers_toJsonEntries h.2, Entries.ofPairs_of_nodup h.1]

/-- Plain items are the values of their documents. -/
theorem ofJsonItems_toJsonItems : ∀ {items : List Value}, itemsPlain items = true →
    ofJsonItems (toJsonItems items) = items
  | [], _ => rfl
  | v :: rest, h => by
    simp only [itemsPlain, Bool.and_eq_true] at h
    rw [toJsonItems, ofJsonItems, ofJson_toJson h.1, ofJsonItems_toJsonItems h.2]

/-- Plain entries are the values of their documents. -/
theorem ofJsonMembers_toJsonEntries : ∀ {entries : List (String × Value)},
    entriesPlain entries = true → ofJsonMembers (toJsonEntries entries) = entries
  | [], _ => rfl
  | (k, v) :: rest, h => by
    simp only [entriesPlain, Bool.and_eq_true] at h
    rw [toJsonEntries, ofJsonMembers, ofJson_toJson h.1, ofJsonMembers_toJsonEntries h.2]

end

mutual

/-- Every integer in the document of a value fits into 64 bits. -/
theorem scalars_toJson : ∀ {v : Value} {n : Int}, .int n ∈ v.toJson.scalars → Json.FitsWord n
  | undefined, _, h | null, _, h | bool _, _, h | float _, _, h | text .., _, h
  | callable .., _, h => by simp [toJson, Json.scalars] at h
  | int w, n, h => by
    obtain rfl : n = w.toInt := by simpa [toJson, Json.scalars] using h
    have hlow := w.le_toInt
    have hhigh := w.toInt_lt
    exact ⟨hlow, by simp only [UInt64.size]; omega⟩
  | seq items, _, h => scalarsOfItems_toJsonItems h
  | map entries, _, h => scalarsOfMembers_toJsonEntries h

/-- Every integer in the documents of items fits into 64 bits. -/
theorem scalarsOfItems_toJsonItems : ∀ {items : List Value} {n : Int},
    .int n ∈ Json.scalarsOfItems (toJsonItems items) → Json.FitsWord n
  | [], _, h => by simp [toJsonItems, Json.scalarsOfItems] at h
  | v :: rest, _, h => by
    rw [toJsonItems, Json.scalarsOfItems, List.mem_append] at h
    exact h.elim scalars_toJson scalarsOfItems_toJsonItems

/-- Every integer in the documents of entries fits into 64 bits. -/
theorem scalarsOfMembers_toJsonEntries : ∀ {entries : List (String × Value)} {n : Int},
    .int n ∈ Json.scalarsOfMembers (toJsonEntries entries) → Json.FitsWord n
  | [], _, h => by simp [toJsonEntries, Json.scalarsOfMembers] at h
  | (k, v) :: rest, _, h => by
    rw [toJsonEntries, Json.scalarsOfMembers, List.mem_append] at h
    exact h.elim scalars_toJson scalarsOfMembers_toJsonEntries

end

end Value

end Templating
