/-!
# Fields in key order

An object holds its fields in the order of their keys, compared by code point, and each key once.
The operations keep that order; `List.lookup` finds a field.
-/
namespace Reshape.Fields

variable {α β : Type}

/-- Put a field in its place, replacing one of the same key. -/
def insert (key : String) (value : α) : List (String × α) → List (String × α)
  | [] => [(key, value)]
  | (k, v) :: rest =>
    if key < k then (key, value) :: (k, v) :: rest
    else if key = k then (key, value) :: rest
    else (k, v) :: insert key value rest

def erase (key : String) (fields : List (String × α)) : List (String × α) :=
  fields.filter fun field => field.1 != key

def contains (key : String) (fields : List (String × α)) : Bool :=
  (fields.lookup key).isSome

/-- The fields of a list of pairs; the last pair of a key wins. -/
def ofPairs (pairs : List (String × α)) : List (String × α) :=
  pairs.foldl (fun fields (key, value) => insert key value fields) []

/-- Keys strictly increase. -/
def Sorted (fields : List (String × α)) : Prop :=
  fields.Pairwise fun a b => a.1 < b.1

@[simp, grind =]
theorem lookup_insert_self (key : String) (value : α) (fields : List (String × α)) :
    (insert key value fields).lookup key = some value := by
  induction fields with
  | nil => simp [insert]
  | cons field rest ih =>
    obtain ⟨k, v⟩ := field
    rw [insert]
    split
    · simp
    · split
      · simp
      · rename_i h
        have hb : (key == k) = false := by simpa using h
        simp [List.lookup_cons, ih, hb]

@[simp, grind =] theorem lookup_insert_of_ne {key other : String} (h : other ≠ key) (value : α)
    (fields : List (String × α)) :
    (insert key value fields).lookup other = fields.lookup other := by
  have hb : (other == key) = false := by simpa using h
  induction fields with
  | nil => simp [insert, List.lookup_cons, hb]
  | cons field rest ih =>
    obtain ⟨k, v⟩ := field
    rw [insert]
    split
    · simp [List.lookup_cons, hb]
    · split
      · rename_i hk
        subst hk
        simp [List.lookup_cons, hb]
      · simp [List.lookup_cons, ih]

end Reshape.Fields
