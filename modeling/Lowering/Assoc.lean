/-! # Association lists

Tables that keep their keys in order of first mention. Main statements: after `put` the key has the
new value, every other key keeps its own, and no key moves. -/

namespace Lowering.Assoc

variable {κ α : Type} [DecidableEq κ]

/-- Give `key` a value: in place where it has one, and otherwise at the end. -/
def put (key : κ) (value : α) : List (κ × α) → List (κ × α)
  | [] => [(key, value)]
  | entry :: rest => if entry.1 = key then (key, value) :: rest else entry :: put key value rest

@[simp] theorem lookup_put_self (key : κ) (value : α) (table : List (κ × α)) :
    (put key value table).lookup key = some value := by
  induction table with
  | nil => simp [put]
  | cons entry rest ih =>
    obtain ⟨k, v⟩ := entry
    by_cases h : k = key
    · simp [put, h]
    · have hne : (key == k) = false := by simpa using Ne.symm h
      simp [put, h, List.lookup_cons, hne, ih]

theorem lookup_put_of_ne {key other : κ} (hne : other ≠ key) (value : α)
    (table : List (κ × α)) : (put key value table).lookup other = table.lookup other := by
  have hother : (other == key) = false := by simpa using hne
  induction table with
  | nil => simp [put, List.lookup_cons, hother]
  | cons entry rest ih =>
    obtain ⟨k, v⟩ := entry
    by_cases h : k = key
    · subst h
      simp [put, List.lookup_cons, hother]
    · simp [put, h, List.lookup_cons, ih]

/-- Giving a key the value that it has changes nothing. -/
theorem put_of_lookup {key : κ} {value : α} {table : List (κ × α)}
    (hlookup : table.lookup key = some value) : put key value table = table := by
  induction table with
  | nil => cases hlookup
  | cons entry rest ih =>
    obtain ⟨k, v⟩ := entry
    by_cases h : k = key
    · obtain rfl : v = value := by simpa [h] using hlookup
      simp [put, h]
    · have hne : (key == k) = false := by simpa using Ne.symm h
      rw [put, if_neg h, ih (by simpa [List.lookup_cons, hne] using hlookup)]

end Lowering.Assoc
