/-!
# Keyed entries

Two orders of keyed values occur: the order of first insertion, in which a later
value takes the place of an earlier one, and the order of the keys. Both are
lists of pairs here, so that order is part of the value and every statement about
it is a statement about lists.
-/

set_option autoImplicit false

namespace LocaleLint.Entries

variable {α β : Type}

/-- The value stored under `key`. -/
def get? (entries : List (String × α)) (key : String) : Option α :=
  entries.lookup key

/-- Stores `value` under `key`: in place of the value that the key has, or at the end. -/
def put (entries : List (String × α)) (key : String) (value : α) : List (String × α) :=
  match entries with
  | [] => [(key, value)]
  | (k, v) :: rest => if k = key then (k, value) :: rest else (k, v) :: put rest key value

/-- Changes the value under `key` by `f`, which is given none when the key is new. -/
def alter (entries : List (String × α)) (key : String) (f : Option α → α) : List (String × α) :=
  match entries with
  | [] => [(key, f none)]
  | (k, v) :: rest => if k = key then (k, f (some v)) :: rest else (k, v) :: alter rest key f

/-- Stores `value` under `key` among entries whose keys ascend. -/
def putSorted (entries : List (String × α)) (key : String) (value : α) : List (String × α) :=
  match entries with
  | [] => [(key, value)]
  | (k, v) :: rest =>
    if key < k then (key, value) :: (k, v) :: rest
    else if k = key then (k, value) :: rest
    else (k, v) :: putSorted rest key value

/-- The entries in insertion order; a repeated key keeps its first place and its last value. -/
def ofList (pairs : List (String × α)) : List (String × α) :=
  pairs.foldl (fun entries pair => put entries pair.1 pair.2) []

/-- The entries in the order of their keys; a repeated key keeps its last value. -/
def sorted (pairs : List (String × α)) : List (String × α) :=
  pairs.foldl (fun entries pair => putSorted entries pair.1 pair.2) []

/-- Applies `f` to every value. -/
def mapValues (f : α → β) (entries : List (String × α)) : List (String × β) :=
  entries.map fun entry => (entry.1, f entry.2)

/-- What was put under a key is found under it. -/
theorem get?_put_self (entries : List (String × α)) (key : String) (value : α) :
    get? (put entries key value) key = some value := by
  induction entries with
  | nil => simp [put, get?]
  | cons entry rest ih =>
    obtain ⟨k, v⟩ := entry
    by_cases h : k = key
    · subst h
      simp [put, get?]
    · have hne : (key == k) = false := by simpa using fun hk => h hk.symm
      simpa [put, get?, h, List.lookup_cons, hne] using ih

end LocaleLint.Entries
