/-!
# Tables

Finite maps, as lists of entries. Of entries with one key the first counts. A new entry goes to
the end; an entry for a present key replaces the old one in its place, so no operation puts a key
in twice. The laws say what each operation does to the value of a key.
-/

namespace Templating

/-- Entries by key. -/
structure Table (κ ν : Type) where
  entries : List (κ × ν)
  deriving Repr, DecidableEq

namespace Table

variable {κ ν : Type} [DecidableEq κ]

instance : Inhabited (Table κ ν) := ⟨⟨[]⟩⟩

/-- No entries. -/
def empty : Table κ ν := ⟨[]⟩

/-- The value of a key in a list of entries. -/
def find? (key : κ) : List (κ × ν) → Option ν
  | [] => none
  | (k, v) :: rest => if k = key then some v else find? key rest

/-- The value of a key. -/
def get? (t : Table κ ν) (key : κ) : Option ν := find? key t.entries

/-- There is an entry for the key. -/
def contains (t : Table κ ν) (key : κ) : Bool := (t.get? key).isSome

/-- Put an entry into a list of entries. -/
def put (key : κ) (value : ν) : List (κ × ν) → List (κ × ν)
  | [] => [(key, value)]
  | (k, v) :: rest => if k = key then (key, value) :: rest else (k, v) :: put key value rest

/-- Set the value of a key. -/
def insert (t : Table κ ν) (key : κ) (value : ν) : Table κ ν := ⟨put key value t.entries⟩

/-- Remove the entry of a key. -/
def erase (t : Table κ ν) (key : κ) : Table κ ν := ⟨t.entries.filter fun e => e.1 ≠ key⟩

/-- Put the entries of `u` over those of `t`. -/
def overlay (t u : Table κ ν) : Table κ ν := u.entries.foldr (fun e t => t.insert e.1 e.2) t

/-- The keys, in order of entry. -/
def keys (t : Table κ ν) : List κ := t.entries.map Prod.fst

/-- The number of entries. -/
def size (t : Table κ ν) : Nat := t.entries.length

/-- The entries in the order of their keys. -/
def sorted [Ord κ] (t : Table κ ν) : List (κ × ν) :=
  t.entries.mergeSort fun a b => compare a.1 b.1 != .gt

theorem find?_put (key : κ) (value : ν) (es : List (κ × ν)) (k : κ) :
    find? k (put key value es) = if key = k then some value else find? k es := by
  induction es with
  | nil => simp [put, find?]
  | cons e rest ih =>
    obtain ⟨k', v⟩ := e
    by_cases h : k' = key
    · subst h
      by_cases hk : k' = k <;> simp [put, find?, hk]
    · by_cases hk : k' = k
      · subst hk
        have : ¬ key = k' := fun e => h e.symm
        simp [put, find?, h, this]
      · simp [put, find?, h, hk, ih]

/-- Setting a key changes the value of that key alone. -/
@[simp] theorem get?_insert (t : Table κ ν) (key : κ) (value : ν) (k : κ) :
    (t.insert key value).get? k = if key = k then some value else t.get? k :=
  find?_put key value t.entries k

/-- Removing a key removes its value alone. -/
@[simp] theorem get?_erase (t : Table κ ν) (key k : κ) :
    (t.erase key).get? k = if key = k then none else t.get? k := by
  obtain ⟨es⟩ := t
  simp only [erase, get?]
  induction es with
  | nil => simp [find?]
  | cons e rest ih =>
    rw [List.filter_cons]
    by_cases he : e.1 = key
    · by_cases hk : key = k <;> simp_all [find?]
    · by_cases hk : e.1 = k
      · subst hk
        simp [find?, he, Ne.symm he]
      · simpa [find?, he, hk] using ih

/-- A table laid over another hides its values and no others. -/
@[simp] theorem get?_overlay (t u : Table κ ν) (k : κ) :
    (t.overlay u).get? k = (u.get? k).or (t.get? k) := by
  obtain ⟨es⟩ := u
  simp only [overlay, get?]
  induction es with
  | nil => simp [find?]
  | cons e rest ih =>
    rw [List.foldr_cons]
    by_cases he : e.1 = k
    · simp [insert, find?_put, find?, he]
    · simpa [insert, find?_put, find?, he] using ih

@[simp] theorem get?_empty (k : κ) : (empty : Table κ ν).get? k = none := rfl

end Table

end Templating
