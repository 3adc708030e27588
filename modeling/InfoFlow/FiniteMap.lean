/-! Finite maps as lists of entries.

A map is read through `get?`. The laws below say what `set` and `erase` do to
that view: the named key changes and every other key is left alone. -/

namespace InfoFlow

universe u v

structure FiniteMap (Key : Type u) (Content : Type v) where
  entries : List (Key × Content) := []

namespace FiniteMap

variable {Key : Type u} {Content : Type v} [DecidableEq Key]

private def find (key : Key) : List (Key × Content) → Option Content
  | [] => none
  | (other, content) :: rest => if other = key then some content else find key rest

private def replace (key : Key) (content : Content) :
    List (Key × Content) → List (Key × Content)
  | [] => [(key, content)]
  | (other, previous) :: rest =>
      if other = key then (key, content) :: rest
      else (other, previous) :: replace key content rest

private def remove (key : Key) : List (Key × Content) → List (Key × Content)
  | [] => []
  | (other, previous) :: rest =>
      if other = key then remove key rest else (other, previous) :: remove key rest

def get? (map : FiniteMap Key Content) (key : Key) : Option Content :=
  find key map.entries

def contains (map : FiniteMap Key Content) (key : Key) : Bool :=
  (map.get? key).isSome

def set (map : FiniteMap Key Content) (key : Key) (content : Content) :
    FiniteMap Key Content :=
  ⟨replace key content map.entries⟩

def erase (map : FiniteMap Key Content) (key : Key) : FiniteMap Key Content :=
  ⟨remove key map.entries⟩

private theorem find_replace_same (key : Key) (content : Content)
    (entries : List (Key × Content)) :
    find key (replace key content entries) = some content := by
  induction entries with
  | nil => simp [replace, find]
  | cons entry rest induction =>
      by_cases equal : entry.1 = key <;> simp [replace, find, equal, induction]

private theorem find_replace_other {key other : Key} (different : other ≠ key)
    (content : Content) (entries : List (Key × Content)) :
    find other (replace key content entries) = find other entries := by
  induction entries with
  | nil => simp [replace, find, different.symm]
  | cons entry rest induction =>
      by_cases equal : entry.1 = key
      · simp [replace, find, equal, different.symm]
      · simp [replace, find, equal, induction]

private theorem find_remove_same (key : Key) (entries : List (Key × Content)) :
    find key (remove key entries) = none := by
  induction entries with
  | nil => rfl
  | cons entry rest induction =>
      by_cases equal : entry.1 = key <;> simp [remove, find, equal, induction]

private theorem find_remove_other {key other : Key} (different : other ≠ key)
    (entries : List (Key × Content)) :
    find other (remove key entries) = find other entries := by
  induction entries with
  | nil => rfl
  | cons entry rest induction =>
      by_cases equal : entry.1 = key
      · simp [remove, find, equal, different.symm, induction]
      · simp [remove, find, equal, induction]

@[simp] theorem get?_empty (key : Key) :
    (FiniteMap.mk [] : FiniteMap Key Content).get? key = none := rfl

@[simp] theorem set_same (map : FiniteMap Key Content) (key : Key) (content : Content) :
    (map.set key content).get? key = some content :=
  find_replace_same key content map.entries

theorem set_other (map : FiniteMap Key Content) {key other : Key}
    (different : other ≠ key) (content : Content) :
    (map.set key content).get? other = map.get? other :=
  find_replace_other different content map.entries

@[simp] theorem erase_same (map : FiniteMap Key Content) (key : Key) :
    (map.erase key).get? key = none :=
  find_remove_same key map.entries

theorem erase_other (map : FiniteMap Key Content) {key other : Key}
    (different : other ≠ key) :
    (map.erase key).get? other = map.get? other :=
  find_remove_other different map.entries

end FiniteMap

end InfoFlow
