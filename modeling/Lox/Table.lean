/-!
# Tables

A table holds a value under each of its keys, in the order in which the keys were first put.  What
`put` does is said by `get?_put_self` and `get?_put_of_ne`.
-/

namespace Lox

abbrev Table (κ α : Type) : Type :=
  List (κ × α)

namespace Table

variable {κ α : Type} [DecidableEq κ]

def get? (key : κ) : Table κ α → Option α
  | [] => none
  | (k, value) :: rest => if k = key then some value else get? key rest

/-- Puts a value under a key, in place of the one that was there. -/
def put (key : κ) (value : α) : Table κ α → Table κ α
  | [] => [(key, value)]
  | (k, old) :: rest => if k = key then (k, value) :: rest else (k, old) :: put key value rest

def has (key : κ) (t : Table κ α) : Bool :=
  (t.get? key).isSome

def merge (t other : Table κ α) : Table κ α :=
  other.foldl (fun acc entry => acc.put entry.1 entry.2) t

@[simp] theorem get?_nil (key : κ) : get? key ([] : Table κ α) = none := rfl

@[simp] theorem get?_put_self (key : κ) (value : α) (t : Table κ α) :
    (t.put key value).get? key = some value := by
  induction t with
  | nil => simp [put, get?]
  | cons entry rest ih =>
    by_cases h : entry.1 = key
    · simp [put, get?, h]
    · simp [put, get?, h, ih]

theorem get?_put_of_ne {key other : κ} (h : other ≠ key) (value : α) (t : Table κ α) :
    (t.put key value).get? other = t.get? other := by
  induction t with
  | nil => simp [put, get?, Ne.symm h]
  | cons entry rest ih =>
    by_cases hk : entry.1 = key
    · have : entry.1 ≠ other := fun e => h (e.symm.trans hk)
      simp [put, get?, hk, Ne.symm h]
    · by_cases ho : entry.1 = other
      · simp [put, get?, ho, h]
      · simp [put, get?, hk, ho, ih]

theorem get?_put (key other : κ) (value : α) (t : Table κ α) :
    (t.put key value).get? other = if other = key then some value else t.get? other := by
  split
  · next h => rw [h, get?_put_self]
  · next h => exact get?_put_of_ne h value t

theorem has_put (key other : κ) (value : α) (t : Table κ α) :
    (t.put key value).has other = (other = key || t.has other) := by
  by_cases h : other = key <;> simp [has, get?_put, h]

end Table

end Lox
