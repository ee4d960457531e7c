/-!
# Tables

A table holds one value for each of its keys, in the order in which the keys came in.
-/
namespace ClassSieve

abbrev Table (κ α : Type) := List (κ × α)

namespace Table
variable {κ α : Type} [DecidableEq κ]

def get? (table : Table κ α) (key : κ) : Option α :=
  (table.find? fun entry => entry.1 = key).map Prod.snd

/-- Gives `key` the value `value`, in the place it has or behind all others. -/
def set (table : Table κ α) (key : κ) (value : α) : Table κ α :=
  match table with
  | [] => [(key, value)]
  | entry :: rest => if entry.1 = key then (key, value) :: rest else entry :: set rest key value

def erase (table : Table κ α) (key : κ) : Table κ α :=
  table.filter fun entry => entry.1 ≠ key

@[simp] theorem get?_nil (key : κ) : get? ([] : Table κ α) key = none := rfl

theorem get?_cons (entry : κ × α) (rest : Table κ α) (key : κ) :
    get? (entry :: rest) key = if entry.1 = key then some entry.2 else get? rest key := by
  by_cases h : entry.1 = key <;> simp [get?, h]

theorem get?_set (table : Table κ α) (key other : κ) (value : α) :
    get? (set table key value) other = if key = other then some value else get? table other := by
  induction table with
  | nil => simp [set, get?_cons]
  | cons entry rest ih =>
    by_cases h : entry.1 = key
    · by_cases hk : key = other <;> simp [set, h, get?_cons, hk]
    · by_cases hk : key = other
      · subst hk
        simpa [set, h, get?_cons] using ih
      · simp only [set, h, if_false, get?_cons, ih, hk]

theorem erase_cons (entry : κ × α) (rest : Table κ α) (key : κ) :
    erase (entry :: rest) key =
      if entry.1 = key then erase rest key else entry :: erase rest key := by
  by_cases h : entry.1 = key <;> simp [erase, h]

theorem get?_erase (table : Table κ α) (key other : κ) :
    get? (erase table key) other = if key = other then none else get? table other := by
  induction table with
  | nil => simp [erase]
  | cons entry rest ih =>
    rw [erase_cons, get?_cons]
    by_cases h : entry.1 = key
    · rw [if_pos h, ih, h]
      by_cases hk : key = other <;> simp [hk]
    · rw [if_neg h, get?_cons, ih]
      by_cases hk : key = other
      · subst hk
        simp [h]
      · simp [hk]

end Table

end ClassSieve
