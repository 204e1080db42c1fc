/-!
# Entries in order of insertion

Association lists whose keys are distinct.  Writing to a present key keeps its place.
-/

namespace Kouetsu

/-- Keys with their values, in the order in which the keys were first written. -/
abbrev Entries (α β : Type) := List (α × β)

namespace Entries

variable {α β : Type} [DecidableEq α]

def get? (e : Entries α β) (k : α) : Option β := (e.find? (·.1 = k)).map (·.2)

def keys (e : Entries α β) : List α := e.map (·.1)

/-- Writes a value; a new key goes to the end. -/
def insert (k : α) (v : β) : Entries α β → Entries α β
  | [] => [(k, v)]
  | (k', v') :: rest => if k' = k then (k, v) :: rest else (k', v') :: insert k v rest

/-- Writes all entries of `new` in their order. -/
def merge (old new : Entries α β) : Entries α β :=
  new.foldl (fun e (k, v) => e.insert k v) old

def ofList (xs : List (α × β)) : Entries α β := merge [] xs

def erase (e : Entries α β) (k : α) : Entries α β := e.filter (·.1 ≠ k)

theorem keys_insert (k : α) (v : β) (e : Entries α β) :
    (e.insert k v).keys = if k ∈ e.keys then e.keys else e.keys ++ [k] := by
  induction e with
  | nil => simp [insert, keys]
  | cons p rest ih =>
      obtain ⟨k', v'⟩ := p
      by_cases h : k' = k
      · simp [insert, keys, h]
      · have h' : ¬k = k' := fun e => h e.symm
        simp only [keys] at ih
        by_cases hm : k ∈ rest.map (·.1)
        · simp [insert, keys, h, h', ih, hm]
        · simp [insert, keys, h, h', ih, hm]

end Entries

end Kouetsu
