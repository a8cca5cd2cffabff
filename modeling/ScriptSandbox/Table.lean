/-!
Tables from names to entries in insertion order. Setting a name that is already there keeps its
place and replaces its entry.
-/

namespace ScriptSandbox

abbrev Table (Entry : Type) := List (String × Entry)

namespace Table

variable {Entry : Type}

def get? : Table Entry → String → Option Entry
  | [], _ => none
  | (key, entry) :: rest, name => if key = name then some entry else get? rest name

def contains (table : Table Entry) (name : String) : Bool :=
  (table.get? name).isSome

def set : Table Entry → String → Entry → Table Entry
  | [], name, entry => [(name, entry)]
  | (key, old) :: rest, name, entry =>
      if key = name then (key, entry) :: rest else (key, old) :: set rest name entry

/-- The table with every pair set in turn, so the last entry of a name wins in the first place. -/
def ofPairs (pairs : List (String × Entry)) : Table Entry :=
  pairs.foldl (fun table pair => table.set pair.1 pair.2) []

theorem get_set_self (table : Table Entry) (name : String) (entry : Entry) :
    (table.set name entry).get? name = some entry := by
  induction table with
  | nil => simp [set, get?]
  | cons pair rest ih =>
      obtain ⟨key, old⟩ := pair
      by_cases same : key = name <;> simp [set, get?, same, ih]

theorem get_set_other (table : Table Entry) (name other : String) (entry : Entry)
    (differs : other ≠ name) : (table.set name entry).get? other = table.get? other := by
  induction table with
  | nil => simp [set, get?, Ne.symm differs]
  | cons pair rest ih =>
      obtain ⟨key, old⟩ := pair
      by_cases same : key = name
      · subst same
        simp [set, get?, Ne.symm differs]
      · by_cases found : key = other <;> simp [set, get?, same, found, ih, differs]

end Table

end ScriptSandbox
