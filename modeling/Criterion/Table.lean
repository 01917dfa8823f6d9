/-
# Criterion.Table — values by name

A table gives some names a value, at most one each. `get?` is what a table means; `get?_insert` and
`get?_erase` say what the operations do to it, and `get?_ofList` that of several values for a name
the last one counts.
-/

namespace Criterion

set_option autoImplicit false

structure Table (α : Type) where
  entries : List (String × α)
deriving Repr

namespace Table

variable {α : Type}

def empty : Table α := ⟨[]⟩

def get? (t : Table α) (name : String) : Option α :=
  (t.entries.find? fun entry => entry.1 == name).map Prod.snd

def erase (t : Table α) (name : String) : Table α :=
  ⟨t.entries.filter fun entry => entry.1 != name⟩

def insert (t : Table α) (name : String) (value : α) : Table α :=
  ⟨(name, value) :: (t.erase name).entries⟩

def ofList (entries : List (String × α)) : Table α :=
  entries.foldl (fun t entry => t.insert entry.1 entry.2) empty

theorem get?_empty (name : String) : (empty : Table α).get? name = none := rfl

theorem get?_erase (t : Table α) (name other : String) :
    (t.erase name).get? other = if other = name then none else t.get? other := by
  unfold get? erase
  rw [List.find?_filter]
  split
  · next eq =>
    subst eq
    rw [List.find?_eq_none.2 (by simp)]
    rfl
  · next ne =>
    congr 2
    funext entry
    by_cases same : entry.1 = other
    · simp [same, ne]
    · simp [same]

theorem get?_insert (t : Table α) (name other : String) (value : α) :
    (t.insert name value).get? other = if other = name then some value else t.get? other := by
  have erased := get?_erase t name other
  unfold get? at *
  simp only [insert, List.find?_cons]
  split
  · next eq => simp [(beq_iff_eq.1 eq).symm]
  · next ne =>
    have ne : other ≠ name := fun eq => by simp [eq] at ne
    rw [erased, if_neg ne, if_neg ne]

theorem get?_foldl_insert (t : Table α) (entries : List (String × α)) (name : String) :
    (entries.foldl (fun t entry => t.insert entry.1 entry.2) t).get? name =
      ((entries.reverse.find? fun entry => entry.1 == name).map Prod.snd).or (t.get? name) := by
  induction entries generalizing t with
  | nil => rfl
  | cons entry rest ih =>
    rw [List.foldl_cons, ih, get?_insert, List.reverse_cons, List.find?_append]
    cases rest.reverse.find? fun entry => entry.1 == name with
    | some found => rfl
    | none =>
      by_cases eq : name = entry.1
      · simp [eq]
      · simp [eq, Ne.symm eq]

/-- The last value given for a name counts. -/
theorem get?_ofList (entries : List (String × α)) (name : String) :
    (ofList entries).get? name =
      (entries.reverse.find? fun entry => entry.1 == name).map Prod.snd := by
  rw [ofList, get?_foldl_insert, get?_empty, Option.or_none]

/-- The first entry counts if no later one has its name. -/
theorem get?_ofList_cons (entry : String × α) (entries : List (String × α)) (name : String) :
    (ofList (entry :: entries)).get? name =
      ((ofList entries).get? name).or (if entry.1 = name then some entry.2 else none) := by
  rw [get?_ofList, get?_ofList, List.reverse_cons, List.find?_append]
  cases entries.reverse.find? fun other => other.1 == name with
  | some found => rfl
  | none => by_cases same : entry.1 = name <;> simp [same]

end Table

end Criterion
