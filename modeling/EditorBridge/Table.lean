/-
Tables of names.  A table lists its names in the order in which they first came;
a name that comes again takes a new value and keeps its place.
-/
import EditorBridge.Text.CodePoint

namespace EditorBridge

/-- Values under distinct names, in order. -/
structure Table (α : Type) where
  entries : List (Text × α)
  distinct : (entries.map Prod.fst).Nodup

namespace Table

variable {α : Type}

def empty : Table α := ⟨[], by simp⟩

instance : Inhabited (Table α) := ⟨empty⟩

def names (table : Table α) : List Text := table.entries.map Prod.fst

/-- The value under a name. -/
def get? (table : Table α) (name : Text) : Option α :=
  (table.entries.find? fun entry => entry.1 == name).map Prod.snd

def contains (table : Table α) (name : Text) : Bool := table.names.contains name

def size (table : Table α) : Nat := table.entries.length

/-- Give a name its value in a list of entries. -/
def replace (name : Text) (value : α) (entries : List (Text × α)) : List (Text × α) :=
  entries.map fun entry => if entry.1 == name then (name, value) else entry

theorem map_fst_replace (name : Text) (value : α) (entries : List (Text × α)) :
    (replace name value entries).map Prod.fst = entries.map Prod.fst := by
  induction entries with
  | nil => rfl
  | cons entry rest ih =>
      simp only [replace, List.map_cons] at ih ⊢
      rw [ih]
      by_cases h : entry.1 = name <;> simp [h]

/-- Set the value of a name.  A new name goes to the end. -/
def insert (table : Table α) (name : Text) (value : α) : Table α :=
  if h : name ∈ table.entries.map Prod.fst then
    ⟨replace name value table.entries, by rw [map_fst_replace]; exact table.distinct⟩
  else
    ⟨table.entries ++ [(name, value)], by
      rw [List.map_append, List.map_cons, List.map_nil, List.nodup_append]
      refine ⟨table.distinct, by simp, ?_⟩
      intro a ha b hb hab
      have hname : b = name := by simpa using hb
      exact h (hname ▸ hab ▸ ha)⟩

/-- Set the value of a name that is not in the table yet. -/
def insertNew (table : Table α) (name : Text) (value : α) : Table α :=
  if table.contains name then table else table.insert name value

/-- Take a name out. -/
def erase (table : Table α) (name : Text) : Table α :=
  ⟨table.entries.filter fun entry => entry.1 != name,
    table.distinct.sublist (List.filter_sublist.map Prod.fst)⟩

/-- The table that results from setting names one after another. -/
def ofList (entries : List (Text × α)) : Table α :=
  entries.foldl (fun table entry => table.insert entry.1 entry.2) empty

@[simp] theorem get?_empty (name : Text) : (empty : Table α).get? name = none := rfl

theorem contains_eq_isSome_get? (table : Table α) (name : Text) :
    table.contains name = (table.get? name).isSome := by
  simp only [contains, names, get?, Option.isSome_map]
  induction table.entries with
  | nil => rfl
  | cons entry rest ih =>
      rw [List.map_cons, List.contains_cons, List.find?_cons, ih]
      by_cases h : entry.1 = name
      · simp [h]
      · have hentry : (entry.1 == name) = false := by simpa using h
        have hname : (name == entry.1) = false := by simpa using Ne.symm h
        simp [hentry, hname]

theorem find?_replace (name other : Text) (value : α) (entries : List (Text × α)) :
    (replace name value entries).find? (fun entry => entry.1 == other) =
      (entries.find? fun entry => entry.1 == other).map fun entry =>
        if entry.1 == name then (name, value) else entry := by
  rw [replace, List.find?_map]
  congr 2
  funext entry
  by_cases h : entry.1 = name <;> simp [h]

/-- A name has the value that it was given last. -/
theorem get?_insert (table : Table α) (name other : Text) (value : α) :
    (table.insert name value).get? other =
      if other = name then some value else table.get? other := by
  by_cases hmem : name ∈ table.entries.map Prod.fst
  · have hinsert : (table.insert name value).entries = replace name value table.entries := by
      simp [insert, hmem]
    rw [get?, hinsert, find?_replace, Option.map_map]
    by_cases hother : other = name
    · have hsome : (table.get? name).isSome := by
        rw [← contains_eq_isSome_get?]
        simpa [contains, names] using hmem
      rw [if_pos hother, hother]
      rw [get?, Option.isSome_map] at hsome
      obtain ⟨entry, hentry⟩ := Option.isSome_iff_exists.mp hsome
      have hname := List.find?_some hentry
      simp only [hentry, Option.map_some, Function.comp_apply, hname, if_true]
    · rw [if_neg hother, get?]
      cases hfound : table.entries.find? fun entry => entry.1 == other with
      | none => rfl
      | some entry =>
          have hname : entry.1 = other := by simpa using List.find?_some hfound
          simp [hname, hother]
  · have hinsert : (table.insert name value).entries = table.entries ++ [(name, value)] := by
      simp only [insert, hmem, dite_false]
    rw [get?, hinsert, List.find?_append]
    by_cases hother : other = name
    · have hnone : table.entries.find? (fun entry => entry.1 == other) = none := by
        rw [List.find?_eq_none]
        intro entry hentry hname
        apply hmem
        rw [← hother, ← show entry.1 = other by simpa using hname]
        exact List.mem_map_of_mem hentry
      rw [hnone, if_pos hother]
      simp [hother]
    · have hname : (name == other) = false := by simpa using Ne.symm hother
      simp [hother, hname, get?]

/-- A name that was taken out has no value. -/
theorem get?_erase (table : Table α) (name other : Text) :
    (table.erase name).get? other = if other = name then none else table.get? other := by
  simp only [erase, get?, List.find?_filter]
  by_cases h : other = name
  · rw [if_pos h]
    simp [h]
  · rw [if_neg h]
    congr 2
    funext entry
    by_cases hentry : entry.1 = other <;> simp [hentry, h]

end Table

end EditorBridge
