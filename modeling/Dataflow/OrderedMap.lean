/-!
# Ordered maps

A finite map that remembers the order in which its keys were first inserted: a
list of entries with distinct keys. Inserting under a key it holds replaces the
value and keeps the place; a new key goes to the end; erasing keeps the order of
the other entries.

* `OrderedMap.get?_insert`: what an insertion does to every look-up.
* `OrderedMap.keys_insert`: what it does to the order of the keys.
-/

namespace Dataflow

variable {κ α : Type}

namespace Entries

/-- The entries with `value` under `key`: in the place of the entry under `key`
    if there is one, at the end otherwise. -/
def insert [DecidableEq κ] (key : κ) (value : α) : List (κ × α) → List (κ × α)
  | [] => [(key, value)]
  | entry :: rest =>
    if entry.1 = key then (key, value) :: rest else entry :: insert key value rest

/-- The keys after an insertion: a new key goes to the end. -/
theorem keys_insert [DecidableEq κ] (key : κ) (value : α) (entries : List (κ × α)) :
    (insert key value entries).map Prod.fst =
      if key ∈ entries.map Prod.fst then entries.map Prod.fst
      else entries.map Prod.fst ++ [key] := by
  induction entries with
  | nil => simp [insert]
  | cons entry rest ih =>
    by_cases h : entry.1 = key
    · simp [insert, h]
    · have h' : ¬ key = entry.1 := fun e => h e.symm
      simp only [insert, h, if_false, List.map_cons, ih, List.mem_cons, h', false_or]
      split <;> simp

theorem nodup_insert [DecidableEq κ] {key : κ} {value : α} {entries : List (κ × α)}
    (h : (entries.map Prod.fst).Nodup) : ((insert key value entries).map Prod.fst).Nodup := by
  rw [keys_insert]
  split
  · exact h
  · next hk =>
    exact List.nodup_append.2 ⟨h, by simp, fun a ha b hb => by
      obtain rfl : b = key := by simpa using hb
      exact fun e => hk (e ▸ ha)⟩

theorem lookup_insert [DecidableEq κ] (key : κ) (value : α) (entries : List (κ × α)) (other : κ) :
    (insert key value entries).lookup other =
      if other = key then some value else entries.lookup other := by
  have pass : ∀ {k : κ}, other ≠ k → (other == k) = false := fun h => beq_eq_false_iff_ne.2 h
  induction entries with
  | nil =>
    by_cases h : other = key
    · simp [insert, h]
    · simp [insert, List.lookup_cons, h, pass h]
  | cons entry rest ih =>
    obtain ⟨k, v⟩ := entry
    by_cases h : k = key
    · subst h
      by_cases h' : other = k
      · simp [insert, h']
      · simp [insert, List.lookup_cons, h', pass h']
    · by_cases h' : other = k
      · subst h'
        simp [insert, h]
      · simp [insert, List.lookup_cons, h, pass h', ih]

end Entries

/-- A finite map that keeps the order in which its keys were first inserted. -/
structure OrderedMap (κ α : Type) where
  /-- The entries, in order. -/
  entries : List (κ × α)
  /-- No key occurs twice. -/
  nodup : (entries.map Prod.fst).Nodup

namespace OrderedMap

instance : EmptyCollection (OrderedMap κ α) := ⟨⟨[], by simp⟩⟩

instance : Inhabited (OrderedMap κ α) := ⟨∅⟩

theorem ext {m n : OrderedMap κ α} (h : m.entries = n.entries) : m = n := by
  cases m; cases n; cases h; rfl

/-- The keys, in order. -/
def keys (m : OrderedMap κ α) : List κ := m.entries.map Prod.fst

@[simp] theorem keys_empty : (∅ : OrderedMap κ α).keys = [] := rfl

/-- The values, in the order of their keys. -/
def values (m : OrderedMap κ α) : List α := m.entries.map Prod.snd

/-- The number of entries. -/
def size (m : OrderedMap κ α) : Nat := m.entries.length

/-- Whether there is no entry. -/
def isEmpty (m : OrderedMap κ α) : Bool := m.entries.isEmpty

/-- The value of the first entry. -/
def first? (m : OrderedMap κ α) : Option α := m.entries.head?.map Prod.snd

section

variable [DecidableEq κ]

/-- The value under a key. -/
def get? (m : OrderedMap κ α) (key : κ) : Option α := m.entries.lookup key

/-- Whether a key has a value. -/
def contains (m : OrderedMap κ α) (key : κ) : Bool := key ∈ m.keys

/-- The map with `value` under `key`. -/
def insert (m : OrderedMap κ α) (key : κ) (value : α) : OrderedMap κ α :=
  ⟨Entries.insert key value m.entries, Entries.nodup_insert m.nodup⟩

/-- The map without an entry under `key`. -/
def erase (m : OrderedMap κ α) (key : κ) : OrderedMap κ α :=
  ⟨m.entries.filter fun entry => !decide (entry.1 = key),
    m.nodup.sublist (List.filter_sublist.map Prod.fst)⟩

/-- The map that results from inserting the pairs one after the other. -/
def ofList (pairs : List (κ × α)) : OrderedMap κ α :=
  pairs.foldl (fun m pair => m.insert pair.1 pair.2) ∅

/-- Whether two maps have equal values under the same keys, in any order. -/
def same (eq : α → α → Bool) (m n : OrderedMap κ α) : Bool :=
  m.size == n.size && m.entries.all fun entry =>
    match n.get? entry.1 with
    | some value => eq entry.2 value
    | none => false

@[simp] theorem get?_empty (key : κ) : (∅ : OrderedMap κ α).get? key = none := rfl

theorem get?_insert (m : OrderedMap κ α) (key : κ) (value : α) (other : κ) :
    (m.insert key value).get? other = if other = key then some value else m.get? other :=
  Entries.lookup_insert key value m.entries other

theorem keys_insert (m : OrderedMap κ α) (key : κ) (value : α) :
    (m.insert key value).keys = if key ∈ m.keys then m.keys else m.keys ++ [key] :=
  Entries.keys_insert key value m.entries

end

end OrderedMap

end Dataflow
