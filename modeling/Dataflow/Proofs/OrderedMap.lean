import Mathlib.Data.List.Nodup
import Dataflow.OrderedMap

/-!
# Laws of ordered maps

An ordered map is its list of entries, which has distinct keys: looking a key up is
membership of an entry (`get?_eq_some_iff`), and a list with distinct keys is the list of
entries of the map made from it (`entries_ofList`). Of insertions one after the other the last
one under a key gives its value (`get?_ofList`), and the first one its place
(`keys_ofList_eq_eraseDups`); so lists with the same last values (`SameLast`) make maps that differ
in the order of their entries at most (`perm_ofList_iff`).
-/

namespace Dataflow

/-- Two lists of pairs have the same last value for every key. -/
def SameLast {κ α : Type} [DecidableEq κ] (l l' : List (κ × α)) : Prop :=
  ∀ k, l.reverse.lookup k = l'.reverse.lookup k

/-- What is done to every value keeps the last ones together. -/
theorem SameLast.map {κ α β : Type} [DecidableEq κ] {l l' : List (κ × α)} (h : SameLast l l')
    (f : α → β) : SameLast (l.map fun (k, a) => (k, f a)) (l'.map fun (k, a) => (k, f a)) := by
  have hlookup (l : List (κ × α)) (k : κ) :
      (l.map fun (k, a) => (k, f a)).lookup k = (l.lookup k).map f := by
    induction l with
    | nil => rfl
    | cons entry rest ih =>
      rw [List.map_cons, List.lookup_cons, List.lookup_cons, ih]
      split <;> rfl
  intro k
  rw [← List.map_reverse, ← List.map_reverse, hlookup, hlookup, h k]

namespace OrderedMap

variable {κ α : Type} {m n : OrderedMap κ α} {l l' : List (κ × α)} {k : κ} {a : α}

/-- Two maps with the same keys and the same values, both in order, are equal. -/
theorem ext_keys_values (hk : m.keys = n.keys) (hv : m.values = n.values) : m = n := by
  -- A list of entries is its keys zipped with its values.
  refine OrderedMap.ext ?_
  rw [← List.zip_unzip m.entries, ← List.zip_unzip n.entries, List.unzip_fst, List.unzip_snd,
    List.unzip_fst, List.unzip_snd]
  exact congrArg₂ List.zip hk hv

@[simp] theorem length_keys (m : OrderedMap κ α) : m.keys.length = m.size := List.length_map _

@[simp] theorem length_values (m : OrderedMap κ α) : m.values.length = m.size := List.length_map _

theorem isEmpty_iff : m.isEmpty = true ↔ m.entries = [] := List.isEmpty_iff

theorem first?_eq_none_iff : m.first? = none ↔ m.entries = [] := by
  rw [first?, Option.map_eq_none_iff, List.head?_eq_none_iff]

variable [DecidableEq κ]

theorem get?_eq_some_iff : m.get? k = some a ↔ (k, a) ∈ m.entries := by
  obtain ⟨l, hl⟩ := m
  show l.lookup k = some a ↔ (k, a) ∈ l
  induction l with
  | nil => simp
  | cons entry rest ih =>
    obtain ⟨k', a'⟩ := entry
    rw [List.map_cons, List.nodup_cons] at hl
    rw [List.lookup_cons, List.mem_cons, Prod.mk.injEq]
    by_cases h : k = k'
    · -- The key is not found again among the other entries.
      subst h
      have hrest : (k, a) ∉ rest := fun hm => hl.1 (List.mem_map.2 ⟨_, hm, rfl⟩)
      simp [hrest, eq_comm]
    · rw [beq_false_of_ne h]
      simp [h, ih hl.2]

theorem isSome_get?_iff : (m.get? k).isSome ↔ k ∈ m.keys := by
  rw [Option.isSome_iff_exists, keys, List.mem_map]
  constructor
  · rintro ⟨a, ha⟩
    exact ⟨(k, a), get?_eq_some_iff.1 ha, rfl⟩
  · rintro ⟨⟨_, a⟩, ha, rfl⟩
    exact ⟨a, get?_eq_some_iff.2 ha⟩

theorem get?_eq_none_iff : m.get? k = none ↔ k ∉ m.keys := by
  rw [← isSome_get?_iff, Option.not_isSome_iff_eq_none]

/-- The values stand in the order of the keys. -/
theorem getElem?_values {i : Nat} (h : m.keys[i]? = some k) : m.values[i]? = m.get? k := by
  rw [keys, List.getElem?_map] at h
  obtain ⟨entry, hentry, rfl⟩ := Option.map_eq_some_iff.1 h
  rw [values, List.getElem?_map, hentry, get?_eq_some_iff.2 (List.mem_of_getElem? hentry)]
  rfl

/-- The first value is the value of the first key. -/
theorem first?_eq_some_iff :
    m.first? = some a ↔ ∃ k, m.keys.head? = some k ∧ m.get? k = some a := by
  rw [first?, keys, List.head?_map]
  constructor
  · intro h
    obtain ⟨⟨k, a'⟩, hentry, rfl⟩ := Option.map_eq_some_iff.1 h
    exact ⟨k, by rw [hentry]; rfl, get?_eq_some_iff.2 (List.mem_of_mem_head? hentry)⟩
  · rintro ⟨k, hk, ha⟩
    obtain ⟨⟨k', a'⟩, hentry, rfl⟩ := Option.map_eq_some_iff.1 hk
    -- A key has one value.
    have hvalue : m.get? k' = some a' := get?_eq_some_iff.2 (List.mem_of_mem_head? hentry)
    rw [hentry, ← ha, hvalue]
    rfl

theorem contains_iff : m.contains k = true ↔ k ∈ m.keys := decide_eq_true_iff

theorem keys_erase : (m.erase k).keys = m.keys.filter fun k' => !decide (k' = k) := by
  rw [keys, keys, List.filter_map]
  rfl

/-- A filter that drops a key does not see whether it was inserted. -/
theorem filter_keys_insert {p : κ → Bool} (h : p k = false) :
    (m.insert k a).keys.filter p = m.keys.filter p := by
  rw [keys_insert]
  split
  · rfl
  · rw [List.filter_append, List.filter_singleton, h]
    exact List.append_nil _

/-- A filter that drops a key does not see whether it was erased. -/
theorem filter_keys_erase {p : κ → Bool} (h : p k = false) :
    (m.erase k).keys.filter p = m.keys.filter p := by
  rw [keys_erase, List.filter_filter]
  refine List.filter_congr fun k' _ => ?_
  by_cases hk : k' = k
  · simp [hk, h]
  · simp [hk]

/-- Erasing a key changes no other look-up. -/
theorem get?_erase_of_ne {k' : κ} (h : k' ≠ k) : (m.erase k).get? k' = m.get? k' := by
  refine Option.ext fun a => ?_
  rw [get?_eq_some_iff, get?_eq_some_iff, erase, List.mem_filter]
  simp [h]

/-- Maps that list the same entries are those with the same look-ups. -/
theorem perm_entries_iff : m.entries.Perm n.entries ↔ ∀ k, m.get? k = n.get? k := by
  rw [List.perm_ext_iff_of_nodup (.of_map _ m.nodup) (.of_map _ n.nodup)]
  constructor
  · exact fun h k => Option.ext fun a => by rw [get?_eq_some_iff, get?_eq_some_iff, h]
  · exact fun h (k, a) => by rw [← get?_eq_some_iff, ← get?_eq_some_iff, h k]

/-- An insertion keeps maps together that list the same entries. -/
theorem perm_insert (h : m.entries.Perm n.entries) (k : κ) (a : α) :
    (m.insert k a).entries.Perm (n.insert k a).entries :=
  perm_entries_iff.2 fun k' => by rw [get?_insert, get?_insert, perm_entries_iff.1 h k']

/-- An entry after an insertion is the new one or was there before. -/
theorem mem_entries_insert {entry : κ × α} (h : entry ∈ (m.insert k a).entries) :
    entry = (k, a) ∨ entry ∈ m.entries := by
  obtain ⟨k', a'⟩ := entry
  rw [← get?_eq_some_iff, get?_insert] at h
  by_cases hk : k' = k
  · rw [if_pos hk, Option.some.injEq] at h
    exact .inl (by rw [hk, h])
  · rw [if_neg hk] at h
    exact .inr (get?_eq_some_iff.1 h)

theorem entries_insert_of_not_mem (h : k ∉ m.keys) :
    (m.insert k a).entries = m.entries ++ [(k, a)] := by
  obtain ⟨l, hl⟩ := m
  show Entries.insert k a l = l ++ [(k, a)]
  have hk : k ∉ l.map Prod.fst := h
  clear h hl
  induction l with
  | nil => rfl
  | cons entry rest ih =>
    rw [List.map_cons, List.mem_cons, not_or] at hk
    rw [Entries.insert, if_neg (Ne.symm hk.1), ih hk.2, List.cons_append]

/-- Inserting the value that a key has changes nothing. -/
theorem insert_of_get?_eq_some (h : m.get? k = some a) : m.insert k a = m := by
  obtain ⟨l, hl⟩ := m
  refine OrderedMap.ext ?_
  show Entries.insert k a l = l
  have hk : l.lookup k = some a := h
  clear h hl
  induction l with
  | nil => cases hk
  | cons entry rest ih =>
    obtain ⟨k', a'⟩ := entry
    rw [List.lookup_cons] at hk
    by_cases h : k' = k
    · subst h
      rw [beq_self_eq_true] at hk
      rw [Entries.insert, if_pos rfl, Option.some.inj hk]
    · rw [beq_false_of_ne (Ne.symm h)] at hk
      rw [Entries.insert, if_neg h, ih hk]

/-- Of two insertions under a key the later one counts. -/
@[simp] theorem insert_insert (m : OrderedMap κ α) (k : κ) (a b : α) :
    (m.insert k a).insert k b = m.insert k b := by
  obtain ⟨l, hl⟩ := m
  refine OrderedMap.ext ?_
  show Entries.insert k b (Entries.insert k a l) = Entries.insert k b l
  clear hl
  induction l with
  | nil => simp [Entries.insert]
  | cons entry rest ih =>
    by_cases h : entry.1 = k
    · simp [Entries.insert, h]
    · simp only [Entries.insert, if_neg h, ih]

theorem entries_foldl_insert (h : ((m.entries ++ l).map Prod.fst).Nodup) :
    (l.foldl (fun m entry => m.insert entry.1 entry.2) m).entries = m.entries ++ l := by
  induction l generalizing m with
  | nil => simp
  | cons entry rest ih =>
    have hk : entry.1 ∉ m.keys := by
      rw [List.map_append, List.map_cons] at h
      exact fun hm => List.disjoint_of_nodup_append h hm List.mem_cons_self
    rw [List.foldl_cons, ih, entries_insert_of_not_mem hk]
    · simp
    · rw [entries_insert_of_not_mem hk]
      simpa using h

/-- A list of pairs with distinct keys is the list of entries of its map. -/
theorem entries_ofList (h : (l.map Prod.fst).Nodup) : (ofList l).entries = l := by
  rw [ofList, entries_foldl_insert (by simpa [EmptyCollection.emptyCollection] using h)]
  rfl

theorem keys_ofList (h : (l.map Prod.fst).Nodup) : (ofList l).keys = l.map Prod.fst := by
  rw [keys, entries_ofList h]

/-! ## Insertions one after the other -/

theorem get?_foldl_insert (m : OrderedMap κ α) (l : List (κ × α)) (k : κ) :
    (l.foldl (fun m entry => m.insert entry.1 entry.2) m).get? k =
      (l.reverse.lookup k).or (m.get? k) := by
  induction l generalizing m with
  | nil => rfl
  | cons entry rest ih =>
    rw [List.foldl_cons, ih, get?_insert, List.reverse_cons, List.lookup_append, Option.or_assoc,
      List.lookup_cons]
    by_cases h : k = entry.1
    · rw [if_pos h, beq_iff_eq.2 h]
      rfl
    · rw [if_neg h, beq_false_of_ne h]
      rfl

/-- Of the pairs with a key the last one counts. -/
theorem get?_ofList (l : List (κ × α)) (k : κ) : (ofList l).get? k = l.reverse.lookup k := by
  rw [ofList, get?_foldl_insert, get?_empty, Option.or_none]

theorem keys_foldl_insert (m : OrderedMap κ α) (l : List (κ × α)) :
    (l.foldl (fun m entry => m.insert entry.1 entry.2) m).keys =
      m.keys ++ ((l.map Prod.fst).removeAll m.keys).eraseDups := by
  induction l generalizing m with
  | nil => simp [List.removeAll]
  | cons entry rest ih =>
    rw [List.foldl_cons, ih, keys_insert, List.map_cons, List.cons_removeAll]
    by_cases h : entry.1 ∈ m.keys
    · simp [h]
    · -- A new key comes next and is not taken again.
      have hrest : (rest.map Prod.fst).removeAll (m.keys ++ [entry.1]) =
          ((rest.map Prod.fst).removeAll m.keys).filter fun k => !k == entry.1 := by
        rw [List.removeAll, List.removeAll, List.filter_filter]
        refine List.filter_congr fun k _ => ?_
        simp [Bool.and_comm, beq_eq_decide]
      rw [if_neg h, hrest]
      simp [h, List.eraseDups_cons]

/-- The keys stand in the order in which they come first. -/
theorem keys_ofList_eq_eraseDups (l : List (κ × α)) :
    (ofList l).keys = (l.map Prod.fst).eraseDups := by
  rw [ofList, keys_foldl_insert, keys_empty, List.nil_append, List.removeAll]
  simp

/-- Lists with the same last values are those that are collected to the same entries. -/
theorem perm_ofList_iff : (ofList l).entries.Perm (ofList l').entries ↔ SameLast l l' := by
  simp only [perm_entries_iff, get?_ofList, SameLast]

end OrderedMap

end Dataflow
