import Mathlib

/-! # Maps that remember the order of insertion

The `Map` of a scripting language lists its entries in the order in which their keys were first set, and a
key that is set again keeps its place.  An `InsertionMap` is the list of these entries, with no key twice.

* `get_set_self`, `get_set_of_ne`: what is found after `set`.
* `mem_entries`: the entries are the pairs that are found.
* `get_ofList`: the map of a list of pairs with distinct keys. -/

variable {κ ν : Type*}

structure InsertionMap (κ ν : Type*) where
  entries : List (κ × ν)
  nodup : (entries.map Prod.fst).Nodup

namespace InsertionMap

def empty : InsertionMap κ ν := ⟨[], List.nodup_nil⟩

def keys (m : InsertionMap κ ν) : List κ := m.entries.map Prod.fst

def values (m : InsertionMap κ ν) : List ν := m.entries.map Prod.snd

theorem keys_filter_sublist (p : κ × ν → Bool) (l : List (κ × ν)) :
    ((l.filter p).map Prod.fst).Sublist (l.map Prod.fst) := List.filter_sublist.map _

def filter (p : κ × ν → Bool) (m : InsertionMap κ ν) : InsertionMap κ ν :=
  ⟨m.entries.filter p, m.nodup.sublist (keys_filter_sublist p m.entries)⟩

variable [DecidableEq κ]

def get (m : InsertionMap κ ν) (k : κ) : Option ν := (m.entries.find? fun e => e.1 = k).map Prod.snd

/-- The entries with one more, or with another value at its key. -/
def setEntry (k : κ) (v : ν) : List (κ × ν) → List (κ × ν)
  | [] => [(k, v)]
  | e :: l => if e.1 = k then (k, v) :: l else e :: setEntry k v l

theorem setEntry_keys (k : κ) (v : ν) (l : List (κ × ν)) :
    (setEntry k v l).map Prod.fst = if k ∈ l.map Prod.fst then l.map Prod.fst else l.map Prod.fst ++ [k] := by
  induction l with
  | nil => rfl
  | cons e l ih =>
      unfold setEntry
      by_cases h : e.1 = k
      · subst h
        rw [if_pos rfl, List.map_cons, List.map_cons, if_pos List.mem_cons_self]
      · have hmem : k ∈ (e :: l).map Prod.fst ↔ k ∈ l.map Prod.fst := by
          rw [List.map_cons, List.mem_cons, or_iff_right (Ne.symm h)]
        rw [if_neg h, List.map_cons, ih, if_congr hmem rfl rfl, List.map_cons]
        split <;> rfl

theorem setEntry_nodup {k : κ} {v : ν} {l : List (κ × ν)} (h : (l.map Prod.fst).Nodup) :
    ((setEntry k v l).map Prod.fst).Nodup := by
  rw [setEntry_keys]
  split
  · exact h
  · next hk => exact List.nodup_append.mpr ⟨h, List.nodup_singleton k, fun a ha b hb hab =>
      hk ((List.mem_singleton.mp hb) ▸ hab ▸ ha)⟩

def set (m : InsertionMap κ ν) (k : κ) (v : ν) : InsertionMap κ ν := ⟨setEntry k v m.entries, setEntry_nodup m.nodup⟩

/-- `new Map(pairs)` -/
def ofList (l : List (κ × ν)) : InsertionMap κ ν := l.foldl (fun m e => m.set e.1 e.2) empty

variable {m : InsertionMap κ ν} {k k' : κ} {v : ν}

@[simp] theorem get_empty : (empty : InsertionMap κ ν).get k = none := rfl

theorem find_setEntry_self (l : List (κ × ν)) : (setEntry k v l).find? (fun e => e.1 = k) = some (k, v) := by
  induction l with
  | nil => simp [setEntry]
  | cons e l ih =>
      unfold setEntry
      split
      · simp
      · next h => rw [List.find?_cons_of_neg (by simpa using h), ih]

theorem find_setEntry_of_ne (h : k' ≠ k) (l : List (κ × ν)) :
    (setEntry k v l).find? (fun e => e.1 = k') = l.find? (fun e => e.1 = k') := by
  induction l with
  | nil => simp [setEntry, Ne.symm h]
  | cons e l ih =>
      unfold setEntry
      split
      · next hk =>
          rw [List.find?_cons_of_neg (by simpa using Ne.symm h), List.find?_cons_of_neg]
          rw [hk]
          simpa using Ne.symm h
      · rw [List.find?_cons, List.find?_cons, ih]

@[simp] theorem get_set_self : (m.set k v).get k = some v := by
  unfold get
  rw [set, find_setEntry_self]
  rfl

theorem get_set_of_ne (h : k' ≠ k) : (m.set k v).get k' = m.get k' := by
  unfold get
  rw [set, find_setEntry_of_ne h]

/-- The entries are the pairs that are found. -/
theorem mem_entries : (k, v) ∈ m.entries ↔ m.get k = some v := by
  unfold get
  rw [Option.map_eq_some_iff]
  constructor
  · intro hmem
    refine ⟨(k, v), ?_, rfl⟩
    obtain ⟨e, he⟩ : ∃ e, m.entries.find? (fun e => e.1 = k) = some e :=
      Option.isSome_iff_exists.mp (List.find?_isSome.mpr ⟨_, hmem, by simp⟩)
    have hkey : e.1 = k := by simpa using List.find?_some he
    rw [he, List.inj_on_of_nodup_map m.nodup (List.mem_of_find?_eq_some he) hmem hkey]
  · rintro ⟨e, he, rfl⟩
    have hkey : e.1 = k := by simpa using List.find?_some he
    rw [← hkey]
    exact List.mem_of_find?_eq_some he

theorem mem_keys : k ∈ m.keys ↔ ∃ v, m.get k = some v := by
  simp only [keys, List.mem_map, Prod.exists, exists_and_right, exists_eq_right, mem_entries]

theorem get_filter {p : κ × ν → Bool} : (m.filter p).get k = some v ↔ m.get k = some v ∧ p (k, v) = true := by
  rw [← mem_entries, ← mem_entries]
  exact List.mem_filter

theorem mem_values : v ∈ m.values ↔ ∃ k, m.get k = some v := by
  simp only [values, List.mem_map, Prod.exists, exists_eq_right, mem_entries]

theorem get_foldl_set {l : List (κ × ν)} (h : (l.map Prod.fst).Nodup) (m : InsertionMap κ ν) :
    (l.foldl (fun m e => m.set e.1 e.2) m).get k = some v ↔
      (k, v) ∈ l ∨ k ∉ l.map Prod.fst ∧ m.get k = some v := by
  induction l generalizing m with
  | nil => simp
  | cons e l ih =>
      obtain ⟨hnot, hl⟩ := List.nodup_cons.mp h
      rw [List.foldl_cons, ih hl, List.map_cons, List.mem_cons, List.mem_cons]
      by_cases hk : k = e.1
      · subst hk
        have hno : (e.1, v) ∉ l := fun hmem => hnot (List.mem_map.mpr ⟨_, hmem, rfl⟩)
        rw [get_set_self, or_iff_right hno, and_iff_right hnot, Option.some_inj]
        simp [hno, Prod.ext_iff, eq_comm]
      · rw [get_set_of_ne hk]
        simp [hk, Prod.ext_iff]

theorem get_ofList {l : List (κ × ν)} (h : (l.map Prod.fst).Nodup) : (ofList l).get k = some v ↔ (k, v) ∈ l := by
  unfold ofList
  rw [get_foldl_set h]
  simp

end InsertionMap
