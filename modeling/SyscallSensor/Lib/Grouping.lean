import Mathlib.Data.Finmap

/-! Finite maps that collect the values, or keep the first value, seen for each key. -/
namespace Lib.Grouping
variable {κ ν ρ : Type*} [DecidableEq κ]

abbrev Table (κ ν : Type*) := Finmap fun _ : κ => ν

/-- Append to the list at `k`, which starts empty. -/
def push (m : Table κ (List ν)) (k : κ) (v : ν) : Table κ (List ν) :=
  match m.lookup k with
  | some vs => m.insert k (vs ++ [v])
  | none => m.insert k [v]

/-- Store `v` at `k` unless something is there. -/
def emplace (m : Table κ ν) (k : κ) (v : ν) : Table κ ν :=
  match m.lookup k with
  | some _ => m
  | none => m.insert k v

theorem lookup_push (m : Table κ (List ν)) (k k' : κ) (v : ν) :
    ((push m k v).lookup k').getD [] =
      (m.lookup k').getD [] ++ if k = k' then [v] else [] := by
  rw [push]
  by_cases hk : k = k'
  · rw [hk]
    cases hm : m.lookup k' with
    | none => simp [Finmap.lookup_insert]
    | some vs => simp [Finmap.lookup_insert]
  · have hne : k' ≠ k := fun h => hk h.symm
    cases hm : m.lookup k with
    | none => simp [Finmap.lookup_insert_of_ne, hne, hk]
    | some vs => simp [Finmap.lookup_insert_of_ne, hne, hk]

theorem lookup_emplace (m : Table κ ν) (k k' : κ) (v : ν) :
    (emplace m k v).lookup k' = (m.lookup k').or (if k = k' then some v else none) := by
  rw [emplace]
  by_cases hk : k = k'
  · rw [hk]
    cases hm : m.lookup k' with
    | none => simp [Finmap.lookup_insert]
    | some vs => simp [hm]
  · have hne : k' ≠ k := fun h => hk h.symm
    cases hm : m.lookup k with
    | none => simp [Finmap.lookup_insert_of_ne, hne, hk]
    | some vs => simp [hk]

theorem keys_insert (m : Table κ ν) (k : κ) (v : ν) :
    (m.insert k v).keys = insert k m.keys := by
  ext k'
  rw [Finmap.mem_keys, Finmap.mem_insert, Finset.mem_insert, Finmap.mem_keys]

theorem keys_push (m : Table κ (List ν)) (k : κ) (v : ν) :
    (push m k v).keys = insert k m.keys := by
  rw [push]
  cases m.lookup k with
  | none => exact keys_insert m k [v]
  | some vs => exact keys_insert m k (vs ++ [v])

theorem keys_emplace (m : Table κ ν) (k : κ) (v : ν) :
    (emplace m k v).keys = insert k m.keys := by
  rw [emplace]
  cases hm : m.lookup k with
  | none => exact keys_insert m k v
  | some w =>
    have hmem : k ∈ m.keys := Finmap.mem_keys.mpr (Finmap.mem_of_lookup_eq_some hm)
    rw [Finset.insert_eq_of_mem hmem]

/-- Every value stored satisfies `P`. -/
def AllValues (P : ν → Prop) (m : Table κ ν) : Prop := ∀ k v, m.lookup k = some v → P v

theorem allValues_empty (P : ν → Prop) : AllValues P (∅ : Table κ ν) := by
  intro k v h
  rw [Finmap.lookup_empty] at h
  cases h

theorem allValues_insert {P : ν → Prop} {m : Table κ ν} (h : AllValues P m) (k : κ) {v : ν}
    (hv : P v) : AllValues P (m.insert k v) := by
  intro k' v' hlookup
  by_cases hk : k' = k
  · rw [hk, Finmap.lookup_insert] at hlookup
    rw [← Option.some.inj hlookup]
    exact hv
  · rw [Finmap.lookup_insert_of_ne m hk] at hlookup
    exact h k' v' hlookup

/-- No list that has been pushed to is empty. -/
theorem allValues_push {m : Table κ (List ν)} (h : AllValues (· ≠ []) m) (k : κ) (v : ν) :
    AllValues (· ≠ []) (push m k v) := by
  rw [push]
  cases m.lookup k with
  | none => exact allValues_insert h k (List.cons_ne_nil v [])
  | some vs => exact allValues_insert h k (List.append_ne_nil_of_right_ne_nil vs (List.cons_ne_nil v []))

theorem allValues_emplace {P : ν → Prop} {m : Table κ ν} (h : AllValues P m) (k : κ) {v : ν}
    (hv : P v) : AllValues P (emplace m k v) := by
  rw [emplace]
  cases m.lookup k with
  | none => exact allValues_insert h k hv
  | some w => exact h

section
variable (key : ρ → κ) (val : ρ → ν)

def group (rs : List ρ) : Table κ (List ν) := rs.foldl (fun m r => push m (key r) (val r)) ∅

def firsts (rs : List ρ) : Table κ ν := rs.foldl (fun m r => emplace m (key r) (val r)) ∅

/-- The values with key `k`, in order. -/
def valuesAt (k : κ) (rs : List ρ) : List ν := (rs.filter fun r => key r = k).map val

def firstAt (k : κ) (rs : List ρ) : Option ν := (rs.find? fun r => key r = k).map val

theorem valuesAt_append (k : κ) (rs rs' : List ρ) :
    valuesAt key val k (rs ++ rs') = valuesAt key val k rs ++ valuesAt key val k rs' := by
  rw [valuesAt, List.filter_append, List.map_append]
  rfl

theorem count_valuesAt [DecidableEq ν] (k : κ) (v : ν) (xs : List (κ × ν)) :
    (valuesAt Prod.fst Prod.snd k xs).count v = xs.count (k, v) := by
  induction xs with
  | nil => rfl
  | cons x xs ih =>
    obtain ⟨k', v'⟩ := x
    rw [valuesAt] at ih ⊢
    rw [List.count_cons, ← ih]
    by_cases hk : k' = k
    · rw [List.filter_cons_of_pos (by simpa using hk), List.map_cons, List.count_cons]
      simp [hk]
    · rw [List.filter_cons_of_neg (by simpa using hk)]
      simp [hk]

/-- Pairs that agree key by key are the same up to order. -/
theorem perm_of_valuesAt [DecidableEq ν] {xs ys : List (κ × ν)}
    (h : ∀ k, valuesAt Prod.fst Prod.snd k xs = valuesAt Prod.fst Prod.snd k ys) : xs.Perm ys := by
  rw [List.perm_iff_count]
  intro x
  rw [← count_valuesAt x.1 x.2, h, count_valuesAt]

/-- Grouping loses no value and keeps the order of each key. -/
theorem lookup_group (rs : List ρ) (k : κ) :
    ((group key val rs).lookup k).getD [] = valuesAt key val k rs := by
  induction rs using List.reverseRecOn with
  | nil => rfl
  | append_singleton rs r ih =>
    rw [group, List.foldl_append, List.foldl_cons, List.foldl_nil, lookup_push, valuesAt_append,
      ← ih]
    by_cases hk : key r = k
    · simp [group, valuesAt, hk]
    · simp [group, valuesAt, hk]

theorem lookup_firsts (rs : List ρ) (k : κ) :
    (firsts key val rs).lookup k = firstAt key val k rs := by
  induction rs using List.reverseRecOn with
  | nil => rfl
  | append_singleton rs r ih =>
    rw [firsts, List.foldl_append, List.foldl_cons, List.foldl_nil, lookup_emplace]
    rw [firsts] at ih
    rw [ih, firstAt, firstAt, List.find?_append, Option.map_or]
    by_cases hk : key r = k
    · simp [hk]
    · simp [hk]

/-- A fold whose steps add the key of their item has all of these as its keys. -/
theorem keys_foldl {step : Table κ ν → ρ → Table κ ν}
    (h : ∀ m r, (step m r).keys = insert (key r) m.keys) (rs : List ρ) :
    (rs.foldl step ∅).keys = (rs.map key).toFinset := by
  induction rs using List.reverseRecOn with
  | nil => rfl
  | append_singleton rs r ih =>
    rw [List.foldl_append, List.foldl_cons, List.foldl_nil, h, ih]
    ext k
    simp

theorem keys_group (rs : List ρ) : (group key val rs).keys = (rs.map key).toFinset :=
  keys_foldl key (fun m r => keys_push m (key r) (val r)) rs

theorem keys_firsts (rs : List ρ) : (firsts key val rs).keys = (rs.map key).toFinset :=
  keys_foldl key (fun m r => keys_emplace m (key r) (val r)) rs

end

theorem filter_dlookup {entries : List (Σ _ : κ, List ν)} (h : entries.NodupKeys) (k : κ) :
    (entries.filter fun it => it.1 = k).flatMap (·.2) = (entries.dlookup k).getD [] := by
  induction entries with
  | nil => rfl
  | cons it entries ih =>
    rw [List.nodupKeys_cons] at h
    by_cases hk : it.1 = k
    · obtain ⟨k', vs⟩ := it
      obtain rfl : k' = k := hk
      have hrest : (entries.filter fun it => it.1 = k') = [] := by
        rw [List.filter_eq_nil_iff]
        intro other hother hsame
        have hsame : other.1 = k' := by simpa using hsame
        exact h.1 (List.mem_map.mpr ⟨other, hother, hsame⟩)
      simp [hrest]
    · have hne : k ≠ it.1 := fun h => hk h.symm
      rw [List.filter_cons_of_neg (by simpa using hk), List.dlookup_cons_ne _ _ hne, ih h.2]

/-- Walking the entries in any order meets the list of each key once. -/
theorem entries_values {m : Table κ (List ν)} {order : AList fun _ : κ => List ν}
    (h : order.toFinmap = m) (k : κ) :
    (order.entries.filter fun it => it.1 = k).flatMap (·.2) = (m.lookup k).getD [] := by
  rw [← h, Finmap.lookup_toFinmap]
  exact filter_dlookup order.nodupKeys k

end Lib.Grouping
