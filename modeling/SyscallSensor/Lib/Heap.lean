import Mathlib.Data.List.Perm.Basic
import Mathlib.Data.List.ReduceOption

/-! Objects on a heap. `new` never hands out an address twice, so that an address whose object has
been deleted stays dangling, and who holds which addresses says what may be deleted. -/
namespace Lib
variable {α : Type*}

abbrev Address := Nat

/- The object at each address that was ever handed out, as long as it lives. -/
structure Heap (α : Type*) where
  cells : List (Option α) := []
deriving DecidableEq, Repr

namespace Heap

def deref (h : Heap α) (a : Address) : Option α := h.cells[a]?.join

def new (h : Heap α) (x : α) : Address × Heap α := (h.cells.length, ⟨h.cells ++ [some x]⟩)

/- A store into an object, and its end; both need an object that lives. -/
def put (h : Heap α) (a : Address) (x : α) : Option (Heap α) :=
  (h.deref a).map fun _ => ⟨h.cells.set a (some x)⟩

def delete (h : Heap α) (a : Address) : Option (Heap α) :=
  (h.deref a).map fun _ => ⟨h.cells.set a none⟩

/-- The objects that a list of pointers shows, null pointers among them. -/
def read (h : Heap α) (q : List (Option Address)) : List (Option α) := q.map fun p => p.bind h.deref

/- The same for addresses. -/
def objects (h : Heap α) (addresses : List Address) : List α := addresses.filterMap h.deref

/-- The addresses of the objects that live are these, each once. -/
structure Owns (h : Heap α) (owned : List Address) : Prop where
  distinct : owned.Nodup
  live : ∀ a, a ∈ owned ↔ ∃ x, h.deref a = some x

section
variable {h g : Heap α} {a b : Address} {x : α} {owned owned' : List Address}
  {q q' : List (Option Address)}

theorem deref_set (y : Option α) (hlive : h.deref a = some x) :
    (⟨h.cells.set a y⟩ : Heap α).deref b = if b = a then y else h.deref b := by
  have hlt : a < h.cells.length := by
    by_contra hle
    rw [deref, List.getElem?_eq_none (Nat.not_lt.mp hle)] at hlive
    cases hlive
  by_cases hab : b = a
  · subst hab
    simp [deref, hlt]
  · have hba : a ≠ b := fun heq => hab heq.symm
    simp [deref, hab, hba]

theorem deref_new : (h.new x).2.deref b = if b = (h.new x).1 then some x else h.deref b := by
  by_cases hb : b = h.cells.length
  · simp [deref, new, hb]
  · by_cases hlt : b < h.cells.length
    · simp [deref, new, hb, List.getElem?_append_left hlt]
    · have hbeyond : h.cells.length < b := Nat.lt_of_le_of_ne (Nat.not_lt.mp hlt) (Ne.symm hb)
      have hnone : (h.cells ++ [some x])[b]? = none := by
        rw [List.getElem?_eq_none_iff, List.length_append, List.length_singleton]
        exact Nat.succ_le_of_lt hbeyond
      simp [deref, new, hb, hnone, List.getElem?_eq_none (Nat.le_of_lt hbeyond)]

theorem deref_new_address : h.deref (h.new x).1 = none := by simp [deref, new]

/-- What lives is not at the new address. -/
theorem deref_new_live {y : α} (hlive : h.deref a = some x) : (h.new y).2.deref a = some x := by
  have hne : a ≠ (h.new y).1 := by
    rintro rfl
    rw [deref_new_address] at hlive
    cases hlive
  rw [deref_new, if_neg hne, hlive]

theorem deref_put {y : α} (hput : h.put a y = some g) :
    g.deref b = if b = a then some y else h.deref b := by
  obtain ⟨x, hlive, rfl⟩ := Option.map_eq_some_iff.mp hput
  exact deref_set _ hlive

theorem deref_delete (hdelete : h.delete a = some g) :
    g.deref b = if b = a then none else h.deref b := by
  obtain ⟨x, hlive, rfl⟩ := Option.map_eq_some_iff.mp hdelete
  exact deref_set _ hlive

namespace Owns

theorem perm (hown : h.Owns owned) (hperm : owned.Perm owned') : h.Owns owned' :=
  ⟨hperm.nodup_iff.mp hown.distinct, fun b => hperm.mem_iff.symm.trans (hown.live b)⟩

theorem deref (hown : h.Owns owned) (ha : a ∈ owned) : ∃ x, h.deref a = some x :=
  (hown.live a).mp ha

theorem put (hown : h.Owns owned) (ha : a ∈ owned) (y : α) : ∃ g, h.put a y = some g := by
  obtain ⟨x, hx⟩ := hown.deref ha
  exact ⟨_, Option.map_eq_some_iff.mpr ⟨x, hx, rfl⟩⟩

theorem delete (hown : h.Owns owned) (ha : a ∈ owned) : ∃ g, h.delete a = some g := by
  obtain ⟨x, hx⟩ := hown.deref ha
  exact ⟨_, Option.map_eq_some_iff.mpr ⟨x, hx, rfl⟩⟩

theorem none_left (hown : h.Owns []) (a : Address) : h.deref a = none :=
  Option.eq_none_iff_forall_ne_some.mpr fun x hx => List.not_mem_nil ((hown.live a).mpr ⟨x, hx⟩)

theorem after_new (hown : h.Owns owned) (x : α) : (h.new x).2.Owns ((h.new x).1 :: owned) := by
  have hfresh : (h.new x).1 ∉ owned := by
    intro hmem
    obtain ⟨y, hy⟩ := hown.deref hmem
    rw [deref_new_address] at hy
    cases hy
  refine ⟨List.nodup_cons.mpr ⟨hfresh, hown.distinct⟩, fun b => ?_⟩
  rw [deref_new, List.mem_cons, hown.live]
  by_cases hb : b = (h.new x).1
  · simp [hb]
  · simp [hb]

theorem after_put {y : α} (hown : h.Owns owned) (hput : h.put a y = some g) : g.Owns owned := by
  obtain ⟨x, hx, -⟩ := Option.map_eq_some_iff.mp hput
  refine ⟨hown.distinct, fun b => ?_⟩
  rw [deref_put hput, hown.live]
  by_cases hb : b = a
  · simp [hb, hx]
  · simp [hb]

theorem after_delete (hown : h.Owns (a :: owned)) (hdelete : h.delete a = some g) :
    g.Owns owned := by
  obtain ⟨hnot, hdistinct⟩ := List.nodup_cons.mp hown.distinct
  refine ⟨hdistinct, fun b => ?_⟩
  rw [deref_delete hdelete]
  by_cases hb : b = a
  · simp [hb, hnot]
  · simp [hb, ← hown.live b]

/- What stays as it is at the addresses held by others. -/

theorem same_new (hown : h.Owns owned) (x : α) : ∀ b ∈ owned, (h.new x).2.deref b = h.deref b := by
  intro b hb
  obtain ⟨y, hy⟩ := hown.deref hb
  rw [deref_new_live hy, hy]

theorem same_put {y : α} (hown : h.Owns (a :: owned)) (hput : h.put a y = some g) :
    ∀ b ∈ owned, g.deref b = h.deref b := by
  intro b hb
  have hne : b ≠ a := fun heq => (List.nodup_cons.mp hown.distinct).1 (heq ▸ hb)
  rw [deref_put hput, if_neg hne]

theorem same_delete (hown : h.Owns (a :: owned)) (hdelete : h.delete a = some g) :
    ∀ b ∈ owned, g.deref b = h.deref b := by
  intro b hb
  have hne : b ≠ a := fun heq => (List.nodup_cons.mp hown.distinct).1 (heq ▸ hb)
  rw [deref_delete hdelete, if_neg hne]

end Owns

@[simp] theorem read_nil : h.read [] = [] := rfl

@[simp] theorem read_none : h.read (none :: q) = none :: h.read q := rfl

@[simp] theorem read_some : h.read (some a :: q) = h.deref a :: h.read q := rfl

@[simp] theorem read_append : h.read (q ++ q') = h.read q ++ h.read q' := List.map_append

theorem read_congr (hsame : ∀ a ∈ q.reduceOption, g.deref a = h.deref a) : g.read q = h.read q := by
  apply List.map_congr_left
  intro p hp
  cases p with
  | none => rfl
  | some a => exact hsame a (List.reduceOption_mem_iff.mpr hp)

@[simp] theorem objects_append {addresses addresses' : List Address} :
    h.objects (addresses ++ addresses') = h.objects addresses ++ h.objects addresses' :=
  List.filterMap_append

theorem objects_new : (h.new x).2.objects [(h.new x).1] = [x] := by
  simp [objects, deref_new]

theorem objects_congr {addresses : List Address} (hsame : ∀ a ∈ addresses, g.deref a = h.deref a) :
    g.objects addresses = h.objects addresses :=
  List.filterMap_congr hsame

/-- Pointers to objects that live show these objects. -/
theorem read_map_some {addresses : List Address} (hown : h.Owns owned)
    (hsub : ∀ a ∈ addresses, a ∈ owned) :
    h.read (addresses.map some) = (h.objects addresses).map some := by
  induction addresses with
  | nil => rfl
  | cons a addresses ih =>
    obtain ⟨x, hx⟩ := hown.deref (hsub a List.mem_cons_self)
    rw [List.map_cons, read_some, ih fun b hb => hsub b (List.mem_cons_of_mem a hb), objects,
      objects, List.filterMap_cons, hx, List.map_cons]

/-- Where no object shows, there is no pointer to one that lives. -/
theorem reduceOption_of_read (hown : h.Owns owned) (hsub : ∀ a ∈ q.reduceOption, a ∈ owned)
    (hnone : (h.read q).reduceOption = []) : q.reduceOption = [] := by
  rw [List.eq_nil_iff_forall_not_mem]
  intro a ha
  obtain ⟨x, hx⟩ := hown.deref (hsub a ha)
  have hmem : some x ∈ h.read q :=
    List.mem_map.mpr ⟨some a, List.reduceOption_mem_iff.mp ha, hx⟩
  rw [← List.reduceOption_mem_iff, hnone] at hmem
  exact List.not_mem_nil hmem

end
end Heap
end Lib
