/-!
# Numbered tables

Rows are numbered from zero in the order in which they are added, and none is ever removed, so a
number stays good for as long as the table is kept.
-/

namespace HeapLedger

structure Table (α : Type) where
  rows : List α := []
  deriving Inhabited

namespace Table

variable {α : Type}

def size (t : Table α) : Nat := t.rows.length

/-- The row with a number; the default row beyond the end. -/
def get [Inhabited α] (t : Table α) (i : Nat) : α := t.rows.getD i default

/-- Adds a row, whose number is the old size. -/
def add (t : Table α) (a : α) : Table α := ⟨t.rows ++ [a]⟩

def modify (t : Table α) (i : Nat) (f : α → α) : Table α := ⟨t.rows.modify i f⟩

def map (t : Table α) (f : α → α) : Table α := ⟨t.rows.map f⟩

theorem size_add (t : Table α) (a : α) : (t.add a).size = t.size + 1 := by
  simp [size, add]

theorem size_modify (t : Table α) (i : Nat) (f : α → α) : (t.modify i f).size = t.size := by
  simp [size, modify]

theorem get_modify [Inhabited α] (t : Table α) (i j : Nat) (f : α → α) :
    (t.modify i f).get j = if i = j ∧ i < t.size then f (t.get j) else t.get j := by
  simp only [get, modify, size, List.getD_eq_getElem?_getD, List.getElem?_modify]
  by_cases h : j < t.rows.length
  · by_cases hij : i = j
    · subst hij; simp [h]
    · simp [h, hij]
  · have hn : t.rows[j]? = none := List.getElem?_eq_none (by omega)
    have : ¬ (i = j ∧ i < t.rows.length) := by omega
    simp [hn, this]

theorem get_modify_self [Inhabited α] {t : Table α} {i : Nat} (f : α → α) (h : i < t.size) :
    (t.modify i f).get i = f (t.get i) := by
  simp [get_modify, h]

theorem get_modify_ne [Inhabited α] (t : Table α) {i j : Nat} (f : α → α) (h : i ≠ j) :
    (t.modify i f).get j = t.get j := by
  simp [get_modify, h]

/-- What a change of rows keeps is the same in every row. -/
theorem get_modify_of_eq [Inhabited α] {β : Type} (t : Table α) (i j : Nat) {f : α → α} (g : α → β)
    (h : ∀ a, g (f a) = g a) : g ((t.modify i f).get j) = g (t.get j) := by
  rw [get_modify]
  split
  · exact h _
  · rfl

theorem modify_modify (t : Table α) (i : Nat) (f g : α → α) : (t.modify i f).modify i g = t.modify i (g ∘ f) :=
  congrArg Table.mk (List.modify_modify_eq ..)

theorem modify_id (t : Table α) (i : Nat) : t.modify i (fun a => a) = t :=
  congrArg mk (List.modify_id ..)

/-- Only what happens to the row itself matters. -/
theorem modify_congr [Inhabited α] {t : Table α} {i : Nat} {f g : α → α} (h : f (t.get i) = g (t.get i)) :
    t.modify i f = t.modify i g := by
  refine congrArg mk (List.ext_getElem? fun j => ?_)
  rw [List.getElem?_modify, List.getElem?_modify]
  by_cases hij : i = j
  · subst hij
    cases ha : t.rows[i]? with
    | none => rfl
    | some a =>
      rw [get, List.getD_eq_getElem?_getD, ha] at h
      simpa using h
  · simp [hij]

theorem get_of_size_le [Inhabited α] {t : Table α} {i : Nat} (h : t.size ≤ i) : t.get i = default := by
  simp [get, List.getD_eq_getElem?_getD, List.getElem?_eq_none h]

/-- What is not so of the default row is so only of rows that are there. -/
theorem lt_size_of_get [Inhabited α] {t : Table α} {i : Nat} (P : α → Prop) (hd : ¬ P default) (h : P (t.get i)) :
    i < t.size :=
  Nat.lt_of_not_le fun hge => hd (get_of_size_le hge ▸ h)

theorem get_eq_getElem [Inhabited α] {t : Table α} {i : Nat} (h : i < t.rows.length) : t.get i = t.rows[i] := by
  simp [get, List.getD_eq_getElem?_getD, h]

/-- A row is one of the table, or the default row beyond the end. -/
theorem get_mem [Inhabited α] (t : Table α) (i : Nat) : t.get i ∈ t.rows ∨ t.get i = default := by
  rw [get, List.getD_eq_getElem?_getD]
  cases h : t.rows[i]? with
  | none => exact .inr rfl
  | some a => exact .inl (List.mem_of_getElem? h)

theorem get_map [Inhabited α] (t : Table α) (i : Nat) {f : α → α} (h : f default = default) :
    (t.map f).get i = f (t.get i) := by
  simp only [get, map, List.getD_eq_getElem?_getD, List.getElem?_map]
  cases t.rows[i]? with
  | none => exact h.symm
  | some a => rfl

theorem size_map (t : Table α) (f : α → α) : (t.map f).size = t.size := List.length_map ..

/-- A change of all rows that is undone by another one. -/
theorem map_map_of_eq (t : Table α) {f g : α → α} (h : ∀ a, f (g a) = f a) : (t.map g).map f = t.map f := by
  simp [map, Function.comp_def, h]

theorem map_add (t : Table α) (a : α) (f : α → α) : (t.add a).map f = (t.map f).add (f a) :=
  congrArg mk (List.map_append ..)

/-- A change of one row is seen through a change of all rows as another one. -/
theorem map_modify (t : Table α) (i : Nat) {f g g' : α → α} (h : ∀ a, f (g a) = g' (f a)) :
    (t.modify i g).map f = (t.map f).modify i g' := by
  refine congrArg mk (List.ext_getElem? fun j => ?_)
  simp only [modify, map, List.getElem?_map, List.getElem?_modify]
  by_cases hij : i = j <;> simp [hij, Option.map_map, Function.comp_def, h]

/-- A change of one row is not seen through what it keeps. -/
theorem map_modify_of_eq (t : Table α) (i : Nat) {f g : α → α} (h : ∀ a, f (g a) = f a) :
    (t.modify i g).map f = t.map f := by
  refine congrArg mk (List.ext_getElem? fun j => ?_)
  simp only [modify, List.getElem?_map, List.getElem?_modify]
  by_cases hij : i = j <;> simp [hij, Option.map_map, Function.comp_def, h]

/-- Changes of different rows may change places, and so may changes of one row that commute. -/
theorem modify_comm (t : Table α) {i j : Nat} {f g : α → α} (h : i = j → ∀ a, f (g a) = g (f a)) :
    (t.modify i f).modify j g = (t.modify j g).modify i f := by
  refine congrArg mk (List.ext_getElem? fun n => ?_)
  simp only [modify, List.getElem?_modify]
  by_cases hi : i = n
  · by_cases hj : j = n
    · have hfg := h (hi.trans hj.symm)
      simp [hi, hj, Option.map_map, Function.comp_def, hfg]
    · simp [hi, hj]
  · simp [hi]

theorem modify_add (t : Table α) {i : Nat} (h : i < t.size) (f : α → α) (a : α) :
    (t.add a).modify i f = (t.modify i f).add a := by
  refine congrArg mk (List.ext_getElem? fun n => ?_)
  simp only [modify, add, List.getElem?_modify, List.getElem?_append, List.length_modify]
  by_cases hn : n < t.rows.length
  · simp [hn]
  · have hi : i ≠ n := fun hi => hn (hi ▸ h)
    simp [hn, hi]

theorem get_add [Inhabited α] (t : Table α) (a : α) (j : Nat) :
    (t.add a).get j = if j = t.size then a else t.get j := by
  simp only [get, add, size, List.getD_eq_getElem?_getD, List.getElem?_append]
  split
  · have : j ≠ t.rows.length := by omega
    simp [this]
  · by_cases h : j = t.rows.length
    · simp [h]
    · have h1 : ([a] : List α)[j - t.rows.length]? = none := List.getElem?_eq_none (by simp; omega)
      have h2 : t.rows[j]? = none := List.getElem?_eq_none (by omega)
      simp [h, h1, h2]

end Table

end HeapLedger
