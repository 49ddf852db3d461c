/-!
# Directories

A directory keeps one value per key. A key that is put again replaces its value.
-/

namespace HeapLedger

structure Directory (κ α : Type) where
  entries : List (κ × α) := []
  deriving Inhabited

namespace Directory

variable {κ α : Type} [DecidableEq κ]

def find? (d : Directory κ α) (k : κ) : Option α := (d.entries.find? (·.1 = k)).map (·.2)

def erase (d : Directory κ α) (k : κ) : Directory κ α := ⟨d.entries.filter (·.1 ≠ k)⟩

def put (d : Directory κ α) (k : κ) (a : α) : Directory κ α := ⟨(d.erase k).entries ++ [(k, a)]⟩

/-- Puts a value, or erases the key when there is none. -/
def set (d : Directory κ α) (k : κ) : Option α → Directory κ α
  | some a => d.put k a
  | none => d.erase k

theorem mem_of_find? {d : Directory κ α} {k : κ} {a : α} (h : d.find? k = some a) : (k, a) ∈ d.entries := by
  obtain ⟨e, he, rfl⟩ := Option.map_eq_some_iff.mp h
  have hk := List.find?_some he
  simp only [decide_eq_true_eq] at hk
  exact hk ▸ List.mem_of_find?_eq_some he

theorem find?_erase (d : Directory κ α) (k j : κ) :
    (d.erase k).find? j = if j = k then none else d.find? j := by
  simp only [find?, erase, List.find?_filter]
  split
  · next h =>
    subst h
    simp
  · next h =>
    congr 1
    congr 1
    funext e
    by_cases he : e.1 = j
    · simp [he, h]
    · simp [he]

theorem find?_put (d : Directory κ α) (k j : κ) (a : α) :
    (d.put k a).find? j = if j = k then some a else d.find? j := by
  have he := find?_erase d k j
  simp only [find?, put, List.find?_append, Option.map_or] at he ⊢
  rw [he]
  by_cases h : j = k
  · subst h; simp
  · have hk : ¬ k = j := fun e => h e.symm
    simp [h, hk]

theorem find?_set (d : Directory κ α) (k j : κ) (v : Option α) :
    (d.set k v).find? j = if j = k then v else d.find? j := by
  cases v with
  | none => exact find?_erase d k j
  | some a => exact find?_put d k j a

end Directory

end HeapLedger
