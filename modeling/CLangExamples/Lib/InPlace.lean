import Mathlib.Logic.Function.Basic
import Mathlib.Data.List.Nodup

/-!
# Passes over an array in place

A loop that visits some cells of an array one behind the other, replaces each by a function of its old content and of a
value written there, and raises a flag on the way. Where no cell is visited twice, the array it leaves and the flag are
functions of the array before the loop.
-/

namespace InPlace

variable {ι α ν : Type} [DecidableEq ι]

/-- One write: the cell `w.1` becomes `set` of its content and of `w.2`; the flag is raised when `raises` says so. -/
def write (set : α → ν → α) (raises : α → ν → Bool) (s : (ι → α) × Bool) (w : ι × ν) : (ι → α) × Bool :=
  (Function.update s.1 w.1 (set (s.1 w.1) w.2), raises (s.1 w.1) w.2 || s.2)

/-- The writes of a list, in order. -/
def pass (set : α → ν → α) (raises : α → ν → Bool) (writes : List (ι × ν)) (s : (ι → α) × Bool) : (ι → α) × Bool :=
  writes.foldl (write set raises) s

variable (set : α → ν → α) (raises : α → ν → Bool)

theorem pass_cons (w : ι × ν) (ws : List (ι × ν)) (s : (ι → α) × Bool) :
    pass set raises (w :: ws) s = pass set raises ws (write set raises s w) := rfl

theorem pass_append (ws ws' : List (ι × ν)) (s : (ι → α) × Bool) :
    pass set raises (ws ++ ws') s = pass set raises ws' (pass set raises ws s) := by
  unfold pass
  rw [List.foldl_append]

/-- A cell that is not visited keeps its content. -/
theorem pass_of_not_mem (ws : List (ι × ν)) (s : (ι → α) × Bool) {i : ι} (h : i ∉ ws.map Prod.fst) :
    (pass set raises ws s).1 i = s.1 i := by
  induction ws generalizing s with
  | nil => rfl
  | cons w ws ih =>
    rw [List.map_cons, List.mem_cons, not_or] at h
    rw [pass_cons, ih _ h.2]
    exact Function.update_of_ne h.1 _ _

/-- A cell visited once becomes `set` of what it held before the loop. -/
theorem pass_of_mem {ws : List (ι × ν)} (hn : (ws.map Prod.fst).Nodup) (s : (ι → α) × Bool) {i : ι} {v : ν}
    (h : (i, v) ∈ ws) : (pass set raises ws s).1 i = set (s.1 i) v := by
  induction ws generalizing s with
  | nil => exact absurd h List.not_mem_nil
  | cons w ws ih =>
    rw [List.map_cons, List.nodup_cons] at hn
    rw [pass_cons]
    rcases List.mem_cons.1 h with rfl | h
    · rw [pass_of_not_mem set raises ws _ hn.1]
      exact Function.update_self _ _ _
    · -- the head wrote another cell, so the tail finds the cell as the loop found it
      have hne : i ≠ w.1 := by
        rintro rfl
        exact hn.1 (List.mem_map.2 ⟨_, h, rfl⟩)
      rw [ih hn.2 _ h]
      exact congrArg (set · v) (Function.update_of_ne hne _ _)

/-- The flag is raised by the contents before the loop. -/
theorem pass_flag {ws : List (ι × ν)} (hn : (ws.map Prod.fst).Nodup) (s : (ι → α) × Bool) :
    (pass set raises ws s).2 = true ↔ s.2 = true ∨ ∃ w ∈ ws, raises (s.1 w.1) w.2 = true := by
  induction ws generalizing s with
  | nil => simp [pass]
  | cons w ws ih =>
    rw [List.map_cons, List.nodup_cons] at hn
    have hkeep : ∀ v ∈ ws, (write set raises s w).1 v.1 = s.1 v.1 := by
      intro v hv
      apply Function.update_of_ne
      rintro h
      exact hn.1 (List.mem_map.2 ⟨v, hv, h⟩)
    have htail : (∃ v ∈ ws, raises ((write set raises s w).1 v.1) v.2 = true) ↔
        ∃ v ∈ ws, raises (s.1 v.1) v.2 = true := by
      constructor
      · rintro ⟨v, hv, h⟩
        rw [hkeep v hv] at h
        exact ⟨v, hv, h⟩
      · rintro ⟨v, hv, h⟩
        rw [← hkeep v hv] at h
        exact ⟨v, hv, h⟩
    rw [pass_cons, ih hn.2, htail]
    simp only [write, Bool.or_eq_true, List.mem_cons, exists_eq_or_imp]
    tauto

end InPlace
