import Mathlib.Algebra.BigOperators.Fin

/-!
# Merged logs

Several writers append to one log. The log is a merge of what each of them has written: it keeps the order of each writer and
says nothing of the order between two of them.
-/

namespace Merge

variable {ι α : Type} [DecidableEq ι]

/-- `Merges logs out`: the log `out` was written by writers that have each written their `logs`. -/
inductive Merges : (ι → List α) → List α → Prop
  | nil : Merges (fun _ => []) []
  | emit {logs : ι → List α} {out : List α} (i : ι) (x : α) (h : Merges logs out) :
      Merges (Function.update logs i (logs i ++ [x])) (out ++ [x])

variable {logs : ι → List α} {out : List α}

/-- The log of a writer is a part of the merged log, in order. -/
theorem Merges.sublist (h : Merges logs out) (i : ι) : (logs i).Sublist out := by
  induction h with
  | nil => exact List.Sublist.refl _
  | @emit logs out j x h ih =>
    by_cases hij : i = j
    · subst hij
      rw [Function.update_self]
      exact List.Sublist.append ih (List.Sublist.refl _)
    · rw [Function.update_of_ne hij]
      exact ih.trans (List.sublist_append_left _ _)

/-- A writer has written every entry of the merged log. -/
theorem Merges.mem_iff (h : Merges logs out) (x : α) : x ∈ out ↔ ∃ i, x ∈ logs i := by
  constructor
  · intro hx
    induction h with
    | nil => cases hx
    | @emit logs out j y h ih =>
      rcases List.mem_append.mp hx with hx | hx
      · obtain ⟨i, hi⟩ := ih hx
        refine ⟨i, ?_⟩
        by_cases hij : i = j
        · rw [hij, Function.update_self]
          exact List.mem_append_left _ (hij ▸ hi)
        · rw [Function.update_of_ne hij]
          exact hi
      · refine ⟨j, ?_⟩
        rw [Function.update_self]
        exact List.mem_append_right _ hx
  · rintro ⟨i, hi⟩
    exact (h.sublist i).subset hi

/-- The merged log is as long as the logs are together. -/
theorem Merges.length_eq [Fintype ι] (h : Merges logs out) : out.length = ∑ i, (logs i).length := by
  induction h with
  | nil => simp
  | @emit logs out j x h ih =>
    have hsum : ∑ i, (Function.update logs j (logs j ++ [x]) i).length =
        ∑ i, ((logs i).length + if i = j then 1 else 0) := by
      refine Finset.sum_congr rfl ?_
      intro i _
      by_cases hij : i = j
      · simp [hij]
      · simp [hij]
    rw [hsum, Finset.sum_add_distrib, ← ih]
    simp

end Merge
