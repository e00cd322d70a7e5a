import Mathlib.Algebra.GroupWithZero.Nat
import Mathlib.Data.List.OfFn

/-!
# Rings

An array of `c` cells used around: after the last cell comes the first. `walk` is the cell some steps after another one;
`contents` is what a queue that starts at a cell and has some length holds, oldest first.
-/

namespace Ring

variable {α : Type} {c : Nat} [NeZero c]

/-! ## Walking around -/

/-- The cell `d` steps after `i`, around the ring. -/
def walk (i : Fin c) (d : Nat) : Fin c := Fin.ofNat c (i.val + d)

@[simp]
theorem walk_zero (i : Fin c) : walk i 0 = i := by
  apply Fin.ext
  exact Nat.mod_eq_of_lt i.isLt

/-- Walking on from a cell that was walked to. -/
theorem walk_walk (i : Fin c) (d e : Nat) : walk (walk i d) e = walk i (d + e) := by
  apply Fin.ext
  show ((i.val + d) % c + e) % c = (i.val + (d + e)) % c
  rw [Nat.mod_add_mod, Nat.add_assoc]

/-- From any cell, every cell is fewer than `c` steps away. -/
theorem walk_surjective (i j : Fin c) : ∃ d < c, walk i d = j := by
  refine ⟨(j.val + (c - i.val)) % c, Nat.mod_lt _ (Nat.pos_of_neZero c), ?_⟩
  apply Fin.ext
  show (i.val + (j.val + (c - i.val)) % c) % c = j.val
  rw [Nat.add_mod_mod, show i.val + (j.val + (c - i.val)) = j.val + c by omega, Nat.add_mod_right]
  exact Nat.mod_eq_of_lt j.isLt

/-- Fewer than `c` steps lead to different cells. -/
theorem walk_ne {i : Fin c} {d e : Nat} (hde : d < e) (he : e < c) : walk i d ≠ walk i e := by
  intro h
  have hval : (i.val + d) % c = (i.val + e) % c := congrArg Fin.val h
  have hzero := Nat.sub_mod_eq_zero_of_mod_eq hval.symm
  have hle := Nat.le_of_dvd (by omega) (Nat.dvd_of_mod_eq_zero hzero)
  omega

/-- The steps from the cell that the position `n` falls on to the cell `a`. -/
def steps (n : Nat) (a : Fin c) : Nat := (((a.val : Int) - n) % c).toNat

/-- As many steps were made as were walked, up to once around. -/
theorem steps_walk (n : Nat) {d : Nat} (hd : d < c) : steps n (walk (Fin.ofNat c n) d) = d := by
  have hval : ((walk (Fin.ofNat c n) d).val : Int) = ((n : Int) + d) % c := by
    show (((n % c + d) % c : Nat) : Int) = ((n : Int) + d) % c
    rw [Nat.mod_add_mod, Int.natCast_emod, Int.natCast_add]
  have hd' : (d : Int) % c = d := Int.emod_eq_of_lt (Int.natCast_nonneg d) (Int.ofNat_lt.2 hd)
  have hback : (n : Int) + d - n = d := by omega
  unfold steps
  rw [hval, Int.emod_sub_emod, hback, hd', Int.toNat_natCast]

/-- Walking the steps to a cell leads to it. -/
theorem walk_steps (n : Nat) (a : Fin c) : walk (Fin.ofNat c n) (steps n a) = a := by
  have hc : (c : Int) ≠ 0 := Int.natCast_ne_zero.2 (NeZero.ne c)
  have hsteps : ((steps n a : Nat) : Int) = ((a.val : Int) - n) % c := Int.toNat_of_nonneg (Int.emod_nonneg _ hc)
  have hback : (n : Int) + ((a.val : Int) - n) = a.val := by omega
  apply Fin.ext
  show (n % c + steps n a) % c = a.val
  rw [Nat.mod_add_mod, ← Int.natCast_inj, Int.natCast_emod, Int.natCast_add, hsteps, Int.add_emod_emod, hback]
  exact Int.emod_eq_of_lt (Int.natCast_nonneg _) (Int.ofNat_lt.2 a.isLt)

/-! ## Queues in a ring -/

/-- The first `len` cells from `start` on. -/
def contents (items : Fin c → α) (start : Fin c) (len : Nat) : List α :=
  (List.range len).map fun k => items (walk start k)

theorem length_contents (items : Fin c → α) (start : Fin c) (len : Nat) : (contents items start len).length = len := by
  simp [contents]

/-- Writing the cell after the last one appends. -/
theorem contents_append (items : Fin c → α) (start : Fin c) {len : Nat} (hlen : len < c) (x : α) :
    contents (Function.update items (walk start len) x) start (len + 1) = contents items start len ++ [x] := by
  unfold contents
  rw [List.range_succ, List.map_append]
  congr 1
  · apply List.map_congr_left
    intro k hk
    rw [List.mem_range] at hk
    exact Function.update_of_ne (walk_ne hk hlen) _ _
  · simp

/-- The first cell is the oldest. -/
theorem contents_succ (items : Fin c → α) (start : Fin c) (len : Nat) :
    contents items start (len + 1) = items start :: contents items (walk start 1) len := by
  unfold contents
  rw [List.range_succ_eq_map, List.map_cons, walk_zero, List.map_map]
  congr 1
  apply List.map_congr_left
  intro k _
  rw [walk_walk, Nat.add_comm 1 k]
  rfl

end Ring
