import CLangExamples.Lib.Merge
import CLangExamples.Pthreads.Threads

/-!
# What holds across all interleavings

However the scheduler picks the next step: the output is the line of `main`, then a merge of what the threads write, each
about its own context and in its own order, and when `main` has joined them all its last line (`threads_interleave`). No
interleaving is endless and none gets stuck (`threads_end`).
-/

namespace CLangExamples.Pthreads

open Merge Transition

variable {n : Nat}

/-- What a thread has written, by where it is. -/
def written (i : Fin n) : Thread → List Line
  | .notCreated => []
  | .created => []
  | .sleeping => [threadStartedLine (threadContext i).name]
  | .awake => [threadStartedLine (threadContext i).name]
  | .terminated => [threadStartedLine (threadContext i).name, threadFinishedLine (threadContext i).name]

/-- What `main` has written before the threads. -/
def opening : Main → List Line
  | .start => []
  | _ => [startingLine]

/-- What `main` has written behind the threads. -/
def closing : Main → List Line
  | .ended 0 => [finishedLine]
  | _ => []

/-- The output of a process: the lines of its threads between those of `main`. -/
def Output (s : Process n) : Prop :=
  ∃ lines, s.stdout = opening s.main ++ lines ++ closing s.main ∧ Merges (fun i => written i (s.threads i)) lines

namespace ThreadsAux

/-! ## The invariant -/

/-- The threads that `main` has created and joined, by where it is. -/
def Created (s : Process n) : Main → Prop
  | .start => ∀ i, s.threads i = .notCreated
  | .initContext k => k ≤ n ∧ ∀ i, s.threads i = .notCreated ↔ k ≤ i.val
  | .create k => k < n ∧ (∀ i, s.threads i = .notCreated ↔ k ≤ i.val) ∧ ∀ i, i.val = k → s.contexts i = threadContext k
  | .join k => k ≤ n ∧ (∀ i, s.threads i ≠ .notCreated) ∧ ∀ i, i.val < k → s.threads i = .terminated
  | .ended 0 => ∀ i, s.threads i = .terminated
  | .ended _ => True

/-- What every interleaving keeps. -/
structure Inv (s : Process n) : Prop where
  created : Created s s.main
  /-- a thread finds its own context as `main` has written it -/
  context : ∀ i, s.threads i ≠ .notCreated → s.contexts i = threadContext i
  output : Output s

theorem inv_initial (memory : Fin n → ThreadContext) : Inv (initial memory) where
  created := fun _ => rfl
  context := fun _ h => absurd rfl h
  output := ⟨[], rfl, Merges.nil⟩

/-- What the threads have written when one of them is at another place. -/
theorem written_update (threads : Fin n → Thread) (i : Fin n) (t : Thread) :
    (fun j => written j (Function.update threads i t j)) =
      Function.update (fun j => written j (threads j)) i (written i t) := by
  funext j
  by_cases hj : j = i
  · subst hj
    simp
  · simp [hj]

/-- A step that writes nothing, of `main` or of a thread, keeps the output. -/
theorem output_silent {s s' : Process n} (h : Output s) (hout : s'.stdout = s.stdout)
    (hopening : opening s'.main = opening s.main) (hclosing : closing s'.main = closing s.main)
    (hwritten : ∀ i, written i (s'.threads i) = written i (s.threads i)) : Output s' := by
  obtain ⟨lines, hstdout, hmerges⟩ := h
  refine ⟨lines, by rw [hout, hopening, hclosing, hstdout], ?_⟩
  rw [funext hwritten]
  exact hmerges

/-- A silent step of a thread writes nothing. -/
theorem written_silent {threads : Fin n → Thread} {i : Fin n} {t : Thread} (h : written i t = written i (threads i))
    (j : Fin n) : written j (Function.update threads i t j) = written j (threads j) := by
  rw [congrFun (written_update threads i t) j, h]
  exact congrFun (Function.update_eq_self i _) j

/-- A thread that writes a line appends it to the output. -/
theorem output_line {s : Process n} (h : Output s) {i : Fin n} {t : Thread} {line : Line} (hclosing : closing s.main = [])
    (hline : written i t = written i (s.threads i) ++ [line]) :
    Output { s with threads := Function.update s.threads i t, stdout := s.stdout ++ [line] } := by
  obtain ⟨lines, hstdout, hmerges⟩ := h
  refine ⟨lines ++ [line], ?_, ?_⟩
  · simp only [hclosing, List.append_nil] at hstdout ⊢
    rw [hstdout, List.append_assoc]
  · rw [written_update, hline]
    exact Merges.emit i line hmerges

/-! ## Steps of `main` -/

/-- A step of `main` keeps the invariant. -/
theorem inv_mainStep {s s' : Process n} (hi : Inv s) (h : mainStep s = .ok s') : Inv s' := by
  have hcreated := hi.created
  unfold mainStep at h
  split at h
  · rename_i hmain
    obtain rfl := Except.ok.inj h
    rw [hmain] at hcreated
    obtain ⟨lines, hstdout, hmerges⟩ := hi.output
    rw [hmain] at hstdout
    have hnone : ∀ i, written i (s.threads i) = [] := fun i => by rw [hcreated i]; rfl
    have hlines : lines = [] := by
      refine List.eq_nil_iff_forall_not_mem.mpr ?_
      intro line hline
      obtain ⟨i, hline'⟩ := (hmerges.mem_iff line).mp hline
      rw [hnone i] at hline'
      cases hline'
    subst hlines
    refine ⟨⟨Nat.zero_le n, fun i => iff_of_true (hcreated i) (Nat.zero_le _)⟩, hi.context, [], ?_, hmerges⟩
    simp only [hstdout]
    rfl
  · rename_i k hmain
    rw [hmain] at hcreated
    obtain ⟨hk, hthreads⟩ := hcreated
    split at h
    · rename_i hlt
      obtain rfl := Except.ok.inj h
      refine ⟨⟨hlt, hthreads, ?_⟩, ?_, ?_⟩
      · intro i hik
        rw [show i = ⟨k, hlt⟩ from Fin.ext hik]
        exact Function.update_self _ _ _
      · -- the context is that of a thread that is not there yet
        intro i hthread
        have hne : i ≠ ⟨k, hlt⟩ := by
          rintro rfl
          exact hthread ((hthreads _).mpr (Nat.le_refl _))
        show Function.update s.contexts ⟨k, hlt⟩ (threadContext k) i = _
        rw [Function.update_of_ne hne]
        exact hi.context i hthread
      · exact output_silent hi.output rfl (by rw [hmain]; rfl) (by rw [hmain]; rfl) (fun i => rfl)
    · rename_i hge
      obtain rfl := Except.ok.inj h
      refine ⟨⟨Nat.zero_le n, ?_, fun i hlt => absurd hlt (Nat.not_lt_zero _)⟩, hi.context, ?_⟩
      · intro i hnone
        have := (hthreads i).mp hnone
        have := i.isLt
        omega
      · exact output_silent hi.output rfl (by rw [hmain]; rfl) (by rw [hmain]; rfl) (fun i => rfl)
  · rename_i k hmain
    rw [hmain] at hcreated
    obtain ⟨hlt, hthreads, hcontext⟩ := hcreated
    rw [dif_pos hlt] at h
    obtain rfl := Except.ok.inj h
    refine ⟨⟨hlt, ?_⟩, ?_, ?_⟩
    · intro i
      show Function.update s.threads ⟨k, hlt⟩ .created i = .notCreated ↔ _
      by_cases hik : i = ⟨k, hlt⟩
      · subst hik
        simp
      · have hval : i.val ≠ k := fun heq => hik (Fin.ext heq)
        rw [Function.update_of_ne hik, hthreads i]
        omega
    · intro i hthread
      by_cases hik : i = ⟨k, hlt⟩
      · subst hik
        exact hcontext _ rfl
      · have hthread' : s.threads i ≠ .notCreated := by
          have heq : Function.update s.threads ⟨k, hlt⟩ .created i = s.threads i := Function.update_of_ne hik _ _
          rw [← heq]
          exact hthread
        exact hi.context i hthread'
    · refine output_silent hi.output rfl (by rw [hmain]; rfl) (by rw [hmain]; rfl) (written_silent ?_)
      rw [(hthreads ⟨k, hlt⟩).mpr (Nat.le_refl _)]
      rfl
  · rename_i k hmain
    rw [hmain] at hcreated
    obtain ⟨hk, hthreads, hjoined⟩ := hcreated
    split at h
    · rename_i hlt
      split at h
      · rename_i hterminated
        obtain rfl := Except.ok.inj h
        refine ⟨⟨hlt, hthreads, ?_⟩, hi.context, ?_⟩
        · intro i hik
          rcases Nat.lt_or_eq_of_le (Nat.le_of_lt_succ hik) with hik | hik
          · exact hjoined i hik
          · rw [show i = ⟨k, hlt⟩ from Fin.ext hik]
            exact hterminated
        · exact output_silent hi.output rfl (by rw [hmain]; rfl) (by rw [hmain]; rfl) (fun i => rfl)
      · cases h
    · rename_i hge
      obtain rfl := Except.ok.inj h
      refine ⟨?_, hi.context, ?_⟩
      · intro i
        exact hjoined i (Nat.lt_of_lt_of_le i.isLt (Nat.le_of_not_lt hge))
      · obtain ⟨lines, hstdout, hmerges⟩ := hi.output
        rw [hmain] at hstdout
        refine ⟨lines, ?_, hmerges⟩
        simp [hstdout, opening, closing]
  · cases h

/-- A step of `main` whose call fails keeps the invariant. -/
theorem inv_mainFailsStep {s s' : Process n} (hi : Inv s) (h : mainFailsStep s = .ok s') : Inv s' := by
  unfold mainFailsStep at h
  split at h
  · rename_i k hmain
    obtain rfl := Except.ok.inj h
    exact ⟨trivial, hi.context, output_silent hi.output rfl (by rw [hmain]; rfl) (by rw [hmain]; rfl) (fun i => rfl)⟩
  · rename_i k hmain
    split at h
    · obtain rfl := Except.ok.inj h
      exact ⟨trivial, hi.context, output_silent hi.output rfl (by rw [hmain]; rfl) (by rw [hmain]; rfl) (fun i => rfl)⟩
    · cases h
  · cases h

/-! ## Steps of threads -/

/-- A thread that goes on, from a place that is neither before its creation nor behind its end, keeps what `main` knows of the
threads. -/
theorem created_update {s : Process n} {i : Fin n} {t : Thread} {m : Main} (h : Created s m)
    (hold : s.threads i ≠ .notCreated) (hrunning : s.threads i ≠ .terminated) (hnew : t ≠ .notCreated)
    (stdout : List Line) : Created { s with threads := Function.update s.threads i t, stdout := stdout } m := by
  have hiff : ∀ j, Function.update s.threads i t j = .notCreated ↔ s.threads j = .notCreated := by
    intro j
    by_cases hj : j = i
    · subst hj
      rw [Function.update_self]
      exact iff_of_false hnew hold
    · rw [Function.update_of_ne hj]
  have hterminated : ∀ j, s.threads j = .terminated → Function.update s.threads i t j = .terminated := by
    intro j hj
    have hji : j ≠ i := by
      rintro rfl
      exact hrunning hj
    rw [Function.update_of_ne hji]
    exact hj
  cases m with
  | start => exact fun j => (hiff j).mpr (h j)
  | initContext k => exact ⟨h.1, fun j => (hiff j).trans (h.2 j)⟩
  | create k => exact ⟨h.1, fun j => (hiff j).trans (h.2.1 j), h.2.2⟩
  | join k => exact ⟨h.1, fun j hj => h.2.1 j ((hiff j).mp hj), fun j hj => hterminated j (h.2.2 j hj)⟩
  | ended status =>
    cases status with
    | zero => exact fun j => hterminated j (h j)
    | succ status => trivial

/-- A thread that goes on finds its context, and the others theirs. -/
theorem context_update {s : Process n} {i : Fin n} {t : Thread}
    (hcontext : ∀ j, s.threads j ≠ .notCreated → s.contexts j = threadContext j) (hold : s.threads i ≠ .notCreated)
    (j : Fin n) (hj : Function.update s.threads i t j ≠ .notCreated) : s.contexts j = threadContext j := by
  by_cases hji : j = i
  · rw [hji]
    exact hcontext i hold
  · rw [Function.update_of_ne hji] at hj
    exact hcontext j hj

/-- A step of a thread of a process that has not ended keeps the invariant. -/
theorem inv_threadStep {s s' : Process n} {i : Fin n} (hi : Inv s) (hrunning : ∀ status, s.main ≠ .ended status)
    (h : threadStep s i = .ok s') : Inv s' := by
  have hclosing : closing s.main = [] := by
    cases hmain : s.main with
    | ended status => exact absurd hmain (hrunning status)
    | _ => rfl
  unfold threadStep at h
  split at h
  · rename_i hthread
    obtain rfl := Except.ok.inj h
    have hold : s.threads i ≠ .notCreated := by simp [hthread]
    refine ⟨created_update hi.created hold (by simp [hthread]) (by simp) _, context_update hi.context hold, ?_⟩
    refine output_line hi.output hclosing ?_
    rw [hthread, hi.context i hold]
    rfl
  · rename_i hthread
    obtain rfl := Except.ok.inj h
    have hold : s.threads i ≠ .notCreated := by simp [hthread]
    refine ⟨created_update hi.created hold (by simp [hthread]) (by simp) _, context_update hi.context hold, ?_⟩
    refine output_silent hi.output rfl rfl rfl (written_silent ?_)
    rw [hthread]
    rfl
  · rename_i hthread
    obtain rfl := Except.ok.inj h
    have hold : s.threads i ≠ .notCreated := by simp [hthread]
    refine ⟨created_update hi.created hold (by simp [hthread]) (by simp) _, context_update hi.context hold, ?_⟩
    refine output_line hi.output hclosing ?_
    rw [hthread, hi.context i hold]
    rfl
  · cases h
  · cases h

/-- Every step keeps the invariant. -/
theorem inv_step {s s' : Process n} {a : Actor n} (hi : Inv s) (h : step a s = .ok s') : Inv s' := by
  cases a with
  | main => exact inv_mainStep hi h
  | mainFails => exact inv_mainFailsStep hi h
  | thread i =>
    unfold step at h
    simp only at h
    split at h
    · cases h
    · rename_i hrunning
      exact inv_threadStep hi (fun status => hrunning status) h

/-- Every interleaving keeps the invariant. -/
theorem inv_run {memory : Fin n → ThreadContext} {actors : List (Actor n)} {history : List (Actor n)} {s : Process n}
    (r : Run step (fun a _ => a) (initial memory) actors history s) : Inv s :=
  r.invariant (P := fun _ s => Inv s) (inv_initial memory) (fun _ _ _ _ hi h => inv_step hi h)

/-! ## The steps that are left -/

/-- The steps that `main` has before it when no call fails. -/
def mainLeft (n : Nat) : Main → Nat
  | .start => 3 * n + 3
  | .initContext i => 2 * (n - i) + n + 2
  | .create i => 2 * (n - i) + n + 1
  | .join i => n - i + 1
  | .ended _ => 0

/-- The steps that a thread has before it. -/
def threadLeft : Thread → Nat
  | .notCreated => 3
  | .created => 3
  | .sleeping => 2
  | .awake => 1
  | .terminated => 0

/-- The steps that a process has before it. -/
def left (s : Process n) : Nat := mainLeft n s.main + ∑ i, threadLeft (s.threads i)

/-- The steps of the threads when one of them is at another place. -/
theorem sum_update (threads : Fin n → Thread) (i : Fin n) (t : Thread) :
    ∑ j, threadLeft (Function.update threads i t j) + threadLeft (threads i) =
      ∑ j, threadLeft (threads j) + threadLeft t := by
  have hcomp : ∀ j, threadLeft (Function.update threads i t j) =
      Function.update (fun j => threadLeft (threads j)) i (threadLeft t) j := by
    intro j
    by_cases hj : j = i
    · subst hj
      simp
    · simp [hj]
  rw [Finset.sum_congr rfl (fun j _ => hcomp j), Finset.sum_update_of_mem (Finset.mem_univ i),
    ← Finset.sum_erase_add Finset.univ _ (Finset.mem_univ i), Finset.sdiff_singleton_eq_erase]
  omega

/-- A step of `main` leaves fewer steps. -/
theorem left_mainStep {s s' : Process n} (hi : Inv s) (h : mainStep s = .ok s') : left s' < left s := by
  have hcreated := hi.created
  unfold mainStep at h
  unfold left
  split at h
  · rename_i hmain
    obtain rfl := Except.ok.inj h
    rw [hmain]
    simp only [mainLeft]
    omega
  · rename_i k hmain
    split at h
    · rename_i hlt
      obtain rfl := Except.ok.inj h
      rw [hmain]
      simp only [mainLeft]
      omega
    · rename_i hge
      obtain rfl := Except.ok.inj h
      rw [hmain]
      simp only [mainLeft]
      omega
  · rename_i k hmain
    rw [hmain] at hcreated
    rw [dif_pos hcreated.1] at h
    obtain rfl := Except.ok.inj h
    have hsum := sum_update s.threads ⟨k, hcreated.1⟩ .created
    rw [(hcreated.2.1 ⟨k, hcreated.1⟩).mpr (Nat.le_refl _)] at hsum
    have hlt := hcreated.1
    rw [hmain]
    simp only [mainLeft, threadLeft] at hsum ⊢
    omega
  · rename_i k hmain
    split at h
    · rename_i hlt
      split at h
      · obtain rfl := Except.ok.inj h
        rw [hmain]
        simp only [mainLeft]
        omega
      · cases h
    · obtain rfl := Except.ok.inj h
      rw [hmain]
      simp only [mainLeft]
      omega
  · cases h

/-- The end of the process leaves no step of `main`. -/
theorem left_mainFailsStep {s s' : Process n} (h : mainFailsStep s = .ok s') : left s' < left s := by
  unfold mainFailsStep at h
  unfold left
  split at h
  · rename_i k hmain
    obtain rfl := Except.ok.inj h
    rw [hmain]
    simp only [mainLeft, panic]
    omega
  · rename_i k hmain
    split at h
    · obtain rfl := Except.ok.inj h
      rw [hmain]
      simp only [mainLeft, panic]
      omega
    · cases h
  · cases h

/-- A step of a thread leaves fewer steps. -/
theorem left_threadStep {s s' : Process n} {i : Fin n} (h : threadStep s i = .ok s') : left s' < left s := by
  unfold threadStep at h
  unfold left
  split at h
  · rename_i hthread
    obtain rfl := Except.ok.inj h
    have hsum := sum_update s.threads i .sleeping
    rw [hthread] at hsum
    simp only [threadLeft] at hsum ⊢
    omega
  · rename_i hthread
    obtain rfl := Except.ok.inj h
    have hsum := sum_update s.threads i .awake
    rw [hthread] at hsum
    simp only [threadLeft] at hsum ⊢
    omega
  · rename_i hthread
    obtain rfl := Except.ok.inj h
    have hsum := sum_update s.threads i .terminated
    rw [hthread] at hsum
    simp only [threadLeft] at hsum ⊢
    omega
  · cases h
  · cases h

/-- Every step leaves fewer steps. -/
theorem left_step {s s' : Process n} {a : Actor n} (hi : Inv s) (h : step a s = .ok s') : left s' < left s := by
  cases a with
  | main => exact left_mainStep hi h
  | mainFails => exact left_mainFailsStep h
  | thread i =>
    unfold step at h
    simp only at h
    split at h
    · cases h
    · exact left_threadStep h

/-- The steps that a run has made and those that it leaves are not more than those of the start. -/
theorem length_run {memory : Fin n → ThreadContext} {actors history : List (Actor n)} {s : Process n}
    (r : Run step (fun a _ => a) (initial memory) actors history s) : actors.length + left s ≤ 6 * n + 3 := by
  induction r with
  | start =>
    simp only [left, initial, mainLeft, threadLeft, List.length_nil, Finset.sum_const, Finset.card_univ, Fintype.card_fin,
      smul_eq_mul]
    omega
  | next a r h ih =>
    have hlt := left_step (inv_run r) h
    rw [List.length_append, List.length_singleton]
    omega

/-! ## Progress -/

/-- A thread that was created and has not terminated can go on. -/
theorem threadStep_enabled {s : Process n} {i : Fin n} (hold : s.threads i ≠ .notCreated)
    (hrunning : s.threads i ≠ .terminated) : ∃ s', threadStep s i = .ok s' ∧ s'.main = s.main := by
  unfold threadStep
  cases hthread : s.threads i with
  | notCreated => exact absurd hthread hold
  | created => exact ⟨_, rfl, rfl⟩
  | sleeping => exact ⟨_, rfl, rfl⟩
  | awake => exact ⟨_, rfl, rfl⟩
  | terminated => exact absurd hthread hrunning

/-- Until the process ends somebody can make a step in which no call fails; if it ends the process, then with 0. -/
theorem step_enabled {s : Process n} (hi : Inv s) (hrunning : ∀ status, s.main ≠ .ended status) :
    ∃ a s', a ≠ Actor.mainFails ∧ step a s = .ok s' ∧ ∀ status, s'.main = .ended status → status = 0 := by
  have hcreated := hi.created
  cases hmain : s.main with
  | start =>
    refine ⟨.main, _, by simp, by simp only [step, mainStep, hmain]; rfl, ?_⟩
    intro status h
    cases h
  | initContext k =>
    by_cases hlt : k < n
    · refine ⟨.main, _, by simp, by simp only [step, mainStep, hmain]; rw [dif_pos hlt], ?_⟩
      intro status h
      cases h
    · refine ⟨.main, _, by simp, by simp only [step, mainStep, hmain]; rw [dif_neg hlt], ?_⟩
      intro status h
      cases h
  | create k =>
    rw [hmain] at hcreated
    refine ⟨.main, _, by simp, by simp only [step, mainStep, hmain]; rw [dif_pos hcreated.1], ?_⟩
    intro status h
    cases h
  | join k =>
    rw [hmain] at hcreated
    by_cases hlt : k < n
    · by_cases hterminated : s.threads ⟨k, hlt⟩ = .terminated
      · refine ⟨.main, _, by simp, by simp only [step, mainStep, hmain]; rw [dif_pos hlt, if_pos hterminated], ?_⟩
        intro status h
        cases h
      · -- the thread that `main` waits for can go on
        obtain ⟨s', hstep, hmain'⟩ := threadStep_enabled (hcreated.2.1 ⟨k, hlt⟩) hterminated
        refine ⟨.thread ⟨k, hlt⟩, s', by simp, by simp only [step, hmain]; exact hstep, ?_⟩
        intro status h
        rw [hmain', hmain] at h
        cases h
    · refine ⟨.main, _, by simp, by simp only [step, mainStep, hmain]; rw [dif_neg hlt], ?_⟩
      intro status h
      exact (Main.ended.inj h).symm
  | ended status => exact absurd hmain (hrunning status)

/-- A process can be run to its end. -/
theorem runs_to_end (bound : Nat) {s : Process n} (hbound : left s ≤ bound) (hi : Inv s)
    (hrunning : ∀ status, s.main ≠ .ended status) :
    ∃ rest history s', Actor.mainFails ∉ rest ∧ Run step (fun a _ => a) s rest history s' ∧ s'.main = .ended 0 := by
  induction bound generalizing s with
  | zero =>
    obtain ⟨a, s', -, hstep, -⟩ := step_enabled hi hrunning
    have := left_step hi hstep
    omega
  | succ bound ih =>
    obtain ⟨a, s', hne, hstep, hstatus⟩ := step_enabled hi hrunning
    have hleft := left_step hi hstep
    by_cases hended : ∃ status, s'.main = .ended status
    · obtain ⟨status, hmain⟩ := hended
      rw [hstatus status hmain] at hmain
      refine ⟨[a], [a], s', ?_, Run.cons hstep .start, hmain⟩
      simpa using Ne.symm hne
    · rw [not_exists] at hended
      obtain ⟨rest, history, s'', hnot, r, hmain⟩ := ih (by omega) (inv_step hi hstep) hended
      refine ⟨a :: rest, a :: history, s'', ?_, r.cons hstep, hmain⟩
      simpa [hnot] using Ne.symm hne

end ThreadsAux

open ThreadsAux

/-- However the steps of `main` and of `n` threads are interleaved, and wherever a call fails: the output is the first line of
`main`, then a merge of what the threads have written, and its last line only when it has returned. Each thread writes its own
name, first that it has started and then that it has finished. When `main` has returned with 0, every thread has terminated,
and there are two lines of each between the lines of `main`. -/
theorem threads_interleave (memory : Fin n → ThreadContext) (actors history : List (Actor n)) (s : Process n)
    (r : Run step (fun a _ => a) (initial memory) actors history s) :
    Output s ∧ (∀ i, s.threads i ≠ .notCreated → s.contexts i = threadContext i) ∧
      (s.main = .ended 0 → (∀ i, s.threads i = .terminated) ∧
        ∃ lines, s.stdout = startingLine :: lines ++ [finishedLine] ∧ lines.length = 2 * n ∧
          Merges (fun i : Fin n => [threadStartedLine (threadContext i).name, threadFinishedLine (threadContext i).name])
            lines) := by
  have hi := inv_run r
  refine ⟨hi.output, hi.context, ?_⟩
  intro hmain
  have hcreated := hi.created
  rw [hmain] at hcreated
  have hterminated : ∀ i, s.threads i = .terminated := hcreated
  obtain ⟨lines, hstdout, hmerges⟩ := hi.output
  rw [hmain] at hstdout
  have hlogs : (fun i => written i (s.threads i)) = fun i : Fin n =>
      [threadStartedLine (threadContext i).name, threadFinishedLine (threadContext i).name] := by
    funext i
    rw [hterminated i]
    rfl
  rw [hlogs] at hmerges
  refine ⟨hterminated, lines, hstdout, ?_, hmerges⟩
  rw [hmerges.length_eq]
  simp [Nat.mul_comm]

/-- The steps of one thread, one after the other. -/
def oneThread : List (Actor 1) :=
  [.main, .main, .main, .thread 0, .thread 0, .main, .thread 0, .main, .main]

/-- One thread, which finishes before it is joined, writes two lines. -/
theorem threads_interleave_one :
    ∃ s lines, Run step (fun a _ => a) (initial fun _ : Fin 1 => ⟨0, []⟩) oneThread oneThread s ∧ s.main = .ended 0 ∧
      s.stdout = startingLine :: lines ++ [finishedLine] ∧ lines.length = 2 := by
  obtain ⟨s, h, hmain⟩ : ∃ s, oneThread.foldlM (fun s a => step a s) (initial fun _ : Fin 1 => ⟨0, []⟩) = .ok s ∧
      s.main = .ended 0 := ⟨_, rfl, rfl⟩
  obtain ⟨-, -, hended⟩ := threads_interleave (fun _ : Fin 1 => ⟨0, []⟩) oneThread oneThread s (run_of_foldlM h)
  obtain ⟨-, lines, hstdout, hlength, -⟩ := hended hmain
  exact ⟨s, lines, run_of_foldlM h, hmain, hstdout, hlength⟩

/-- No interleaving is endless or gets stuck. With `n` threads a run has at most `6 * n + 3` steps. As long as the process has
not ended somebody can go on, without a call that fails; and it can then be run to its end, where it returns 0. -/
theorem threads_end (memory : Fin n → ThreadContext) (actors history : List (Actor n)) (s : Process n)
    (r : Run step (fun a _ => a) (initial memory) actors history s) :
    actors.length ≤ 6 * n + 3 ∧
      ((∀ status, s.main ≠ .ended status) →
        (∃ a s', a ≠ Actor.mainFails ∧ step a s = .ok s') ∧
        ∃ rest history' s', Actor.mainFails ∉ rest ∧ Run step (fun a _ => a) s rest history' s' ∧ s'.main = .ended 0) := by
  have hlength := length_run r
  refine ⟨by omega, ?_⟩
  intro hrunning
  obtain ⟨a, s', hne, hstep, -⟩ := step_enabled (inv_run r) hrunning
  exact ⟨⟨a, s', hne, hstep⟩, runs_to_end (left s) (Nat.le_refl _) (inv_run r) hrunning⟩

/-- The program, with its four threads, can be run to its end. -/
theorem threads_end_four :
    ∃ rest history' s', Actor.mainFails ∉ rest ∧
      Run step (fun a _ => a) (initial fun _ : Fin threadsSize => ⟨0, []⟩) rest history' s' ∧ s'.main = .ended 0 := by
  obtain ⟨-, hrunning⟩ := threads_end (fun _ : Fin threadsSize => ⟨0, []⟩) [] [] _ .start
  exact (hrunning (by simp [initial])).2

end CLangExamples.Pthreads
