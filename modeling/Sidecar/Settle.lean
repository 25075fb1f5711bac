/-!
# Running until idle

The parts of a call proceed on their own until each of them waits for something. `settle` takes
steps until none is possible, or until the given number is used up; whoever calls it gives a number
that is enough.
-/

namespace Sidecar

/-- Take steps while there are any, at most so many. -/
def settle {σ : Type} (step : σ → Option σ) : Nat → σ → σ
  | 0, s => s
  | n + 1, s =>
    match step s with
    | some s => settle step n s
    | none => s

/-- What every step keeps is kept by settling. -/
theorem settle_induction {σ : Type} {step : σ → Option σ} {motive : σ → Prop}
    (hstep : ∀ s s', step s = some s' → motive s → motive s') (n : Nat) {s : σ} (h : motive s) :
    motive (settle step n s) := by
  induction n generalizing s with
  | zero => exact h
  | succ n ih =>
    unfold settle
    split
    next hs => exact ih (hstep _ _ hs h)
    next => exact h

/-- If every step leaves less to do, settling comes to where there is no step. -/
theorem step_settle_eq_none {σ : Type} (step : σ → Option σ) (size : σ → Nat)
    (hstep : ∀ s s', step s = some s' → size s' < size s) (n : Nat) {s : σ} (h : size s ≤ n) :
    step (settle step n s) = none := by
  induction n generalizing s with
  | zero =>
    unfold settle
    cases hs : step s with
    | none => rfl
    | some s' =>
      have := hstep s s' hs
      omega
  | succ n ih =>
    unfold settle
    split
    next s' hs =>
      have := hstep s s' hs
      exact ih (by omega)
    next hs => exact hs

/-- If every event of some kind changes nothing or leaves less to do, such events can be found after
which none of them changes anything. -/
theorem exists_foldl_resting {σ ε : Type} (apply : σ → ε → σ) (size : σ → Nat)
    (same : σ → σ → Prop) (allowed : ε → Prop)
    (h : ∀ s e, allowed e → same (apply s e) s ∨ size (apply s e) < size s) (s : σ) :
    ∃ es : List ε, (∀ e ∈ es, allowed e) ∧
      ∀ e, allowed e → same (apply (es.foldl apply s) e) (es.foldl apply s) := by
  induction hn : size s using Nat.strongRecOn generalizing s with
  | ind n ih =>
    by_cases hrests : ∀ e, allowed e → same (apply s e) s
    · exact ⟨[], nofun, hrests⟩
    · obtain ⟨e, hmoves⟩ := Classical.not_forall.1 hrests
      obtain ⟨hallowed, hmoves⟩ := Classical.not_imp.1 hmoves
      have hlt := (h s e hallowed).resolve_left hmoves
      obtain ⟨es, hes, hlast⟩ := ih _ (hn ▸ hlt) (apply s e) rfl
      exact ⟨e :: es, List.forall_mem_cons.2 ⟨hallowed, hes⟩, hlast⟩

end Sidecar
