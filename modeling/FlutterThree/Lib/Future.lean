import Mathlib.Data.Nat.Init

/-!
# Futures

An async call hands out a future when it is started and completes it when its body ends: with a value,
with what the body raised, or, where the body returned another future, with whatever that one
completes with. Futures are numbered in the order of the calls.

`completes_of_handed_on` is the rule for a chain of calls each of which may return the future of the
one before.
-/

namespace Async

variable {ε α : Type*}

/-- How the body of an async function ended. -/
inductive Finish (ε α : Type*) where
  /-- It returned a value, or raised. -/
  | returned (r : Except ε α)
  /-- It returned another future. -/
  | future (g : ℕ)

/-- How the calls with these numbers have ended, so far. -/
abbrev Futures (ε α : Type*) := ℕ → Option (Finish ε α)

/-- Future `f` completes with `r`. -/
inductive Completes (fs : Futures ε α) : ℕ → Except ε α → Prop where
  | returned (f : ℕ) (r : Except ε α) (hf : fs f = some (.returned r)) : Completes fs f r
  | future (f g : ℕ) (r : Except ε α) (hf : fs f = some (.future g)) (hg : Completes fs g r) :
      Completes fs f r

theorem Completes.unique {fs : Futures ε α} {f : ℕ} {r r' : Except ε α} (h : Completes fs f r)
    (h' : Completes fs f r') : r = r' := by
  induction h with
  | returned f r hf =>
    cases h' with
    | returned _ _ hf' => exact Finish.returned.inj (Option.some.inj (hf.symm.trans hf'))
    | future _ g _ hf' hg => cases hf.symm.trans hf'
  | future f g r hf _ ih =>
    cases h' with
    | returned _ _ hf' => cases hf.symm.trans hf'
    | future _ g' _ hf' hg' =>
      obtain rfl := Finish.future.inj (Option.some.inj (hf.symm.trans hf'))
      exact ih hg'

/-- A future that has completed stays so, when further calls end. -/
theorem Completes.mono {fs gs : Futures ε α} (hfs : ∀ f x, fs f = some x → gs f = some x) {f : ℕ}
    {r : Except ε α} (h : Completes fs f r) : Completes gs f r := by
  induction h with
  | returned f r hf => exact .returned f r (hfs f _ hf)
  | future f g r hf _ ih => exact .future f g r (hfs f _ hf) ih

/-- A chain of calls: the last future completes with what the last call returned that did not hand on
the future of the call before it. -/
theorem completes_of_handed_on {fs : Futures ε α} {m f : ℕ} (hle : m ≤ f) {r : Except ε α}
    (hm : fs m = some (.returned r)) (hafter : ∀ j, m ≤ j → j < f → fs (j + 1) = some (.future j)) :
    Completes fs f r := by
  induction f, hle using Nat.le_induction with
  | base => exact .returned m r hm
  | succ f hle ih =>
    have hlast := hafter f hle (Nat.lt_succ_self f)
    exact .future (f + 1) f r hlast (ih fun j hj hjf => hafter j hj (Nat.lt_succ_of_lt hjf))

/-- What future `f` has completed with, following at most `n` futures. -/
def Futures.resultWithin (fs : Futures ε α) : ℕ → ℕ → Option (Except ε α)
  | 0, _ => none
  | n + 1, f =>
    match fs f with
    | some (.returned r) => some r
    | some (.future g) => Futures.resultWithin fs n g
    | none => none

/-- What future `f` has completed with, where a call returns only futures of earlier calls. -/
def Futures.result (fs : Futures ε α) (f : ℕ) : Option (Except ε α) := fs.resultWithin (f + 1) f

/-- Only the futures of earlier calls are returned. -/
def Futures.Descends (fs : Futures ε α) : Prop := ∀ f g, fs f = some (.future g) → g < f

theorem Futures.completes_of_resultWithin {fs : Futures ε α} {n f : ℕ} {r : Except ε α}
    (h : fs.resultWithin n f = some r) : Completes fs f r := by
  induction n generalizing f with
  | zero => cases h
  | succ n ih =>
    unfold resultWithin at h
    split at h
    · rename_i r' hf
      obtain rfl := Option.some.inj h
      exact .returned f r' hf
    · rename_i g hf
      exact .future f g r hf (ih h)
    · cases h

theorem Futures.resultWithin_of_completes {fs : Futures ε α} (hfs : fs.Descends) {f : ℕ}
    {r : Except ε α} (h : Completes fs f r) {n : ℕ} (hn : f < n) : fs.resultWithin n f = some r := by
  induction h generalizing n with
  | returned f r hf =>
    obtain ⟨m, rfl⟩ := Nat.exists_eq_succ_of_ne_zero (Nat.ne_of_gt (Nat.zero_lt_of_lt hn))
    rw [resultWithin, hf]
  | future f g r hf _ ih =>
    obtain ⟨m, rfl⟩ := Nat.exists_eq_succ_of_ne_zero (Nat.ne_of_gt (Nat.zero_lt_of_lt hn))
    rw [resultWithin, hf]
    exact ih (Nat.lt_of_lt_of_le (hfs f g hf) (Nat.le_of_lt_succ hn))

theorem Futures.result_eq_some {fs : Futures ε α} (hfs : fs.Descends) {f : ℕ} {r : Except ε α} :
    fs.result f = some r ↔ Completes fs f r :=
  ⟨completes_of_resultWithin, fun h => resultWithin_of_completes hfs h (Nat.lt_succ_self f)⟩

end Async
