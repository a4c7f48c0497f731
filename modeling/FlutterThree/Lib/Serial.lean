import Mathlib.Data.List.Perm.Basic

/-!
# Serial executions of read-modify-write operations

A cell holds a value of type `σ`; an operation `o` is executed atomically by `exec o`, which may
refuse. A read-modify-write client reads `seen`, computes `exec o seen` and stores the result later,
when the cell may hold something else. The store is *coherent* when the value read and the value
found give the same result; `SerialFrom.commit` says that coherent stores keep the cell at the value
of the operations stored so far, executed one after another in the order of their stores.
-/

namespace Serial

variable {ο σ κ : Type*} (exec : ο → σ → Except κ σ)

/-- `os` executed one after another from `s₀`, none refusing, leaves `s`. -/
def SerialFrom (s₀ : σ) (os : List ο) (s : σ) : Prop :=
  os.foldlM (fun s o => exec o s) s₀ = .ok s

/-- The value read and the value found at the store give the operation the same result. -/
def Coherent (o : ο) (seen s : σ) : Prop := exec o seen = exec o s

variable {exec}

theorem SerialFrom.nil (s₀ : σ) : SerialFrom exec s₀ [] s₀ := rfl

/-- One more operation, executed atomically. -/
theorem SerialFrom.snoc {s₀ s s' : σ} {os : List ο} {o : ο} (h : SerialFrom exec s₀ os s)
    (ho : exec o s = .ok s') : SerialFrom exec s₀ (os ++ [o]) s' := by
  unfold SerialFrom at h ⊢
  rw [List.foldlM_append, h]
  change [o].foldlM (fun s o => exec o s) s = .ok s'
  rw [List.foldlM_cons, ho]
  rfl

/-- One more operation, read before and stored coherently. -/
theorem SerialFrom.commit {s₀ s seen s' : σ} {os : List ο} {o : ο} (h : SerialFrom exec s₀ os s)
    (hc : Coherent exec o seen s) (ho : exec o seen = .ok s') :
    SerialFrom exec s₀ (os ++ [o]) s' :=
  h.snoc (hc ▸ ho)

/-- A serial execution on a view of the state is one on the state, when each operation's effect on
the view is decided by the view. -/
theorem SerialFrom.lift {δ : Type*} (view : δ → σ) {execOn : ο → δ → Except κ δ}
    (hsim : ∀ o d v, exec o (view d) = .ok v → ∃ d', execOn o d = .ok d' ∧ view d' = v)
    {d₀ : δ} {os : List ο} {v : σ} (h : SerialFrom exec (view d₀) os v) :
    ∃ d, SerialFrom execOn d₀ os d ∧ view d = v := by
  induction os generalizing d₀ with
  | nil => exact ⟨d₀, rfl, Except.ok.inj h⟩
  | cons o os ih =>
    unfold SerialFrom at h
    rw [List.foldlM_cons] at h
    cases hv : exec o (view d₀) with
    | error x =>
      rw [hv] at h
      cases h
    | ok v₁ =>
      rw [hv] at h
      obtain ⟨d₁, hd₁, rfl⟩ := hsim o d₀ v₁ hv
      obtain ⟨d, hd, hview⟩ := ih h
      refine ⟨d, ?_, hview⟩
      unfold SerialFrom at hd ⊢
      rw [List.foldlM_cons, hd₁]
      exact hd

end Serial
