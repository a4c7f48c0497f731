import Mathlib.Data.List.Induction
import Mathlib.Data.List.Perm.Subperm
import Mathlib.Data.Set.Basic

/-!
# Machines taking one event after another

A machine is a total step function `step : σ → ε → σ`; an event that is not enabled leaves the state
as it is. A run is the fold of `step` over a list of events, so an interleaving of several parties
is a list of their events in any order.

Code that waits for something is a numbered process; a table `ℕ → Option α` says what each waits for.

`run_invariant` packages the induction over a run. `Along P` says that every event of a run was
taken in a state satisfying `P`; `Along.imp` turns a condition on the steps into a conclusion about
them, carrying an invariant on the way.
-/

namespace Machine

/-- An entry of a table in which one process has changed is the new one, or another process's. -/
theorem update_eq_some {α : Type*} {table : ℕ → Option α} {p q : ℕ} {x : Option α} {a : α}
    (h : Function.update table p x q = some a) :
    q = p ∧ x = some a ∨ q ≠ p ∧ table q = some a := by
  by_cases hq : q = p
  · rw [hq, Function.update_self] at h
    exact .inl ⟨hq, h⟩
  · rw [Function.update_of_ne hq] at h
    exact .inr ⟨hq, h⟩

variable {σ ε : Type*} (step : σ → ε → σ)

/-- The state after the events `es`, taken in order from `s`. -/
def run (s : σ) (es : List ε) : σ := es.foldl step s

@[simp] theorem run_nil (s : σ) : run step s [] = s := rfl

@[simp] theorem run_cons (s : σ) (e : ε) (es : List ε) :
    run step s (e :: es) = run step (step s e) es := rfl

theorem run_append (s : σ) (es fs : List ε) :
    run step s (es ++ fs) = run step (run step s es) fs :=
  List.foldl_append

theorem run_snoc (s : σ) (es : List ε) (e : ε) :
    run step s (es ++ [e]) = step (run step s es) e := by
  rw [run_append, run_cons, run_nil]

/-- A view of a machine that takes the same events, and reads nothing else of it. -/
theorem run_map {τ : Type*} {step' : τ → ε → τ} {f : σ → τ}
    (hf : ∀ s e, f (step s e) = step' (f s) e) (s : σ) (es : List ε) :
    f (run step s es) = run step' (f s) es := by
  induction es generalizing s with
  | nil => rfl
  | cons e es ih => rw [run_cons, run_cons, ih, hf]

/-- What every step preserves holds at the end of every run. -/
theorem run_invariant {I : σ → Prop} (hstep : ∀ s e, I s → I (step s e)) {s : σ} (h : I s)
    (es : List ε) : I (run step s es) := by
  induction es generalizing s with
  | nil => exact h
  | cons e es ih => exact ih (hstep s e h)

/-- What the events of a list preserve holds at the end of their run. -/
theorem run_invariant_of_mem {I : σ → Prop} {es : List ε}
    (hstep : ∀ s, ∀ e ∈ es, I s → I (step s e)) {s : σ} (h : I s) : I (run step s es) := by
  induction es generalizing s with
  | nil => exact h
  | cons e es ih =>
    exact ih (fun s f hf => hstep s f (List.mem_cons_of_mem e hf)) (hstep s e List.mem_cons_self h)

/-- Every event of the run was taken in a state satisfying `P`. -/
def Along (P : σ → ε → Prop) : σ → List ε → Prop
  | _, [] => True
  | s, e :: es => P s e ∧ Along P (step s e) es

@[simp] theorem along_nil (P : σ → ε → Prop) (s : σ) : Along step P s [] := trivial

@[simp] theorem along_cons (P : σ → ε → Prop) (s : σ) (e : ε) (es : List ε) :
    Along step P s (e :: es) ↔ P s e ∧ Along step P (step s e) es := Iff.rfl

variable {step}

/-- What the steps satisfying `P` preserve holds at the end of a run made of them. -/
theorem Along.invariant {P : σ → ε → Prop} {I : σ → Prop}
    (hstep : ∀ s e, I s → P s e → I (step s e)) {s : σ} {es : List ε} (h : I s)
    (hP : Along step P s es) : I (run step s es) := by
  induction es generalizing s with
  | nil => exact h
  | cons e es ih => exact ih (hstep s e h hP.1) hP.2

/-- Under an invariant, a condition that implies `Q` on each step implies it along the run. -/
theorem Along.imp {P Q : σ → ε → Prop} {I : σ → Prop}
    (hstep : ∀ s e, I s → P s e → I (step s e)) (himp : ∀ s e, I s → P s e → Q s e) {s : σ}
    {es : List ε} (h : I s) (hP : Along step P s es) : Along step Q s es := by
  induction es generalizing s with
  | nil => trivial
  | cons e es ih => exact ⟨himp s e h hP.1, ih (hstep s e h hP.1) hP.2⟩

/-- Under an invariant, two conditions that agree on each step agree along a run. -/
theorem along_congr {P Q : σ → ε → Prop} {I : σ → Prop} (hstep : ∀ s e, I s → I (step s e))
    (hiff : ∀ s e, I s → (P s e ↔ Q s e)) {s : σ} {es : List ε} (h : I s) :
    Along step P s es ↔ Along step Q s es :=
  ⟨fun hP => hP.imp (fun s e hI _ => hstep s e hI) (fun s e hI => (hiff s e hI).mp) h,
    fun hQ => hQ.imp (fun s e hI _ => hstep s e hI) (fun s e hI => (hiff s e hI).mpr) h⟩

/-- A condition on a view of a machine that takes the same events. -/
theorem along_map {τ : Type*} {step' : τ → ε → τ} {f : σ → τ} {P : τ → ε → Prop}
    (hf : ∀ s e, f (step s e) = step' (f s) e) {s : σ} {es : List ε} :
    Along step (fun s e => P (f s) e) s es ↔ Along step' P (f s) es := by
  induction es generalizing s with
  | nil => exact Iff.rfl
  | cons e es ih => rw [along_cons, along_cons, ih, hf]

/-- Along a run: each event, in the state its predecessors lead to. -/
theorem along_iff_split {P : σ → ε → Prop} {s : σ} {es : List ε} :
    Along step P s es ↔
      ∀ pre e post, es = pre ++ e :: post → P (run step s pre) e := by
  induction es generalizing s with
  | nil => simp
  | cons e es ih =>
    rw [along_cons, ih]
    constructor
    · rintro ⟨hP, hes⟩ pre f post heq
      cases pre with
      | nil =>
        obtain ⟨rfl, -⟩ := List.cons.inj heq
        exact hP
      | cons g pre =>
        obtain ⟨rfl, htail⟩ := List.cons.inj heq
        exact hes pre f post htail
    · intro h
      exact ⟨h [] e es rfl, fun pre f post heq => h (e :: pre) f post (by rw [heq]; rfl)⟩

/-- What only steps satisfying `P` establish, and holds at the end of a run, was established by such
a step of the run. -/
theorem exists_split_of_run {P : σ → ε → Prop} (Q : σ → Prop)
    (hstep : ∀ s e, Q (step s e) → Q s ∨ P s e) {s : σ} (hs : ¬ Q s) {es : List ε}
    (h : Q (run step s es)) : ∃ pre e post, es = pre ++ e :: post ∧ P (run step s pre) e := by
  induction es using List.reverseRecOn with
  | nil => exact absurd h hs
  | append_singleton es e ih =>
    rw [run_snoc] at h
    rcases hstep _ e h with hQ | hP
    · obtain ⟨pre, f, post, rfl, hP⟩ := ih hQ
      exact ⟨pre, f, post ++ [e], by rw [List.append_assoc]; rfl, hP⟩
    · exact ⟨es, e, [], rfl, hP⟩

/-- The same under an invariant. -/
theorem exists_split_of_run_of_invariant {P : σ → ε → Prop} (Q : σ → Prop) {I : σ → Prop}
    (hinv : ∀ s e, I s → I (step s e)) (hstep : ∀ s e, I s → Q (step s e) → Q s ∨ P s e) {s : σ}
    (hI : I s) (hs : ¬ Q s) {es : List ε} (h : Q (run step s es)) :
    ∃ pre e post, es = pre ++ e :: post ∧ P (run step s pre) e := by
  refine exists_split_of_run (fun s => I s → Q s) (fun s e hnext => ?_) (fun hQ => hs (hQ hI))
    fun _ => h
  by_cases hIs : I s
  · exact (hstep s e hIs (hnext (hinv s e hIs))).imp_left fun hQ _ => hQ
  · exact .inl fun hIs' => absurd hIs' hIs

theorem along_append {P : σ → ε → Prop} {s : σ} {es fs : List ε} :
    Along step P s (es ++ fs) ↔ Along step P s es ∧ Along step P (run step s es) fs := by
  induction es generalizing s with
  | nil => exact (and_iff_right trivial).symm
  | cons e es ih => rw [List.cons_append, along_cons, along_cons, ih, run_cons, and_assoc]

theorem Along.and {P Q : σ → ε → Prop} {s : σ} {es : List ε} (hP : Along step P s es)
    (hQ : Along step Q s es) : Along step (fun s e => P s e ∧ Q s e) s es := by
  induction es generalizing s with
  | nil => trivial
  | cons e es ih => exact ⟨⟨hP.1, hQ.1⟩, ih hP.2 hQ.2⟩

/-- A condition that the events of a list meet in every state. -/
theorem along_of_mem {P : σ → ε → Prop} {es : List ε} (h : ∀ e ∈ es, ∀ s, P s e) (s : σ) :
    Along step P s es := by
  induction es generalizing s with
  | nil => trivial
  | cons e es ih =>
    exact ⟨h e List.mem_cons_self s, ih (fun f hf => h f (List.mem_cons_of_mem e hf)) (step s e)⟩

/-- A condition on the steps and one on the events of a run, together. -/
theorem Along.and_mem {P : σ → ε → Prop} {Q : ε → Prop} {s : σ} {es : List ε}
    (hP : Along step P s es) (hQ : ∀ e ∈ es, Q e) : Along step (fun s e => P s e ∧ Q e) s es := by
  induction es generalizing s with
  | nil => trivial
  | cons e es ih =>
    exact ⟨⟨hP.1, hQ e List.mem_cons_self⟩, ih hP.2 fun f hf => hQ f (List.mem_cons_of_mem e hf)⟩

/-- Under an invariant `J`, a condition that a step satisfies exactly when it keeps `I` holds along a
run exactly when `I` holds in every state of it. -/
theorem along_iff_forall_states {P : σ → ε → Prop} {I J : σ → Prop} {s : σ} {es : List ε}
    (hinv : ∀ s e, J s → J (step s e))
    (hstep : ∀ s, ∀ e ∈ es, J s → I s → (P s e ↔ I (step s e))) (hJ : J s) (h : I s) :
    Along step P s es ↔ ∀ pre post, es = pre ++ post → I (run step s pre) := by
  induction es generalizing s with
  | nil =>
    refine ⟨fun _ pre post heq => ?_, fun _ => trivial⟩
    obtain ⟨rfl, -⟩ := List.append_eq_nil_iff.mp heq.symm
    exact h
  | cons e es ih =>
    have htail : ∀ s, ∀ f ∈ es, J s → I s → (P s f ↔ I (step s f)) := fun s f hf =>
      hstep s f (List.mem_cons_of_mem e hf)
    have hhead := hstep s e List.mem_cons_self hJ h
    have hJ' := hinv s e hJ
    rw [along_cons]
    constructor
    · rintro ⟨hP, hes⟩ pre post heq
      cases pre with
      | nil => exact h
      | cons f pre =>
        obtain ⟨rfl, htl⟩ := List.cons.inj heq
        exact (ih htail hJ' (hhead.mp hP)).mp hes pre post htl
    · intro hall
      have hI : I (step s e) := hall [e] es rfl
      exact ⟨hhead.mpr hI, (ih htail hJ' hI).mpr fun pre post heq =>
        hall (e :: pre) post (by rw [heq]; rfl)⟩

/-! ## What a run puts out -/

section

variable {τ γ : Type*} (step) (out : σ → ε → List γ)

/-- What the steps of a run put out, one after another. -/
def outputs : σ → List ε → List γ
  | _, [] => []
  | s, e :: es => out s e ++ outputs (step s e) es

variable {step out}

/-- A view `f` of a machine takes the steps of another one, those that the machine puts out. -/
theorem run_outputs_of_invariant {step' : τ → γ → τ} {f : σ → τ} {I : σ → Prop}
    (hinv : ∀ s e, I s → I (step s e))
    (hf : ∀ s e, I s → f (step s e) = run step' (f s) (out s e)) {s : σ} (h : I s)
    (es : List ε) : f (run step s es) = run step' (f s) (outputs step out s es) := by
  induction es generalizing s with
  | nil => rfl
  | cons e es ih => rw [run_cons, ih (hinv s e h), hf s e h, outputs, run_append]

/-- The same, where it is not said which steps these are. -/
theorem exists_run_of_invariant {step' : τ → γ → τ} {f : σ → τ} {I : σ → Prop}
    (hinv : ∀ s e, I s → I (step s e))
    (hf : ∀ s e, I s → ∃ gs, f (step s e) = run step' (f s) gs) {s : σ} (h : I s) (es : List ε) :
    ∃ gs, f (run step s es) = run step' (f s) gs := by
  induction es generalizing s with
  | nil => exact ⟨[], rfl⟩
  | cons e es ih =>
    obtain ⟨gs, hgs⟩ := hf s e h
    obtain ⟨gs', hgs'⟩ := ih (hinv s e h)
    refine ⟨gs ++ gs', ?_⟩
    rw [run_cons, hgs', hgs, run_append]

theorem run_outputs {step' : τ → γ → τ} {f : σ → τ}
    (hf : ∀ s e, f (step s e) = run step' (f s) (out s e)) (s : σ) (es : List ε) :
    f (run step s es) = run step' (f s) (outputs step out s es) :=
  run_outputs_of_invariant (I := fun _ => True) (fun _ _ h => h) (fun s e _ => hf s e) trivial es

/-! What is put out may have to be put in first, and is held in between. -/

variable [DecidableEq γ] {held : σ → γ → ℕ} {input : ε → List γ}

theorem count_outputs_le
    (hstep : ∀ s e c, (out s e).count c + held (step s e) c ≤ held s c + (input e).count c) (s : σ)
    (es : List ε) (c : γ) : (outputs step out s es).count c + held (run step s es) c ≤
      held s c + (es.flatMap input).count c := by
  induction es generalizing s with
  | nil => simp [outputs]
  | cons e es ih =>
    have hhead := hstep s e c
    have htail := ih (step s e)
    rw [outputs, run_cons, List.flatMap_cons, List.count_append, List.count_append]
    omega

/-- A run puts out nothing more often than it was put in. -/
theorem outputs_subperm
    (hstep : ∀ s e c, (out s e).count c + held (step s e) c ≤ held s c + (input e).count c) {s : σ}
    (hstart : ∀ c, held s c = 0) (es : List ε) :
    (outputs step out s es).Subperm (es.flatMap input) := by
  refine List.subperm_ext_iff.mpr fun c _ => ?_
  have hle := count_outputs_le hstep s es c
  rw [hstart c] at hle
  omega

end

/-! ## What a run has shown -/

section

variable {α : Type*}

/-- Some state of the run showed `a`. -/
def Seen (step : σ → ε → σ) (shows : σ → α → Prop) (s : σ) (es : List ε) (a : α) : Prop :=
  ∃ pre post, es = pre ++ post ∧ shows (run step s pre) a

theorem Seen.append {shows : σ → α → Prop} {s : σ} {es : List ε} {a : α}
    (h : Seen step shows s es a) (fs : List ε) : Seen step shows s (es ++ fs) a := by
  obtain ⟨pre, post, rfl, hpre⟩ := h
  exact ⟨pre, post ++ fs, List.append_assoc _ _ _, hpre⟩

theorem seen_last {shows : σ → α → Prop} {s : σ} {es : List ε} {a : α}
    (h : shows (run step s es) a) : Seen step shows s es a :=
  ⟨es, [], (List.append_nil es).symm, h⟩

/-- The end of a run holds no more than the run has shown, when each step takes up only what was held
or shown before, or is shown after it. -/
theorem run_seen {shows : σ → α → Prop} {I : (α → Prop) → σ → Prop}
    (hmono : ∀ A B s, (∀ a, A a → B a) → I A s → I B s)
    (hstep : ∀ A s e, I A s → (∀ a, shows s a → A a) → (∀ a, shows (step s e) a → A a) →
      I A (step s e)) {s : σ} (hstart : I (shows s) s) (es : List ε) :
    I (Seen step shows s es) (run step s es) := by
  induction es using List.reverseRecOn with
  | nil => exact hmono _ _ _ (fun a ha => seen_last ha) hstart
  | append_singleton es e ih =>
    have hold : I (Seen step shows s (es ++ [e])) (run step s es) :=
      hmono _ _ _ (fun a ha => ha.append [e]) ih
    have hlast : ∀ a, shows (step (run step s es) e) a → Seen step shows s (es ++ [e]) a := by
      intro a ha
      refine seen_last ?_
      rw [run_snoc]
      exact ha
    rw [run_snoc]
    exact hstep _ _ _ hold (fun a ha => (seen_last ha).append [e]) hlast

end

end Machine
