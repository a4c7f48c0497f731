import Mathlib.Computability.Language

/-!
# Matching at the start of a text

Patterns made of character classes, sequences and `+`, with the backtracking matcher that lists what
is left of a text after each way of matching a pattern at its start. `mem_rests` relates it to the
language of the pattern: the rests are what follows the words of the language that the text begins
with. A pattern of this kind matches no empty word, so the repetition ends.
-/

namespace Regex

variable {α : Type*}

inductive Pattern (α : Type*) where
  /-- One symbol of a class. -/
  | one (p : α → Bool)
  | seq (r s : Pattern α)
  /-- `r+`. -/
  | plus (r : Pattern α)

/-- The words a pattern describes. -/
def Pattern.language : Pattern α → Language α
  | one p => {w | ∃ c, p c = true ∧ w = [c]}
  | seq r s => r.language * s.language
  | plus r => r.language * KStar.kstar r.language

/-- Up to `n` matches of `rests`, one at least, each going on where the last one ended. -/
def repeated (rests : List α → List (List α)) : ℕ → List α → List (List α)
  | 0, _ => []
  | n + 1, xs => (rests xs).flatMap fun ys => ys :: repeated rests n ys

/-- What is left of a text after a match at its start, for each way of matching. -/
def Pattern.rests : Pattern α → List α → List (List α)
  | one _, [] => []
  | one p, c :: cs => if p c then [cs] else []
  | seq r s, xs => (r.rests xs).flatMap s.rests
  | plus r, xs => repeated r.rests xs.length xs

/-- `^r` has a match. -/
def Pattern.matchesStart (r : Pattern α) (xs : List α) : Bool := !(r.rests xs).isEmpty

@[simp] theorem mem_language_one {p : α → Bool} {w : List α} :
    w ∈ (Pattern.one p).language ↔ ∃ c, p c = true ∧ w = [c] := Iff.rfl

theorem mem_language_seq {r s : Pattern α} {w : List α} :
    w ∈ (r.seq s).language ↔ ∃ u ∈ r.language, ∃ v ∈ s.language, u ++ v = w :=
  Language.mem_mul

/-- A pattern matches no empty word. -/
theorem ne_nil_of_mem_language {r : Pattern α} {w : List α} (h : w ∈ r.language) : w ≠ [] := by
  induction r generalizing w with
  | one p =>
    obtain ⟨c, -, rfl⟩ := h
    exact List.cons_ne_nil c []
  | seq r s ihr _ =>
    obtain ⟨u, hu, v, -, rfl⟩ := Language.mem_mul.mp h
    exact fun hnil => ihr hu (List.append_eq_nil_iff.mp hnil).1
  | plus r ih =>
    obtain ⟨u, hu, v, -, rfl⟩ := Language.mem_mul.mp h
    exact fun hnil => ih hu (List.append_eq_nil_iff.mp hnil).1

/-- The repetition, when the matcher it repeats is right. -/
theorem mem_repeated {rests : List α → List (List α)} {l : Language α}
    (hrests : ∀ xs ys, ys ∈ rests xs ↔ ∃ w ∈ l, xs = w ++ ys) {n : ℕ} {xs ys : List α} :
    ys ∈ repeated rests n xs ↔
      ∃ w ∈ l, ∃ ws : List (List α), (∀ v ∈ ws, v ∈ l) ∧ ws.length < n ∧
        xs = w ++ (ws.flatten ++ ys) := by
  induction n generalizing xs with
  | zero => simp [repeated]
  | succ n ih =>
    rw [repeated, List.mem_flatMap]
    constructor
    · rintro ⟨zs, hzs, hys⟩
      obtain ⟨w, hw, rfl⟩ := (hrests xs zs).mp hzs
      rcases List.mem_cons.mp hys with rfl | hys
      · exact ⟨w, hw, [], nofun, Nat.succ_pos n, rfl⟩
      · obtain ⟨v, hv, ws, hws, hlen, rfl⟩ := ih.mp hys
        refine ⟨w, hw, v :: ws, ?_, Nat.succ_lt_succ hlen, ?_⟩
        · rintro u (_ | ⟨_, hu⟩)
          · exact hv
          · exact hws u hu
        · rw [List.flatten_cons, List.append_assoc]
    · rintro ⟨w, hw, ws, hws, hlen, rfl⟩
      refine ⟨ws.flatten ++ ys, (hrests _ _).mpr ⟨w, hw, rfl⟩, ?_⟩
      cases ws with
      | nil => exact List.mem_cons_self
      | cons v ws =>
        refine List.mem_cons_of_mem _ (ih.mpr ?_)
        refine ⟨v, hws v List.mem_cons_self, ws, fun u hu => hws u (List.mem_cons_of_mem v hu),
          Nat.lt_of_succ_lt_succ hlen, ?_⟩
        rw [List.flatten_cons, List.append_assoc]

private theorem length_le_flatten {ws : List (List α)} (h : ∀ v ∈ ws, v ≠ []) :
    ws.length ≤ ws.flatten.length := by
  induction ws with
  | nil => exact Nat.le_refl 0
  | cons v ws ih =>
    have hv := List.length_pos_of_ne_nil (h v List.mem_cons_self)
    have hws := ih fun u hu => h u (List.mem_cons_of_mem v hu)
    rw [List.flatten_cons, List.length_append, List.length_cons]
    omega

/-- **The matcher is right**: the rests are what follows a word of the language. -/
theorem Pattern.mem_rests {r : Pattern α} {xs ys : List α} :
    ys ∈ r.rests xs ↔ ∃ w ∈ r.language, xs = w ++ ys := by
  induction r generalizing xs ys with
  | one p =>
    cases xs with
    | nil => simp [rests]
    | cons c cs =>
      rw [rests]
      constructor
      · intro h
        split at h
        · rename_i hp
          obtain rfl := List.mem_singleton.mp h
          exact ⟨[c], ⟨c, hp, rfl⟩, rfl⟩
        · cases h
      · rintro ⟨w, ⟨d, hd, rfl⟩, heq⟩
        obtain ⟨rfl, rfl⟩ := List.cons.inj heq
        rw [if_pos hd]
        exact List.mem_singleton_self _
  | seq r s ihr ihs =>
    rw [rests, List.mem_flatMap]
    constructor
    · rintro ⟨zs, hzs, hys⟩
      obtain ⟨u, hu, rfl⟩ := ihr.mp hzs
      obtain ⟨v, hv, rfl⟩ := ihs.mp hys
      exact ⟨u ++ v, Language.append_mem_mul hu hv, (List.append_assoc u v ys).symm⟩
    · rintro ⟨w, hw, rfl⟩
      obtain ⟨u, hu, v, hv, rfl⟩ := Language.mem_mul.mp hw
      exact ⟨v ++ ys, ihr.mpr ⟨u, hu, List.append_assoc u v ys⟩, ihs.mpr ⟨v, hv, rfl⟩⟩
  | plus r ih =>
    rw [rests, mem_repeated fun _ _ => ih]
    constructor
    · rintro ⟨w, hw, ws, hws, -, rfl⟩
      refine ⟨w ++ ws.flatten, ?_, (List.append_assoc w ws.flatten ys).symm⟩
      exact Language.append_mem_mul hw (Language.mem_kstar.mpr ⟨ws, rfl, hws⟩)
    · rintro ⟨w, hw, rfl⟩
      obtain ⟨u, hu, v, hv, rfl⟩ := Language.mem_mul.mp hw
      obtain ⟨ws, rfl, hws⟩ := Language.mem_kstar_iff_exists_nonempty.mp hv
      refine ⟨u, hu, ws, fun v hv => (hws v hv).1, ?_, List.append_assoc u ws.flatten ys⟩
      -- no word is empty, so there are fewer of them than symbols
      have hpos := List.length_pos_of_ne_nil (ne_nil_of_mem_language hu)
      have hlen := length_le_flatten fun v hv => (hws v hv).2
      simp only [List.length_append]
      omega

/-- `^r` matches the texts that begin with a word of the language. -/
theorem Pattern.matchesStart_iff {r : Pattern α} {xs : List α} :
    r.matchesStart xs = true ↔ ∃ w ∈ r.language, ∃ ys, xs = w ++ ys := by
  have hne : r.matchesStart xs = true ↔ r.rests xs ≠ [] := by
    rw [matchesStart, Bool.not_eq_true', List.isEmpty_eq_false_iff]
  rw [hne]
  constructor
  · intro h
    obtain ⟨ys, hys⟩ := List.exists_mem_of_ne_nil _ h
    obtain ⟨w, hw, heq⟩ := mem_rests.mp hys
    exact ⟨w, hw, ys, heq⟩
  · rintro ⟨w, hw, ys, heq⟩
    exact List.ne_nil_of_mem (mem_rests.mpr ⟨w, hw, heq⟩)

/-- The words of `p+`, for a class `p`. -/
theorem mem_language_plus_one {p : α → Bool} {w : List α} :
    w ∈ (Pattern.plus (.one p)).language ↔ w ≠ [] ∧ ∀ c ∈ w, p c = true := by
  constructor
  · intro h
    refine ⟨ne_nil_of_mem_language h, ?_⟩
    obtain ⟨u, ⟨c, hc, rfl⟩, v, hv, rfl⟩ := Language.mem_mul.mp h
    obtain ⟨ws, rfl, hws⟩ := Language.mem_kstar.mp hv
    intro d hd
    rcases List.mem_cons.mp hd with rfl | hd
    · exact hc
    · obtain ⟨x, hx, hdx⟩ := List.mem_flatten.mp hd
      obtain ⟨b, hb, rfl⟩ := hws x hx
      rw [List.mem_singleton.mp hdx]
      exact hb
  · rintro ⟨hne, hall⟩
    cases w with
    | nil => exact absurd rfl hne
    | cons c cs =>
      have hhead : [c] ∈ (Pattern.one p).language := ⟨c, hall c List.mem_cons_self, rfl⟩
      refine Language.append_mem_mul hhead ?_
      refine Language.mem_kstar.mpr ⟨cs.map fun d => [d], ?_, fun v hv => ?_⟩
      · rw [← List.flatMap_def, List.flatMap_singleton']
      · obtain ⟨d, hd, rfl⟩ := List.mem_map.mp hv
        exact ⟨d, hall d (List.mem_cons_of_mem c hd), rfl⟩

/-- A text splits in one way at its first symbol outside a class. -/
theorem append_cons_inj {p : α → Bool} {xs xs' ys ys' : List α} {a a' : α}
    (hxs : ∀ c ∈ xs, p c = true) (hxs' : ∀ c ∈ xs', p c = true) (ha : p a = false)
    (ha' : p a' = false) (h : xs ++ a :: ys = xs' ++ a' :: ys') : xs = xs' ∧ a = a' ∧ ys = ys' := by
  induction xs generalizing xs' with
  | nil =>
    cases xs' with
    | nil => exact ⟨rfl, (List.cons.inj h).1, (List.cons.inj h).2⟩
    | cons c xs' =>
      obtain rfl : a = c := (List.cons.inj h).1
      rw [hxs' a List.mem_cons_self] at ha
      cases ha
  | cons c xs ih =>
    have htail : ∀ d ∈ xs, p d = true := fun d hd => hxs d (List.mem_cons_of_mem c hd)
    cases xs' with
    | nil =>
      obtain rfl : c = a' := (List.cons.inj h).1
      rw [hxs c List.mem_cons_self] at ha'
      cases ha'
    | cons c' xs' =>
      obtain ⟨rfl, hrest⟩ := List.cons.inj h
      obtain ⟨rfl, heq⟩ := ih htail (fun d hd => hxs' d (List.mem_cons_of_mem c hd)) hrest
      exact ⟨rfl, heq⟩

end Regex
