import Mathlib.Data.List.Nodup

/-!
# A navigator

A stack of pages, as Flutter's `Navigator` keeps it: `push` puts a page on top, `pop` takes the top
one off, `pushReplacement` does both. A page that left the stack stays mounted until its exit
transition ends (`settle`), so code that was started on it can still use it.

Pages are numbered in the order of their creation. That no number is used twice is part of the type,
so a page that is looked up by its number is the one that was meant.
-/

namespace Flutter

/-- A page: its number and its state. -/
structure Page (ρ : Type*) where
  id : ℕ
  route : ρ

/-- The pages of one app, the top of the stack first. -/
structure Navigator (ρ : Type*) where
  stack : List (Page ρ)
  /-- The pages that left the stack and are not disposed yet. -/
  closing : List (Page ρ)
  next : ℕ
  fresh : ∀ p ∈ stack ++ closing, p.id < next
  nodup : ((stack ++ closing).map Page.id).Nodup

namespace Navigator

variable {ρ : Type*}

/-- The pages whose state exists. -/
def mounted (n : Navigator ρ) : List (Page ρ) := n.stack ++ n.closing

def top (n : Navigator ρ) : Option (Page ρ) := n.stack.head?

/-- The state of a mounted page. -/
def find (n : Navigator ρ) (id : ℕ) : Option ρ :=
  (n.mounted.find? fun p => p.id = id).map Page.route

/-- The app's first page. -/
def home (r : ρ) : Navigator ρ where
  stack := [⟨0, r⟩]
  closing := []
  next := 1
  fresh p hp := by
    rw [List.append_nil, List.mem_singleton] at hp
    rw [hp]
    exact Nat.zero_lt_one
  nodup := List.nodup_singleton 0

def push (n : Navigator ρ) (r : ρ) : Navigator ρ where
  stack := ⟨n.next, r⟩ :: n.stack
  closing := n.closing
  next := n.next + 1
  fresh p hp := by
    rcases List.mem_cons.mp hp with rfl | hp
    · exact Nat.lt_succ_self _
    · exact Nat.lt_succ_of_lt (n.fresh p hp)
  nodup := by
    refine List.nodup_cons.mpr ⟨fun h => ?_, n.nodup⟩
    obtain ⟨p, hp, hid⟩ := List.mem_map.mp h
    exact Nat.ne_of_lt (n.fresh p hp) hid

private theorem perm_pop (xs ys : List (Page ρ)) :
    (xs.drop 1 ++ (xs.take 1 ++ ys)).Perm (xs ++ ys) := by
  rw [← List.append_assoc]
  refine List.Perm.append_right ys ?_
  have h := List.take_append_drop 1 xs
  exact (List.perm_append_comm.trans (List.Perm.of_eq h))

/-- The top page leaves the stack. -/
def pop (n : Navigator ρ) : Navigator ρ where
  stack := n.stack.drop 1
  closing := n.stack.take 1 ++ n.closing
  next := n.next
  fresh p hp := n.fresh p ((perm_pop n.stack n.closing).mem_iff.mp hp)
  nodup := ((perm_pop n.stack n.closing).map Page.id).nodup_iff.mpr n.nodup

/-- A new page takes the place of the top one. -/
def pushReplacement (n : Navigator ρ) (r : ρ) : Navigator ρ :=
  if n.stack.isEmpty then n else n.pop.push r

/-- The states of the pages change, each by its number. -/
def modify (n : Navigator ρ) (f : ℕ → ρ → ρ) : Navigator ρ where
  stack := n.stack.map fun p => ⟨p.id, f p.id p.route⟩
  closing := n.closing.map fun p => ⟨p.id, f p.id p.route⟩
  next := n.next
  fresh p hp := by
    rw [← List.map_append] at hp
    obtain ⟨q, hq, rfl⟩ := List.mem_map.mp hp
    exact n.fresh q hq
  nodup := by
    rw [← List.map_append, List.map_map]
    exact n.nodup

/-- `setState` on one page: nothing happens to the others, nor when it is disposed. -/
def modifyAt (n : Navigator ρ) (id : ℕ) (f : ρ → ρ) : Navigator ρ :=
  n.modify fun i r => if i = id then f r else r

/-- The exit transitions end. -/
def settle (n : Navigator ρ) : Navigator ρ where
  stack := n.stack
  closing := []
  next := n.next
  fresh p hp := n.fresh p (List.mem_append_left _ (by rwa [List.append_nil] at hp))
  nodup := by
    have h := n.nodup
    rw [List.map_append] at h
    rw [List.append_nil]
    exact h.of_append_left

/-! ## The stack -/

@[simp] theorem stack_push (n : Navigator ρ) (r : ρ) :
    (n.push r).stack = ⟨n.next, r⟩ :: n.stack := rfl

@[simp] theorem stack_pop (n : Navigator ρ) : n.pop.stack = n.stack.drop 1 := rfl

@[simp] theorem stack_modifyAt (n : Navigator ρ) (id : ℕ) (f : ρ → ρ) :
    (n.modifyAt id f).stack =
      n.stack.map fun p => ⟨p.id, if p.id = id then f p.route else p.route⟩ := rfl

theorem stack_pushReplacement {n : Navigator ρ} {p : Page ρ} {ps : List (Page ρ)}
    (h : n.stack = p :: ps) (r : ρ) : (n.pushReplacement r).stack = ⟨n.next, r⟩ :: ps := by
  unfold pushReplacement
  rw [h, List.isEmpty_cons, if_neg Bool.false_ne_true, stack_push, stack_pop, h]
  rfl

theorem top_modify (n : Navigator ρ) (f : ℕ → ρ → ρ) :
    (n.modify f).top = n.top.map fun p => ⟨p.id, f p.id p.route⟩ := List.head?_map

theorem next_le_pushReplacement (n : Navigator ρ) (r : ρ) : n.next ≤ (n.pushReplacement r).next := by
  unfold pushReplacement
  split
  · exact Nat.le_refl _
  · exact Nat.le_succ _

theorem top_of_stack {n : Navigator ρ} {p : Page ρ} {ps : List (Page ρ)} (h : n.stack = p :: ps) :
    n.top = some p := by
  rw [top, h]
  rfl

/-- The numbers of the pages on the stack. -/
def ids (n : Navigator ρ) : List ℕ := n.stack.map Page.id

theorem ids_modifyAt (n : Navigator ρ) (id : ℕ) (f : ρ → ρ) : (n.modifyAt id f).ids = n.ids := by
  rw [ids, stack_modifyAt, List.map_map]
  rfl

theorem ids_pop (n : Navigator ρ) : n.pop.ids = n.ids.drop 1 := by
  rw [ids, stack_pop, List.map_drop, ids]

/-! ## Which pages are mounted -/

theorem mem_mounted_of_top {n : Navigator ρ} {p : Page ρ} (h : n.top = some p) : p ∈ n.mounted :=
  List.mem_append_left _ (List.mem_of_mem_head? h)

theorem mem_mounted_of_find {n : Navigator ρ} {id : ℕ} {r : ρ} (h : n.find id = some r) :
    ⟨id, r⟩ ∈ n.mounted := by
  obtain ⟨p, hp, rfl⟩ := Option.map_eq_some_iff.mp h
  have hid : p.id = id := by simpa using List.find?_some hp
  rw [← hid]
  exact List.mem_of_find?_eq_some hp

/-- Two mounted pages with the same number are one page. -/
theorem eq_of_id_eq {n : Navigator ρ} {p q : Page ρ} (hp : p ∈ n.mounted) (hq : q ∈ n.mounted)
    (h : p.id = q.id) : p = q :=
  List.inj_on_of_nodup_map n.nodup hp hq h

theorem find_of_mem {n : Navigator ρ} {p : Page ρ} (hp : p ∈ n.mounted) :
    n.find p.id = some p.route := by
  unfold find
  cases hfind : n.mounted.find? fun q => q.id = p.id with
  | none =>
    have habsent := List.find?_eq_none.mp hfind p hp
    exact absurd (decide_eq_true rfl) habsent
  | some q =>
    have hid : q.id = p.id := by simpa using List.find?_some hfind
    rw [eq_of_id_eq (List.mem_of_find?_eq_some hfind) hp hid]
    rfl

theorem mem_mounted_home {r : ρ} {p : Page ρ} (h : p ∈ (home r).mounted) : p = ⟨0, r⟩ := by
  have hmem : p ∈ [(⟨0, r⟩ : Page ρ)] ++ [] := h
  rwa [List.append_nil, List.mem_singleton] at hmem

theorem mem_mounted_push {n : Navigator ρ} {r : ρ} {p : Page ρ} :
    p ∈ (n.push r).mounted ↔ p = ⟨n.next, r⟩ ∨ p ∈ n.mounted :=
  List.mem_cons

theorem mem_mounted_pop {n : Navigator ρ} {p : Page ρ} : p ∈ n.pop.mounted ↔ p ∈ n.mounted :=
  (perm_pop n.stack n.closing).mem_iff

theorem mem_mounted_pushReplacement {n : Navigator ρ} {r : ρ} {p : Page ρ}
    (h : p ∈ (n.pushReplacement r).mounted) : p = ⟨n.next, r⟩ ∨ p ∈ n.mounted := by
  unfold pushReplacement at h
  split at h
  · exact .inr h
  · rw [mem_mounted_push, mem_mounted_pop] at h
    exact h

theorem mem_mounted_modify {n : Navigator ρ} {f : ℕ → ρ → ρ} {p : Page ρ} :
    p ∈ (n.modify f).mounted ↔ ∃ q ∈ n.mounted, p = ⟨q.id, f q.id q.route⟩ := by
  have hmap : (n.modify f).mounted = n.mounted.map fun q => ⟨q.id, f q.id q.route⟩ :=
    List.map_append.symm
  rw [hmap, List.mem_map]
  constructor
  · rintro ⟨q, hq, rfl⟩
    exact ⟨q, hq, rfl⟩
  · rintro ⟨q, hq, rfl⟩
    exact ⟨q, hq, rfl⟩

/-- A page that `setState` was called on is the old one, or its new state. -/
theorem mem_mounted_modifyAt {n : Navigator ρ} {id : ℕ} {f : ρ → ρ} {p : Page ρ}
    (h : p ∈ (n.modifyAt id f).mounted) :
    p ∈ n.mounted ∨ p.id = id ∧ ∃ r, ⟨id, r⟩ ∈ n.mounted ∧ p.route = f r := by
  obtain ⟨q, hq, rfl⟩ := mem_mounted_modify.mp h
  by_cases hid : q.id = id
  · refine .inr ⟨hid, q.route, ?_, if_pos hid⟩
    rw [← hid]
    exact hq
  · left
    rw [if_neg hid]
    exact hq

theorem mem_mounted_of_settle {n : Navigator ρ} {p : Page ρ} (h : p ∈ n.settle.mounted) :
    p ∈ n.mounted := by
  have hmem : p ∈ n.stack ++ [] := h
  rw [List.append_nil] at hmem
  exact List.mem_append_left _ hmem

/-! ## Every mounted page -/

section

variable {n : Navigator ρ} {P : ℕ → ρ → Prop}

/-- Every mounted page satisfies `P`, with its number. -/
def AllAt (n : Navigator ρ) (P : ℕ → ρ → Prop) : Prop := ∀ p ∈ n.mounted, P p.id p.route

/-- Every mounted page satisfies `P`. -/
abbrev All (n : Navigator ρ) (P : ρ → Prop) : Prop := n.AllAt fun _ => P

theorem allAt_home {r : ρ} (hr : P 0 r) : (home r).AllAt P := by
  intro p hp
  rw [mem_mounted_home hp]
  exact hr

theorem AllAt.top (h : n.AllAt P) {p : Page ρ} (htop : n.top = some p) : P p.id p.route :=
  h p (mem_mounted_of_top htop)

theorem AllAt.push (h : n.AllAt P) {r : ρ} (hr : P n.next r) : (n.push r).AllAt P := by
  intro p hp
  rcases mem_mounted_push.mp hp with rfl | hold
  · exact hr
  · exact h p hold

theorem AllAt.pop (h : n.AllAt P) : n.pop.AllAt P := fun p hp => h p (mem_mounted_pop.mp hp)

theorem AllAt.pushReplacement (h : n.AllAt P) {r : ρ} (hr : P n.next r) :
    (n.pushReplacement r).AllAt P := by
  intro p hp
  rcases mem_mounted_pushReplacement hp with rfl | hold
  · exact hr
  · exact h p hold

theorem AllAt.modifyAt (h : n.AllAt P) (id : ℕ) {f : ρ → ρ} (hf : ∀ r, P id r → P id (f r)) :
    (n.modifyAt id f).AllAt P := by
  intro p hp
  rcases mem_mounted_modifyAt hp with hold | ⟨rfl, r, hr, hroute⟩
  · exact h p hold
  · rw [hroute]
    exact hf r (h _ hr)

theorem AllAt.settle (h : n.AllAt P) : n.settle.AllAt P := fun p hp => h p (mem_mounted_of_settle hp)

end

/-! ## What a page lies on -/

/-- Each page is related to the one below it, if there is one. -/
def Layered (R : ρ → Option ρ → Prop) : List (Page ρ) → Prop
  | [] => True
  | p :: ps => R p.route (ps.head?.map Page.route) ∧ Layered R ps

/-- The pages on the stack lie on each other as `R` says. -/
def Rests (n : Navigator ρ) (R : ρ → Option ρ → Prop) : Prop := Layered R n.stack

section

variable {n : Navigator ρ} {R : ρ → Option ρ → Prop}

theorem rests_home {r : ρ} (hr : R r none) : (home r).Rests R := ⟨hr, trivial⟩

theorem Rests.push (h : n.Rests R) {r : ρ} (hr : R r (n.top.map Page.route)) :
    (n.push r).Rests R := ⟨hr, h⟩

theorem Rests.pop (h : n.Rests R) : n.pop.Rests R := by
  unfold Rests at h ⊢
  rw [stack_pop]
  cases hstack : n.stack with
  | nil => trivial
  | cons p ps =>
    rw [hstack] at h
    exact h.2

theorem Rests.pushReplacement (h : n.Rests R) {r : ρ} (hr : ∀ below, R r below) :
    (n.pushReplacement r).Rests R := by
  unfold Navigator.pushReplacement
  split
  · exact h
  · exact h.pop.push (hr _)

theorem Layered.map {ps : List (Page ρ)} (h : Layered R ps) {f : ℕ → ρ → ρ}
    (hf : ∀ i j r below, R r below → R (f i r) (below.map (f j))) :
    Layered R (ps.map fun p => ⟨p.id, f p.id p.route⟩) := by
  induction ps with
  | nil => trivial
  | cons p ps ih =>
    refine ⟨?_, ih h.2⟩
    cases ps with
    | nil => exact hf p.id p.id _ _ h.1
    | cons q qs => exact hf p.id q.id _ _ h.1

theorem Rests.modify (h : n.Rests R) {f : ℕ → ρ → ρ}
    (hf : ∀ i j r below, R r below → R (f i r) (below.map (f j))) : (n.modify f).Rests R :=
  Layered.map h hf

theorem Rests.settle (h : n.Rests R) : n.settle.Rests R := h

/-- What the page on top lies on. -/
theorem Rests.top (h : n.Rests R) {p : Page ρ} (htop : n.top = some p) :
    R p.route (n.pop.top.map Page.route) := by
  unfold Rests at h
  unfold Navigator.top at htop ⊢
  rw [stack_pop]
  cases hstack : n.stack with
  | nil =>
    rw [hstack] at htop
    cases htop
  | cons q qs =>
    rw [hstack] at htop h
    obtain rfl := Option.some.inj htop
    exact h.1

end

/-! ## The pages of pending code

Code that waits for something remembers the number of the page it was started on. -/

variable {P : ρ → Prop}

/-- `id` is in use, and the page with this number satisfies `P` if it is on the stack. -/
structure Owns (n : Navigator ρ) (id : ℕ) (P : ρ → Prop) : Prop where
  old : id < n.next
  on : ∀ p ∈ n.stack, p.id = id → P p.route

theorem Owns.push {n : Navigator ρ} {id : ℕ} (h : n.Owns id P) (r : ρ) : (n.push r).Owns id P where
  old := Nat.lt_succ_of_lt h.old
  on p hp hid := by
    rcases List.mem_cons.mp hp with rfl | hp
    · exact absurd hid (Nat.ne_of_gt h.old)
    · exact h.on p hp hid

theorem Owns.pop {n : Navigator ρ} {id : ℕ} (h : n.Owns id P) : n.pop.Owns id P where
  old := h.old
  on p hp := h.on p (List.mem_of_mem_drop hp)

theorem Owns.pushReplacement {n : Navigator ρ} {id : ℕ} (h : n.Owns id P) (r : ρ) :
    (n.pushReplacement r).Owns id P := by
  unfold Navigator.pushReplacement
  split
  · exact h
  · exact h.pop.push r

theorem Owns.settle {n : Navigator ρ} {id : ℕ} (h : n.Owns id P) : n.settle.Owns id P where
  old := h.old
  on := h.on

theorem Owns.modify {n : Navigator ρ} {id : ℕ} (h : n.Owns id P) {f : ℕ → ρ → ρ}
    (hf : ∀ i r, P r → P (f i r)) : (n.modify f).Owns id P where
  old := h.old
  on p hp hid := by
    obtain ⟨q, hq, rfl⟩ := List.mem_map.mp hp
    exact hf q.id q.route (h.on q hq hid)

theorem Owns.modifyAt {n : Navigator ρ} {id : ℕ} (h : n.Owns id P) (i : ℕ) {f : ρ → ρ}
    (hf : ∀ r, P r → P (f r)) : (n.modifyAt i f).Owns id P := by
  refine h.modify fun j r hr => ?_
  split
  · exact hf r hr
  · exact hr

theorem owns_of_top {n : Navigator ρ} {p : Page ρ} (htop : n.top = some p) (hp : P p.route) :
    n.Owns p.id P where
  old := n.fresh p (mem_mounted_of_top htop)
  on q hq hid := by
    rw [eq_of_id_eq (List.mem_append_left _ hq) (mem_mounted_of_top htop) hid]
    exact hp

/-- A page that satisfies `P` covers others but is not covered itself. -/
def TopOnly (n : Navigator ρ) (P : ρ → Prop) : Prop := ∀ p ∈ n.stack.drop 1, ¬ P p.route

theorem TopOnly.push {n : Navigator ρ} (h : n.TopOnly P) {p : Page ρ} (htop : n.top = some p)
    (hp : ¬ P p.route) (r : ρ) : (n.push r).TopOnly P := by
  intro q hq
  change q ∈ n.stack at hq
  cases hstack : n.stack with
  | nil =>
    rw [hstack] at hq
    cases hq
  | cons p' ps =>
    obtain rfl := Option.some.inj ((top_of_stack hstack).symm.trans htop)
    rw [hstack] at hq
    rcases List.mem_cons.mp hq with rfl | hq
    · exact hp
    · exact h q (by rw [hstack]; exact hq)

theorem TopOnly.pop {n : Navigator ρ} (h : n.TopOnly P) : n.pop.TopOnly P :=
  fun p hp => h p (List.mem_of_mem_drop hp)

theorem TopOnly.pushReplacement {n : Navigator ρ} (h : n.TopOnly P) (r : ρ) :
    (n.pushReplacement r).TopOnly P := by
  unfold Navigator.pushReplacement
  split
  · exact h
  · exact h

theorem TopOnly.modify {n : Navigator ρ} (h : n.TopOnly P) {f : ℕ → ρ → ρ}
    (hf : ∀ i r, P (f i r) → P r) : (n.modify f).TopOnly P := by
  intro p hp hP
  change p ∈ (n.stack.map _).drop 1 at hp
  rw [← List.map_drop] at hp
  obtain ⟨q, hq, rfl⟩ := List.mem_map.mp hp
  exact h q hq (hf q.id q.route hP)

theorem TopOnly.modifyAt {n : Navigator ρ} (h : n.TopOnly P) (i : ℕ) {f : ρ → ρ}
    (hf : ∀ r, P (f r) → P r) : (n.modifyAt i f).TopOnly P := by
  refine h.modify fun j r hr => ?_
  split at hr
  · exact hf r hr
  · exact hr

/-- From `n` to `n'`, no page was closed but the one with the number `id`, on top. -/
def ClosesOnly (n n' : Navigator ρ) (id : ℕ) : Prop := n'.ids = n.ids ∨ n.ids = id :: n'.ids

/-- `Navigator.of(context).pop()`, run by code that was started on a page nothing is pushed on, closes
another page just when its own is in its exit transition. -/
theorem closesOnly_pop_iff {n n' : Navigator ρ} {id : ℕ} (hown : n.Owns id P) (htop : n.TopOnly P)
    (hn' : n'.ids = if (n.find id).isSome then n.ids.drop 1 else n.ids) :
    n.ClosesOnly n' id ↔ n.stack = [] ∨ ∀ p ∈ n.closing, p.id ≠ id := by
  constructor
  · intro h
    by_contra hclosing
    push Not at hclosing
    obtain ⟨hstack, p, hp, rfl⟩ := hclosing
    obtain ⟨q, qs, hq⟩ := List.exists_cons_of_ne_nil hstack
    have hmem : q ∈ n.mounted := List.mem_append_left _ (hq ▸ List.mem_cons_self)
    have hids : n.ids = q.id :: qs.map Page.id := by rw [ids, hq, List.map_cons]
    rw [find_of_mem (List.mem_append_right _ hp), Option.isSome_some, if_pos rfl, hids] at hn'
    rcases h with h | h
    · rw [hn', hids] at h
      exact absurd (congrArg List.length h) (by simp)
    · -- the page on top is not the closing one
      rw [hids] at h
      have hsame := eq_of_id_eq hmem (List.mem_append_right _ hp) (List.cons.inj h).1
      have hnodup := n.nodup
      rw [List.map_append] at hnodup
      refine (List.nodup_append.mp hnodup).2.2 _ ?_ _ (List.mem_map.mpr ⟨p, hp, rfl⟩) rfl
      exact List.mem_map.mpr ⟨q, hq ▸ List.mem_cons_self, congrArg Page.id hsame⟩
  · intro h
    by_cases hempty : n.stack = []
    · left
      have hids : n.ids = [] := by rw [ids, hempty, List.map_nil]
      rw [hn', hids]
      exact ite_self _
    · cases hfind : n.find id with
      | none =>
        rw [hfind, Option.isSome_none, if_neg Bool.false_ne_true] at hn'
        exact .inl hn'
      | some r =>
        right
        rw [hfind, Option.isSome_some, if_pos rfl] at hn'
        obtain ⟨q, qs, hq⟩ := List.exists_cons_of_ne_nil hempty
        have hids : n.ids = q.id :: qs.map Page.id := by rw [ids, hq, List.map_cons]
        rcases List.mem_append.mp (mem_mounted_of_find hfind) with hmem | hmem
        · -- on the stack it is on top
          have hP := hown.on _ hmem rfl
          rw [hq] at hmem
          rcases List.mem_cons.mp hmem with hmem | hmem
          · rw [hn', hids, ← hmem]
            rfl
          · exact absurd hP (htop _ (by rw [hq]; exact hmem))
        · exact absurd rfl (h.resolve_left hempty _ hmem)

end Navigator

end Flutter
