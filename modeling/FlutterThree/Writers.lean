import FlutterThree.ClientView

/-!
# Who writes to the store

A press of a button starts a handler, and the handler may write to the store once its calls are
answered. A button can be pressed again meanwhile, calls fail, pages close, and handlers of both
apps take their steps in any order.

`writes_have_presses`: every write to the collection belongs to a press of its own, which came
before it. So no handler writes twice, and nothing but a press makes an app write.
-/

namespace FlutterThree

open Dart Firestore Flutter

/-- The number of a press, and the app it belongs to. -/
inductive PressNumber where
  | client (i q : ℕ)
  /-- The sessions of the admin app share their numbers. -/
  | admin (p : ℕ)
  deriving DecidableEq

/-- The press that an event is. -/
def AppsEvent.presses : AppsEvent → List PressNumber
  | .client i (.press q) => [.client i q]
  | .admin (.chooseRole _ p _ _) => [.admin p]
  | .admin (.pressAdd _ p) => [.admin p]
  | .admin (.pressEdit _ p) => [.admin p]
  | .admin (.pressDeleteNft _ p) => [.admin p]
  | .admin (.pressDelete _ p _) => [.admin p]
  | _ => []

/-- The press whose handler writes in a step. -/
def Apps.writers (s : Apps) : AppsEvent → List PressNumber
  | .client i (.update q) => if ((s.clients i).sent (.update q)).isSome then [.client i q] else []
  | .client i (.set q answered) =>
    if ((s.clients i).sent (.set q answered)).isSome then [.client i q] else []
  | .admin (.update p) => if (s.admin.db.writes p).isSome then [.admin p] else []
  | .admin (.delete p) =>
    match s.admin.jobs p with
    | some (.deleting _) => [.admin p]
    | _ => []
  | _ => []

/-- A step in which no handler writes leaves the collection as it is. -/
theorem Apps.users_step_of_writers {s : Apps} {e : AppsEvent} (h : s.writers e = []) :
    (s.step e).users = s.users := by
  unfold Apps.users
  rw [s.db_step e]
  cases hsent : s.sent e with
  | none => rfl
  | some e' =>
    change (s.admin.db.step e').users = _
    cases e with
    | client i a =>
      have hsome : ((s.clients i).sent a).isSome := by
        rw [show (s.clients i).sent a = some e' from hsent]
        rfl
      cases a with
      | update q =>
        simp only [writers, if_pos hsome] at h
        cases h
      | set q answered =>
        simp only [writers, if_pos hsome] at h
        cases h
      | _ => cases hsent
    | admin e =>
      cases e with
      | get p texts =>
        simp only [sent, AdminApp.sent] at hsent
        split at hsent
        · obtain rfl := Option.some.inj hsent
          exact Db.users_step_get _ _ _ _
        · obtain rfl := Option.some.inj hsent
          exact Db.users_step_get _ _ _ _
        · cases hsent
      | update p =>
        obtain rfl := Option.some.inj hsent
        simp only [writers] at h
        cases hw : s.admin.db.writes p with
        | none => simp only [Db.step, hw]
        | some w =>
          rw [hw] at h
          cases h
      | delete p =>
        simp only [sent, AdminApp.sent] at hsent
        simp only [writers] at h
        split at hsent
        · rename_i d hd
          rw [hd] at h
          cases h
        · cases hsent
      | _ => cases hsent

/-! ## Handlers of the client app -/

/-- The handler may still write to the store. -/
def ClientJob.writes : ClientJob → Bool
  | .upload _ => true
  | .register _ => true
  | _ => false

theorem Registration.exists_press {s : Registration} {e : RegisterEvent} {q : ℕ}
    {press : RegisterPress}
    (h : (s.step e).presses q = some press) :
    (∃ p, s.presses q = some p) ∨ ∃ k, e = .press k q := by
  cases hq : s.presses q with
  | some p => exact .inl ⟨p, rfl⟩
  | none =>
    have hresume : ∀ {q' p}, s.presses q' = some p → (s.resume q' p e).presses q = none := by
      intro q' p hq'
      have hne : q ≠ q' := fun heq => by
        rw [← heq, hq] at hq'
        cases hq'
      rw [s.presses_resume_of_ne hne, hq]
    unfold step at h
    split at h
    · cases hq.symm.trans h
    · rename_i k q'
      split at h
      · rcases Machine.update_eq_some h with ⟨rfl, -⟩ | ⟨-, hold⟩
        · exact .inr ⟨k, rfl⟩
        · cases hq.symm.trans hold
      · cases hq.symm.trans h
    · cases hq.symm.trans h
    all_goals
      split at h
      · rename_i hq'
        cases (hresume hq').symm.trans h
      · cases hq.symm.trans h

section

variable {b : Backend} {c : Client} {a : ClientAction} {q : ℕ}

/-- A handler that may write has done so before, or was just started. -/
theorem Client.writes_of_step {job : ClientJob} (h : (c.step b a).2.jobs q = some job)
    (hw : job.writes = true) : (∃ job', c.jobs q = some job' ∧ job'.writes = true) ∨ a = .press q := by
  have heffect := c.effect b a
  generalize c.step b a = x at h heffect
  have hset : ∀ {q' job'}, Function.update c.jobs q' job' q = some job →
      (∀ j, job' = some j → j.writes = false) → ∃ job', c.jobs q = some job' ∧ job'.writes = true := by
    intro q' job' h hnot
    rcases Machine.update_eq_some h with ⟨-, hnew⟩ | ⟨-, hold⟩
    · rw [hnot job hnew] at hw
      cases hw
    · exact ⟨job, hold, hw⟩
  cases heffect with
  | keep => exact .inl ⟨job, h, hw⟩
  | moved e he => exact .inl ⟨job, h, hw⟩
  | opened e he =>
    rw [jobs_goTo] at h
    exact .inl ⟨job, h, hw⟩
  | loaded k page e hk he ha =>
    rw [jobs_load] at h
    exact .inl ⟨job, h, hw⟩
  | served k f page given hk hf hfree => exact .inl ⟨job, h, hw⟩
  | uploads q' e he hk ha =>
    rcases Machine.update_eq_some h with ⟨rfl, hnew⟩ | ⟨-, hold⟩
    · obtain ⟨p, hp, rfl⟩ := Option.map_eq_some_iff.mp hnew
      rcases Uploads.page_step hp with ⟨p', hp', -⟩ | hpress
      · exact .inl ⟨_, presses_uploads.mp hp', rfl⟩
      · exact .inr (hk _ _ hpress).1
    · exact .inl ⟨job, hold, hw⟩
  | registration q' e hnumber hk ha =>
    rcases Machine.update_eq_some h with ⟨rfl, hnew⟩ | ⟨-, hold⟩
    · obtain ⟨p, hp, rfl⟩ := Option.map_eq_some_iff.mp hnew
      rcases Registration.exists_press hp with ⟨p', hp'⟩ | ⟨k, hpress⟩
      · exact .inl ⟨_, presses_registration.mp hp', rfl⟩
      · exact .inr (hk _ _ hpress)
    · exact .inl ⟨job, hold, hw⟩
  | refreshed q' page k =>
    rw [jobs_load] at h
    exact .inl (hset h fun j hj => by cases hj)
  | signedOut => exact .inl ⟨job, h, hw⟩
  | _ => exact .inl (hset h fun j hj => by cases hj <;> rfl)

theorem Client.any_setJob (c : Client) (q : ℕ) (job : Option ClientJob) :
    ((c.setJob q job).jobs q).any ClientJob.writes = job.any ClientJob.writes :=
  congrArg (Option.any ClientJob.writes) (Function.update_self _ _ _)

/-- The `update` of a `postNFT` is its last write, -/
theorem Client.jobs_update {k : ℕ} {file : PickedFile} {nft : NftArt}
    (hq : c.jobs q = some (.upload ⟨k, .update file nft⟩)) :
    ((c.step b (.update q)).2.jobs q).any ClientJob.writes = false := by
  simp only [step, postNFT, hq, withUploads_update hq]
  split
  · exact any_setJob _ q (some (.closing k true))
  · exact any_setJob _ q none

/-- and the `set` that of a `postRegister`. -/
theorem Client.jobs_set {press : RegisterPress} {user name account : String} {clean answered : Bool}
    (hq : c.jobs q = some (.register press)) (hstage : press.stage = .set user name account clean) :
    ((c.step b (.set q answered)).2.jobs q).any ClientJob.writes = false := by
  simp only [step, postRegister, hq, hstage, withRegistration_set hq hstage]
  cases answered
  · exact any_setJob _ q none
  · exact any_setJob _ q (some (.closing press.page false))

/-- A handler that writes could, and cannot again. -/
theorem Client.writes_of_sent {e : Event} (h : c.sent a = some e)
    (ha : a = .update q ∨ ∃ answered, a = .set q answered) :
    (c.jobs q).any ClientJob.writes = true ∧
      ((c.step b a).2.jobs q).any ClientJob.writes = false := by
  rcases ha with rfl | ⟨answered, rfl⟩
  · simp only [sent] at h
    split at h
    · rename_i hq
      exact ⟨by rw [hq]; rfl, jobs_update hq⟩
    · cases h
  · simp only [sent] at h
    split at h
    · rename_i press hq
      split at h
      · rename_i hstage
        exact ⟨by rw [hq]; rfl, jobs_set hq hstage⟩
      · cases h
    · cases h

end

/-- What the handler of a press may still write. -/
def Client.held (c : Client) (q : ℕ) : ℕ := ((c.jobs q).any ClientJob.writes).toNat

theorem Client.held_le {b : Backend} {c : Client} {a : ClientAction} {q : ℕ} (hne : a ≠ .press q) :
    (c.step b a).2.held q ≤ c.held q := by
  unfold held
  cases hjob : (c.step b a).2.jobs q with
  | none => exact Nat.zero_le _
  | some job =>
    cases hw : job.writes with
    | false =>
      rw [Option.any_some, hw]
      exact Nat.zero_le _
    | true =>
      obtain ⟨job', hjob', hw'⟩ := (Client.writes_of_step hjob hw).resolve_right hne
      rw [hjob', Option.any_some, Option.any_some, hw, hw']

/-! ## Handlers of the admin app -/

/-- The handler is waiting for the call after which it may write to the store. -/
def Job.waits : Job → Bool
  | .chosen _ => true
  | .pressed _ => true
  | .deleting _ => true
  | _ => false

/-- What the handler of a press may still write; an `update` that is on its way is one of the
store. -/
def AdminApp.held (s : AdminApp) (p : ℕ) : ℕ :=
  ((s.jobs p).any Job.waits).toNat + (s.db.writes p).isSome.toNat

section

variable {s : AdminApp} {p q : ℕ}

theorem AdminApp.jobs_setJob_self (s : AdminApp) (p : ℕ) (j : Option Job) :
    (s.setJob p j).jobs p = j := Function.update_self _ _ _

theorem AdminApp.held_setJob_of_ne (s : AdminApp) (hne : p ≠ q) (j : Option Job) :
    (s.setJob q j).held p = s.held p := by
  unfold held
  rw [show (s.setJob q j).jobs p = s.jobs p from Function.update_of_ne hne _ _]
  rfl

/-- A press may lead to one write. -/
theorem AdminApp.held_begin (s : AdminApp) (p q : ℕ) (j : Job) :
    (s.begin q j).held p ≤ s.held p + if p = q then 1 else 0 := by
  unfold begin
  split
  · by_cases hpq : p = q
    · subst hpq
      rw [if_pos rfl, held, jobs_setJob_self]
      have hle := Bool.toNat_le ((some j).any Job.waits)
      have hwrites : (s.db.writes p).isSome.toNat ≤ s.held p := Nat.le_add_left _ _
      change _ + (s.db.writes p).isSome.toNat ≤ _
      omega
    · rw [if_neg hpq, s.held_setJob_of_ne hpq]
      exact Nat.le_refl _
  · exact Nat.le_add_right _ _

/-- A handler that was waiting takes up its answer. -/
theorem AdminApp.held_get {j : Job} (hq : s.jobs q = some j) (hj : j.waits = true) (uid : String)
    (h : Handler) {next : Option Job} (hnext : next.any Job.waits = false) (p : ℕ) :
    ({ s with db := s.db.step (.get q uid h) }.setJob q next).held p ≤ s.held p := by
  by_cases hpq : p = q
  · subst hpq
    rw [held, jobs_setJob_self, hnext, held, hq, Option.any_some, hj]
    have hle := Bool.toNat_le (((s.db.step (.get p uid h)).writes p).isSome)
    change 0 + ((s.db.step (.get p uid h)).writes p).isSome.toNat ≤ 1 + _
    omega
  · rw [AdminApp.held_setJob_of_ne _ hpq, held, s.db.writes_get_of_ne hpq]
    exact Nat.le_refl _

/-- An `update` is off its way when it has reached the store. -/
theorem AdminApp.held_update (s : AdminApp) (p q : ℕ) :
    (if p = q then (s.db.writes q).isSome.toNat else 0) +
      AdminApp.held { s with db := s.db.step (.update q) } p ≤ s.held p := by
  by_cases hpq : p = q
  · subst hpq
    rw [if_pos rfl, held, held, s.db.writes_step_update]
    exact Nat.le_of_eq (Nat.add_comm _ _)
  · rw [if_neg hpq, held, s.db.writes_update_of_ne hpq]
    exact Nat.le_of_eq (Nat.zero_add _)

theorem AdminApp.held_setJob_le (s : AdminApp) (q : ℕ) {next : Option Job}
    (hnext : next.any Job.waits = false) (p : ℕ) : (s.setJob q next).held p ≤ s.held p := by
  by_cases hpq : p = q
  · subst hpq
    rw [held, jobs_setJob_self, hnext]
    exact Nat.add_le_add_right (Nat.zero_le _) _
  · exact Nat.le_of_eq (s.held_setJob_of_ne hpq next)

theorem AdminApp.held_write (s : AdminApp) (p q : ℕ) :
    (if p = q then (s.db.writes q).isSome.toNat else 0) + (s.write q).held p ≤ s.held p := by
  refine Nat.le_trans (Nat.add_le_add_left ?_ _) (s.held_update p q)
  unfold write
  split
  · refine AdminApp.held_setJob_le _ q ?_ p
    split <;> rfl
  · exact Nat.le_refl _

theorem AdminApp.held_answer (s : AdminApp) (q : ℕ) (texts : NftArt) (p : ℕ) :
    (s.answer q texts).held p ≤ s.held p := by
  unfold answer
  split
  · rename_i c hc
    refine held_get hc rfl _ _ ?_ p
    split <;> rfl
  · rename_i b hb
    exact held_get hb rfl _ _ rfl p
  · exact Nat.le_refl _

theorem AdminApp.held_delete {d : Deletion} (hq : s.jobs q = some (.deleting d)) (p : ℕ) :
    (if p = q then 1 else 0) + ({ s with db := s.db.step (.deleteUser d.id) }.setJob q
      (some (.deleted d))).held p ≤ s.held p := by
  by_cases hpq : p = q
  · subst hpq
    rw [if_pos rfl, held, jobs_setJob_self, held, hq]
    exact Nat.le_of_eq (congrArg (1 + ·) (Nat.zero_add _))
  · rw [if_neg hpq, AdminApp.held_setJob_of_ne _ hpq]
    exact Nat.le_of_eq (Nat.zero_add _)

theorem AdminApp.held_replacePage (s : AdminApp) (q p : ℕ) : (s.replacePage q).held p ≤ s.held p := by
  unfold replacePage
  split
  · exact s.held_setJob_le q rfl p
  · exact Nat.le_refl _

theorem AdminApp.held_pressDelete (s : AdminApp) (k q i p : ℕ) :
    (s.pressDelete k q i).held p ≤ s.held p + if p = q then 1 else 0 := by
  unfold pressDelete
  split
  · split
    · split
      · exact Nat.le_add_right _ _
      · exact s.held_begin p q _
    · exact Nat.le_add_right _ _
  · exact Nat.le_add_right _ _

end

/-! ## Both apps -/

theorem Apps.sent_of_mem_writers {s : Apps} {i q : ℕ} {a : ClientAction}
    (h : .client i q ∈ s.writers (.client i a)) : ∃ e, (s.clients i).sent a = some e ∧
      (a = .update q ∨ ∃ answered, a = .set q answered) ∧
      s.writers (.client i a) = [.client i q] := by
  cases a with
  | update q' =>
    simp only [writers] at h ⊢
    split at h
    · rename_i hsome
      obtain ⟨e, he⟩ := Option.isSome_iff_exists.mp hsome
      obtain ⟨-, rfl⟩ := PressNumber.client.inj (List.mem_singleton.mp h)
      exact ⟨e, he, .inl rfl, if_pos hsome⟩
    · cases h
  | set q' answered =>
    simp only [writers] at h ⊢
    split at h
    · rename_i hsome
      obtain ⟨e, he⟩ := Option.isSome_iff_exists.mp hsome
      obtain ⟨-, rfl⟩ := PressNumber.client.inj (List.mem_singleton.mp h)
      exact ⟨e, he, .inr ⟨answered, rfl⟩, if_pos hsome⟩
    · cases h
  | _ => cases h

/-- What the handler of a press may still write. -/
def Apps.held (s : Apps) : PressNumber → ℕ
  | .client i q => (s.clients i).held q
  | .admin p => s.admin.held p

theorem count_admin (p q : ℕ) : [PressNumber.admin q].count (.admin p) = if p = q then 1 else 0 := by
  by_cases hpq : p = q
  · rw [if_pos hpq, hpq, List.count_singleton_self]
  · rw [if_neg hpq]
    refine List.count_eq_zero_of_not_mem fun hmem => hpq ?_
    exact PressNumber.admin.inj (List.mem_singleton.mp hmem)

theorem Apps.count_writers_admin (s : Apps) (e : AdminEvent) (p : ℕ) :
    (s.writers (.admin e)).count (.admin p) + (s.admin.step e).held p ≤
      s.admin.held p + (AppsEvent.admin e).presses.count (.admin p) := by
  have hquiet : ∀ t : AdminApp, t.held p ≤ s.admin.held p → 0 + t.held p ≤ s.admin.held p + 0 :=
    fun t ht => (Nat.zero_add _).symm ▸ ht
  have hpress : ∀ (q : ℕ) (t : AdminApp), t.held p ≤ s.admin.held p + (if p = q then 1 else 0) →
      0 + t.held p ≤ s.admin.held p + [PressNumber.admin q].count (.admin p) := by
    intro q t ht
    rw [count_admin, Nat.zero_add]
    exact ht
  cases e with
  | chooseRole k q i newValue =>
    refine hpress q _ ?_
    simp only [AdminApp.step]
    split
    · exact s.admin.held_begin p q _
    · exact Nat.le_add_right _ _
  | pressAdd k q | pressEdit k q | pressDeleteNft k q =>
    refine hpress q _ ?_
    simp only [AdminApp.step]
    split
    · exact s.admin.held_begin p q _
    · exact Nat.le_add_right _ _
  | pressDelete k q i => exact hpress q _ (s.admin.held_pressDelete k q i p)
  | get q texts => exact hquiet _ (s.admin.held_answer q texts p)
  | update q =>
    refine Nat.le_trans (Nat.add_le_add_right ?_ _) (s.admin.held_write p q)
    simp only [writers]
    split
    · rename_i hw
      rw [count_admin, hw]
      exact Nat.le_refl _
    · exact Nat.zero_le _
  | replace q => exact hquiet _ (s.admin.held_replacePage q p)
  | delete q =>
    cases hjob : s.admin.jobs q with
    | none =>
      simp only [AdminApp.step, writers, hjob]
      exact hquiet _ (Nat.le_refl _)
    | some job =>
      cases job with
      | deleting d =>
        simp only [AdminApp.step, writers, hjob]
        rw [count_admin]
        exact s.admin.held_delete hjob p
      | _ =>
        simp only [AdminApp.step, writers, hjob]
        exact hquiet _ (Nat.le_refl _)
  | refreshUsers q =>
    refine hquiet _ ?_
    simp only [AdminApp.step]
    split
    · exact s.admin.held_setJob_le q rfl p
    · exact Nat.le_refl _
  | openNft k i =>
    refine hquiet _ ?_
    simp only [AdminApp.step]
    split
    · split <;> exact Nat.le_refl _
    · exact Nat.le_refl _
  | login k page user | logout k | openUser k i | openAdd k =>
    refine hquiet _ ?_
    simp only [AdminApp.step]
    split <;> exact Nat.le_refl _
  | _ => exact hquiet _ (Nat.le_refl _)

theorem Apps.count_writers_client (s : Apps) (i : ℕ) (a : ClientAction) (q : ℕ) :
    (s.writers (.client i a)).count (.client i q) + ((s.clients i).step s.backend a).2.held q ≤
      (s.clients i).held q + (AppsEvent.client i a).presses.count (.client i q) := by
  by_cases hpress : a = .press q
  · subst hpress
    have hcount : (AppsEvent.client i (.press q)).presses.count (.client i q) = 1 :=
      List.count_singleton_self
    have hle := Bool.toNat_le
      ((((s.clients i).step s.backend (.press q)).2.jobs q).any ClientJob.writes)
    rw [hcount, show s.writers (.client i (.press q)) = [] from rfl, List.count_nil, Nat.zero_add]
    exact Nat.le_trans hle (Nat.le_add_left _ _)
  by_cases hmem : .client i q ∈ s.writers (.client i a)
  · obtain ⟨e, hsent, ha, hwriters⟩ := Apps.sent_of_mem_writers hmem
    obtain ⟨hbefore, hafter⟩ := Client.writes_of_sent (b := s.backend) hsent ha
    rw [hwriters, List.count_singleton_self, Client.held, hafter, Client.held, hbefore]
    exact Nat.le_add_right _ _
  · rw [List.count_eq_zero_of_not_mem hmem, Nat.zero_add]
    exact Nat.le_trans (Client.held_le hpress) (Nat.le_add_right _ _)

theorem Apps.count_writers_of_client_ne (s : Apps) (i : ℕ) (a : ClientAction) {c : PressNumber}
    (hc : ∀ q, c ≠ .client i q) : (s.writers (.client i a)).count c = 0 := by
  refine List.count_eq_zero_of_not_mem fun hmem => ?_
  cases a with
  | update q =>
    simp only [writers] at hmem
    split at hmem
    · exact hc q (List.mem_singleton.mp hmem)
    · cases hmem
  | set q answered =>
    simp only [writers] at hmem
    split at hmem
    · exact hc q (List.mem_singleton.mp hmem)
    · cases hmem
  | _ => cases hmem

theorem Apps.count_writers_of_admin_ne (s : Apps) (e : AdminEvent) (i q : ℕ) :
    (s.writers (.admin e)).count (.client i q) = 0 := by
  refine List.count_eq_zero_of_not_mem fun hmem => ?_
  cases e with
  | update p =>
    simp only [writers] at hmem
    split at hmem
    · cases List.mem_singleton.mp hmem
    · cases hmem
  | delete p =>
    simp only [writers] at hmem
    split at hmem
    · cases List.mem_singleton.mp hmem
    · cases hmem
  | _ => cases hmem

/-- A client app begins no `update` of a map it has read. -/
theorem Client.writes_step (b : Backend) (c : Client) (a : ClientAction) :
    (c.step b a).1.db.writes = b.db.writes := by
  rw [c.db_step b a]
  cases hsent : c.sent a with
  | none => rfl
  | some e => rcases Client.sent_cases hsent with ⟨uid, nft, rfl⟩ | ⟨uid, name, rfl⟩ <;> rfl

theorem Apps.count_writers (s : Apps) (e : AppsEvent) (c : PressNumber) :
    (s.writers e).count c + (s.step e).held c ≤ s.held c + e.presses.count c := by
  cases c with
  | admin p =>
    cases e with
    | admin e => exact s.count_writers_admin e p
    | client i a =>
      have hheld : (s.step (.client i a)).held (.admin p) = s.held (.admin p) := by
        have hwrites := (s.clients i).writes_step s.backend a
        exact congrArg (fun w => ((s.admin.jobs p).any Job.waits).toNat + (w p).isSome.toNat) hwrites
      have hcount := s.count_writers_of_client_ne i a (c := .admin p) fun _ h => by cases h
      rw [hcount, hheld, Nat.zero_add]
      exact Nat.le_add_right _ _
  | client i q =>
    cases e with
    | admin e =>
      rw [s.count_writers_of_admin_ne, Nat.zero_add]
      exact Nat.le_add_right _ _
    | client j a =>
      by_cases hij : i = j
      · subst hij
        rw [held, Apps.step, Apps.clients_setClient]
        exact s.count_writers_client i a q
      · have hclient : (s.step (.client j a)).clients i = s.clients i := Function.update_of_ne hij _ _
        have hcount := s.count_writers_of_client_ne j a (c := .client i q) fun _ h =>
          hij (PressNumber.client.inj h).1
        rw [hcount, held, hclient, Nat.zero_add]
        exact Nat.le_add_right _ _

/-- **Every write has a press of its own.** The presses whose handlers write in a run are among
those of the run, each no more often; the other steps change no document. -/
theorem writes_have_presses (users : Users) (accounts : List Account)
    (accepts : String → String → Bool) (currentUsers : ℕ → Option String) (es : List AppsEvent) :
    (Machine.outputs Apps.step Apps.writers (Apps.start users accounts accepts currentUsers)
      es).Subperm (es.flatMap AppsEvent.presses) ∧
      ∀ s e, Apps.writers s e = [] → (s.step e).users = s.users := by
  refine ⟨Machine.outputs_subperm Apps.count_writers (fun c => ?_) es, fun s e h =>
    Apps.users_step_of_writers h⟩
  cases c <;> rfl

end FlutterThree
