import FlutterThree.Apps

/-!
# Accounts and their documents

What the registrations of all client apps, beside the uploads and the work of the admins, do to the
documents as a whole.

`documents_have_accounts`: every document is that of exactly one account, whatever happens.
`deleted_documents_stay_deleted`: when every press that reads `currentUser` finds the account it
has created, a registration overwrites no document, and no document comes into being a second time,
so what an admin has deleted stays deleted even while people register. `FlutterThree.Register`
shows what goes wrong otherwise.
-/

namespace FlutterThree

open Dart Firestore

/-! ## What a step of the registrations does -/

/-- What a step does to the accounts and the documents. -/
inductive Registration.Registers (s : Registration) (e : RegisterEvent) (t : Registration) :
    Prop where
  | keep (huids : t.uids = s.uids)
      (hemails : t.accounts.map Account.email = s.accounts.map Account.email) (hdb : t.db = s.db)
  | created (uid email : String) (hfresh : uid ∉ s.uids) (hemail : ¬ s.HasAccount email)
      (haccounts : t.accounts = s.accounts ++ [Account.mk uid email none]) (hdb : t.db = s.db)
  | set (q : ℕ) (answered : Bool) (press : RegisterPress) (user name account : String)
      (clean : Bool) (he : e = .set q answered) (hq : s.presses q = some press)
      (hstage : press.stage = .set user name account clean) (haccounts : t.accounts = s.accounts)
      (hdb : t.db = s.db.step (.register user name)) (hgone : t.presses q = none)

theorem Registration.uids_profile (s : Registration) (user name : String) :
    (s.profile user name).uids = s.uids := by
  change (s.accounts.map _).map Account.uid = s.accounts.map Account.uid
  rw [List.map_map]
  refine List.map_congr_left fun a _ => ?_
  dsimp only [Function.comp_apply]
  split <;> rfl

theorem Registration.emails_profile (s : Registration) (user name : String) :
    (s.profile user name).accounts.map Account.email = s.accounts.map Account.email := by
  change (s.accounts.map _).map Account.email = _
  rw [List.map_map]
  refine List.map_congr_left fun a _ => ?_
  dsimp only [Function.comp_apply]
  split <;> rfl

theorem Registration.registers (s : Registration) (e : RegisterEvent) :
    s.Registers e (s.step e) := by
  by_cases hset : ∃ q answered, e = .set q answered
  · obtain ⟨q, answered, rfl⟩ := hset
    cases hq : s.presses q with
    | none =>
      have hkeep : s.step (.set q answered) = s := by simp only [step, hq]
      rw [hkeep]
      exact .keep rfl rfl rfl
    | some press =>
      have hresume : s.step (.set q answered) = s.resume q press (.set q answered) := by
        simp only [step, hq]
      rw [hresume]
      simp only [resume]
      split
      · rename_i user name account clean hstage
        exact .set q answered press user name account clean rfl hq hstage rfl rfl
          (Function.update_self _ _ _)
      · exact .keep rfl rfl rfl
  · have hdb : (s.step e).db = s.db :=
      db_step_of_ne fun q answered he => hset ⟨q, answered, he⟩
    have heffect := s.effect e
    generalize s.step e = t at heffect hdb
    cases heffect with
    | created q press uid answer user next he hq hnone haccepts hfresh hnext =>
      exact .created uid press.email hfresh hnone rfl rfl
    | named q press user he hq hstage =>
      exact .keep (s.uids_profile user press.name) (s.emails_profile user press.name) rfl
    | lost q press user he hq hstage =>
      exact .keep (s.uids_profile user press.name) (s.emails_profile user press.name) rfl
    | _ => exact .keep rfl rfl hdb

/-- A press after a step, by what it was before. -/
inductive Registration.Next (s : Registration) (e : RegisterEvent) (q : ℕ) :
    RegisterPress → Prop where
  | keep (press : RegisterPress) (hq : s.presses q = some press) : Next s e q press
  | fresh (press : RegisterPress) (hstage : press.stage = .createUser) : Next s e q press
  | created (press : RegisterPress) (uid : String) (hfresh : uid ∉ s.uids)
      (huid : uid ∈ (s.step e).uids) (hcurrent : (s.step e).currentUser = some uid) :
      Next s e q { press with stage := .updateProfile uid }
  | own (press next : RegisterPress) (account : String) (hq : s.presses q = some press)
      (hacc : press.stage.account = some account) (hacc' : next.stage.account = some account)
      (hown : next.stage.Own) : Next s e q next
  | read (press : RegisterPress) (user name account : String) (he : e = .currentUser q)
      (hq : s.presses q = some press) (hstage : press.stage = .currentUser account)
      (huser : s.currentUser = some user) :
      Next s e q { press with stage := .set user name account true }

theorem Registration.Next.setPress {s t : Registration} {e : RegisterEvent} {q q' : ℕ}
    {next : Option RegisterPress} {p : RegisterPress} (ht : t.presses = s.presses)
    (hp : (t.setPress q' next).presses q = some p)
    (hnext : q = q' → next = some p → s.Next e q p) : s.Next e q p := by
  rcases Machine.update_eq_some hp with ⟨hq, hnow⟩ | ⟨-, hold⟩
  · exact hnext hq hnow
  · rw [ht] at hold
    exact .keep p hold

/-- The account that a press goes on with is the `currentUser` when it is created. -/
theorem Registration.currentUser_of_created {s : Registration} {q : ℕ} {uid : String}
    {answer : CreateAnswer} {p : RegisterPress}
    (haccounts : (s.step (.createUser q uid answer)).accounts ≠ s.accounts)
    (hp : (s.step (.createUser q uid answer)).presses q = some p) :
    (s.step (.createUser q uid answer)).currentUser = some uid := by
  cases hq : s.presses q with
  | none =>
    simp only [step, hq] at haccounts
    exact absurd rfl haccounts
  | some press =>
    have hresume : s.step (.createUser q uid answer) =
        s.resume q press (.createUser q uid answer) := by simp only [step, hq]
    rw [hresume] at haccounts hp ⊢
    cases hstage : press.stage with
    | createUser =>
      simp only [resume, hstage] at haccounts hp ⊢
      unfold create at haccounts hp ⊢
      by_cases hrefused : s.HasAccount press.email ∨ s.accepts press.email press.password = false
      · rw [if_pos hrefused] at haccounts
        exact absurd rfl haccounts
      · by_cases hused : uid ∈ s.accounts.map Account.uid
        · rw [if_neg hrefused, if_pos hused] at haccounts
          exact absurd rfl haccounts
        · rw [if_neg hrefused, if_neg hused] at hp ⊢
          cases answer with
          | user => rfl
          | noUser => rfl
          | lost =>
            dsimp only at hp
            rw [presses_setPress_self] at hp
            cases hp
    | _ =>
      simp only [resume, hstage] at haccounts
      exact absurd rfl haccounts

theorem Registration.next {s : Registration} {e : RegisterEvent} {q : ℕ} {p : RegisterPress}
    (h : (s.step e).presses q = some p) : s.Next e q p := by
  have heffect := s.effect e
  generalize ht : s.step e = t at h heffect
  cases heffect with
  | keep => exact .keep p h
  | type k fields => exact .keep p h
  | signOut => exact .keep p h
  | press k q' he hq =>
    refine Next.setPress rfl h fun _ hp => ?_
    obtain rfl := Option.some.inj hp
    exact .fresh _ rfl
  | ended q' => exact Next.setPress rfl h fun _ hp => by cases hp
  | created q' press uid answer user next he hq hnone haccepts hfresh hnext =>
    refine Next.setPress (t := { s with
      accounts := s.accounts ++ [Account.mk uid press.email none], currentUser := user }) rfl h
      fun hqq hp => ?_
    rcases hnext with rfl | rfl
    · cases hp
    · obtain rfl := Option.some.inj hp
      have hadded : s.accounts ++ [Account.mk uid press.email none] ≠ s.accounts := fun h =>
        List.cons_ne_nil _ _ (List.append_right_eq_self.mp h)
      subst he hqq
      refine .created press uid hfresh ?_ (currentUser_of_created (ht ▸ hadded) (ht ▸ h))
      rw [ht]
      change uid ∈ (s.accounts ++ [Account.mk uid press.email none]).map Account.uid
      rw [List.map_append]
      exact List.mem_append_right _ (List.mem_singleton_self uid)
  | named q' press user he hq hstage =>
    refine Next.setPress (t := s.profile user press.name) rfl h fun hqq hp => ?_
    obtain rfl := Option.some.inj hp
    subst hqq
    exact .own press _ user hq (by rw [hstage]; rfl) rfl trivial
  | lost q' press user he hq hstage =>
    refine Next.setPress (t := s.profile user press.name) rfl h fun hqq hp => ?_
    obtain rfl := Option.some.inj hp
    subst hqq
    exact .own press _ user hq (by rw [hstage]; rfl) rfl rfl
  | reloaded q' press user hq hstage =>
    refine Next.setPress rfl h fun hqq hp => ?_
    obtain rfl := Option.some.inj hp
    subst hqq
    exact .own press _ user hq (by rw [hstage]; rfl) rfl trivial
  | returned q' press user account he hq hstage huser =>
    refine Next.setPress rfl h fun hqq hp => ?_
    obtain rfl := Option.some.inj hp
    subst hqq
    exact .read press user _ account he hq hstage huser
  | noUser q' press account he hq hstage huser =>
    exact Next.setPress (t := { s with done := s.done ++ [Registered.mk account none] }) rfl h
      fun _ hp => by cases hp
  | raised q' press user he hq hstage =>
    refine Next.setPress rfl h fun hqq hp => ?_
    obtain rfl := Option.some.inj hp
    subst hqq
    refine .own press _ user hq ?_ rfl rfl
    rcases hstage with hstage | hstage | hstage
    · rw [hstage]; rfl
    · rw [hstage]; rfl
    · rw [hstage]; rfl
  | set q' answered press user name account clean hq hstage =>
    exact Next.setPress (t := { s with
      db := s.db.step (.register user name)
      done := if answered && clean then s.done ++ [Registered.mk account (some (user, name))]
        else s.done }) rfl h fun _ hp => by cases hp

theorem Registration.currentUser_raise (s : Registration) (q : ℕ) (press : RegisterPress) :
    (s.raise q press).currentUser = s.currentUser := by
  unfold raise
  split <;> rfl

/-- The account that is created becomes the `currentUser`, if its creation is answered. -/
theorem Registration.currentUser_create {s : Registration} {q : ℕ} {press : RegisterPress}
    {uid : String} {answer : CreateAnswer} {u : String}
    (h : (s.create q press uid answer).currentUser = some u) :
    s.currentUser = some u ∨ u ∈ (s.create q press uid answer).uids := by
  have hnew : uid ∈ (s.accounts ++ [Account.mk uid press.email none]).map Account.uid := by
    rw [List.map_append]
    exact List.mem_append_right _ (List.mem_singleton_self uid)
  unfold create at h ⊢
  split at h
  · exact .inl h
  · split at h
    · exact .inl h
    · rename_i hrefused hfresh
      rw [if_neg hrefused, if_neg hfresh]
      cases answer with
      | user =>
        obtain rfl := Option.some.inj h
        exact .inr hnew
      | noUser =>
        obtain rfl := Option.some.inj h
        exact .inr hnew
      | lost => exact .inl h

/-- The `currentUser` after a step is the one before, or an account. -/
theorem Registration.currentUser_step {s : Registration} {e : RegisterEvent} {u : String}
    (h : (s.step e).currentUser = some u) : s.currentUser = some u ∨ u ∈ (s.step e).uids := by
  have hresume : ∀ q press, (s.resume q press e).currentUser = some u →
      s.currentUser = some u ∨ u ∈ (s.resume q press e).uids := by
    intro q press h
    cases e with
    | createUser q' uid answer =>
      simp only [resume] at h ⊢
      split at h
      · exact currentUser_create h
      · exact .inl h
    | updateProfile q' answered =>
      left
      simp only [resume] at h
      split at h
      · split at h
        · exact h
        · rwa [currentUser_raise] at h
      · exact h
    | reload q' =>
      left
      simp only [resume] at h
      split at h <;> exact h
    | currentUser q' =>
      left
      simp only [resume] at h
      split at h
      · split at h
        · exact h
        · exact h
      · exact h
    | set q' answered =>
      left
      simp only [resume] at h
      split at h <;> exact h
    | fail q' =>
      left
      rwa [show s.resume q press (.fail q') = s.raise q press from rfl, currentUser_raise] at h
    | type k fields => exact .inl h
    | press k q' => exact .inl h
    | signOut => exact .inl h
  unfold step at h ⊢
  split at h
  · exact .inl h
  · split at h <;> exact .inl h
  · cases h
  all_goals
    cases hq : s.presses _ with
    | none =>
      rw [hq] at h
      exact .inl h
    | some press =>
      rw [hq] at h
      exact hresume _ press h

/-! ## In the apps -/

section

variable {b : Backend} {c : Client} {a : ClientAction} {x : Backend × Client}

/-- A registration of the app after a step. -/
theorem Client.Effect.next (h : Client.Effect b c a x) {q : ℕ} {press : RegisterPress}
    (hq : x.2.jobs q = some (.register press)) :
    c.jobs q = some (.register press) ∨
      ∃ e, (∀ q', e = .currentUser q' → a = .readCurrentUser q') ∧ x = c.withRegistration b q e ∧
        (c.registration b).Next e q press := by
  have hset : ∀ {q' : ℕ} {job : Option ClientJob},
      Function.update c.jobs q' job q = some (.register press) → job ≠ some (.register press) →
      c.jobs q = some (.register press) := by
    intro q' job h hne
    rcases Machine.update_eq_some h with ⟨-, hnew⟩ | ⟨-, hold⟩
    · exact absurd hnew hne
    · exact hold
  cases h with
  | keep => exact .inl hq
  | moved e he => exact .inl hq
  | opened e he =>
    rw [Client.jobs_goTo] at hq
    exact .inl hq
  | loaded k page e hk he ha =>
    rw [Client.jobs_load] at hq
    exact .inl hq
  | served k f page given hk hf hfree => exact .inl hq
  | pressed q' k email => exact .inl (hset hq fun h => by cases h)
  | uploads q' e he hk =>
    refine .inl (hset hq fun h => ?_)
    obtain ⟨p, -, hp⟩ := Option.map_eq_some_iff.mp h
    cases hp
  | uploaded q' k file nft hq' => exact .inl (hset hq fun h => by cases h)
  | registration q' e hnumber hk ha =>
    rcases Machine.update_eq_some hq with ⟨rfl, hnew⟩ | ⟨-, hold⟩
    · obtain ⟨p, hp, hpress⟩ := Option.map_eq_some_iff.mp hnew
      obtain rfl := ClientJob.register.inj hpress
      exact .inr ⟨e, ha, rfl, Registration.next hp⟩
    · exact .inl hold
  | registered q' p user name account clean hq' hstage =>
    exact .inl (hset hq fun h => by cases h)
  | signedIn q' uid hacc => exact .inl (hset hq fun h => by cases h)
  | entered q' page uid hacc hpage hstack => exact .inl (hset hq fun h => by cases h)
  | finished q' page => exact .inl (hset hq fun h => by cases h)
  | refreshed q' page k =>
    rw [Client.jobs_load] at hq
    exact .inl (hset hq fun h => by cases h)
  | ended q' => exact .inl (hset hq fun h => by cases h)
  | signedOut => exact .inl hq

end

/-- The user of the app after a step is the one before, or has an account. -/
theorem Client.Effect.currentUser {b : Backend} {c : Client} {a : ClientAction}
    {x : Backend × Client} (h : Client.Effect b c a x) {u : String}
    (hu : x.2.currentUser = some u) :
    c.currentUser = some u ∨ u ∈ x.1.accounts.map Account.uid := by
  cases h with
  | opened e he =>
    rw [Client.currentUser_goTo] at hu
    exact .inl hu
  | loaded k page e hk he ha =>
    rw [Client.currentUser_load] at hu
    exact .inl hu
  | refreshed q page k =>
    rw [Client.currentUser_load] at hu
    exact .inl hu
  | registration q e hnumber hk ha =>
    exact Registration.currentUser_step (s := c.registration b) hu
  | signedIn q uid hacc =>
    obtain rfl := Option.some.inj hu
    exact .inr hacc
  | entered q page uid hacc hpage hstack =>
    obtain rfl := Option.some.inj hu
    exact .inr hacc
  | signedOut => cases hu
  | _ => exact .inl hu

/-- What a step of the apps does to the accounts and to which documents there are. -/
inductive Apps.Registers (s t : Apps) : Prop where
  | keep (huids : t.uids = s.uids) (hemails : t.emails = s.emails)
      (hdocs : ∀ id, (t.users.get id).isSome → (s.users.get id).isSome)
  | created (uid email : String) (hfresh : uid ∉ s.uids) (hemail : email ∉ s.emails)
      (huids : t.uids = s.uids ++ [uid]) (hemails : t.emails = s.emails ++ [email])
      (hdocs : ∀ id, (t.users.get id).isSome → (s.users.get id).isSome)
  | set (i q : ℕ) (press : RegisterPress) (user name account : String) (clean : Bool)
      (hq : (s.clients i).jobs q = some (.register press))
      (hstage : press.stage = .set user name account clean) (huids : t.uids = s.uids)
      (hemails : t.emails = s.emails)
      (hdocs : ∀ id, (t.users.get id).isSome → id = user ∨ (s.users.get id).isSome)
      (hgone : ∀ p, (t.clients i).jobs q ≠ some (.register p))

theorem Db.isSome_upload (s : Db) (uid : String) (nft : NftArt) (id : String) :
    ((s.step (.upload uid nft)).users.get id).isSome = (s.users.get id).isSome := by
  change ((s.users.update uid (postNFT nft)).get id).isSome = _
  rw [Collection.get_update]
  split
  · rename_i h
    rw [h, Option.isSome_map]
  · rfl

theorem Db.isSome_register {s : Db} {uid name id : String}
    (h : ((s.step (.register uid name)).users.get id).isSome) :
    id = uid ∨ (s.users.get id).isSome := by
  change ((s.users.set uid (registerDoc name)).get id).isSome at h
  rw [Collection.get_set] at h
  split at h
  · exact .inl ‹_›
  · exact .inr h

/-- The calls of a `postNFT` bring no document into being and remove none. -/
theorem Uploads.isSome_step {s : Uploads} {e : UploadEvent} (hother : ∀ e', e ≠ .other e')
    (id : String) : ((s.step e).db.users.get id).isSome = (s.db.users.get id).isSome := by
  by_cases hupdate : ∃ q, e = .update q
  · obtain ⟨q, rfl⟩ := hupdate
    simp only [step]
    split
    · exact Db.isSome_upload s.db _ _ id
    · rfl
  · rw [db_step_of_ne hother (not_exists.mp hupdate)]

theorem AdminApp.isSome_of_step {s : AdminApp} {e : AdminEvent} {id : String}
    (h : ((s.step e).db.users.get id).isSome) : (s.db.users.get id).isSome := by
  rcases s.users_step e with hkeep | ⟨p, -, hupdate⟩ | ⟨p, d, -, -, hdelete⟩
  · rwa [hkeep] at h
  · rwa [hupdate, Db.isSome_step_update] at h
  · rw [hdelete, Collection.get_delete] at h
    split at h
    · cases h
    · exact h

theorem Apps.registers (s : Apps) (e : AppsEvent) : s.Registers (s.step e) := by
  cases e with
  | admin e => exact .keep rfl rfl fun id h => AdminApp.isSome_of_step h
  | client i a =>
    have heffect := (s.clients i).effect s.backend a
    change s.Registers (s.setClient i ((s.clients i).step s.backend a))
    generalize (s.clients i).step s.backend a = x at heffect
    cases heffect with
    | uploads q e he hk ha =>
      exact .keep rfl rfl fun id h => by
        have hsame := ((s.clients i).uploads s.backend).isSome_step he id
        exact hsame ▸ h
    | uploaded q k file nft hq =>
      refine .keep rfl rfl fun id h => ?_
      have hsame := s.admin.db.isSome_upload ((s.clients i).uploadPages k).uid nft id
      exact hsame ▸ h
    | registration q e hnumber hk ha =>
      have hregisters := ((s.clients i).registration s.backend).registers e
      cases hregisters with
      | keep huids hemails hdb =>
        refine .keep huids hemails fun id h => ?_
        change ((((s.clients i).registration s.backend).step e).db.users.get id).isSome at h
        rw [hdb] at h
        exact h
      | created uid email hfresh hemail haccounts hdb =>
        refine .created uid email hfresh (fun h => ?_) ?_ ?_ fun id h => ?_
        · obtain ⟨acc, hacc, hmail⟩ := List.mem_map.mp h
          exact hemail ⟨acc, hacc, hmail⟩
        · exact (congrArg (List.map Account.uid) haccounts).trans List.map_append
        · exact (congrArg (List.map Account.email) haccounts).trans List.map_append
        · change ((((s.clients i).registration s.backend).step e).db.users.get id).isSome at h
          rw [hdb] at h
          exact h
      | set q' answered press user name account clean he hq hstage haccounts hdb hgone =>
        obtain rfl := hnumber q' answered he
        refine .set i q' press user name account clean (Client.presses_registration.mp hq) hstage
          (congrArg (List.map Account.uid) haccounts)
          (congrArg (List.map Account.email) haccounts) (fun id h => ?_) fun p hp => ?_
        · change ((((s.clients i).registration s.backend).step e).db.users.get id).isSome at h
          rw [hdb] at h
          exact Db.isSome_register h
        · rw [clients_setClient] at hp
          rcases Machine.update_eq_some hp with ⟨-, hnew⟩ | ⟨hne, -⟩
          · rw [hgone] at hnew
            cases hnew
          · exact hne rfl
    | registered q press user name account clean hq hstage =>
      refine .set i q press user name account clean hq hstage rfl rfl
        (fun id h => Db.isSome_register h) fun p hp => ?_
      rw [clients_setClient] at hp
      rcases Machine.update_eq_some hp with ⟨-, hnew⟩ | ⟨hne, -⟩
      · cases hnew
      · exact hne rfl
    | _ => exact .keep rfl rfl fun id h => h

theorem Apps.Registers.uids_mono {s t : Apps} (h : s.Registers t) {u : String} (hu : u ∈ s.uids) :
    u ∈ t.uids := by
  cases h with
  | keep huids hemails hdocs =>
    rw [huids]
    exact hu
  | created uid email hfresh hemail huids hemails hdocs =>
    rw [huids]
    exact List.mem_append_left _ hu
  | set i q press user name account clean hq hstage huids hemails hdocs hgone =>
    rw [huids]
    exact hu

/-- A registration that is under way after a step. -/
theorem Apps.next {s : Apps} {e : AppsEvent} {i q : ℕ} {press : RegisterPress}
    (h : ((s.step e).clients i).jobs q = some (.register press)) :
    (s.clients i).jobs q = some (.register press) ∨
      ∃ a e', e = .client i a ∧ (∀ q', e' = .currentUser q' → a = .readCurrentUser q') ∧
        s.step e = s.setClient i ((s.clients i).withRegistration s.backend q e') ∧
        ((s.clients i).registration s.backend).Next e' q press := by
  rcases s.client_step e i with hkeep | ⟨a, rfl, hstep⟩
  · rw [hkeep] at h
    exact .inl h
  · rw [hstep, clients_setClient] at h
    rcases ((s.clients i).effect s.backend a).next h with hold | ⟨e', ha, hx, hnext⟩
    · exact .inl hold
    · rw [hx] at hstep
      exact .inr ⟨a, e', rfl, ha, hstep, hnext⟩

/-! ## Documents and accounts -/

/-- The accounts that a press speaks of. -/
def RegisterStage.Names (u : String) : RegisterStage → Prop
  | .createUser => False
  | .updateProfile user => user = u
  | .reload user => user = u
  | .currentUser user => user = u
  | .set user _ account _ => user = u ∨ account = u

theorem RegisterStage.names_of_account {stage : RegisterStage} {u : String}
    (h : stage.account = some u) : stage.Names u := by
  cases stage with
  | createUser => cases h
  | updateProfile user => exact Option.some.inj h
  | reload user => exact Option.some.inj h
  | currentUser user => exact Option.some.inj h
  | set user name account clean => exact .inr (Option.some.inj h)

theorem RegisterStage.account_of_names {stage : RegisterStage} {u : String} (hown : stage.Own)
    (h : stage.Names u) : stage.account = some u := by
  cases stage with
  | createUser => cases h
  | updateProfile user => exact congrArg some h
  | reload user => exact congrArg some h
  | currentUser user => exact congrArg some h
  | set user name account clean =>
    have hsame : user = account := hown
    rcases h with h | h
    · exact congrArg some (hsame.symm.trans h)
    · exact congrArg some h

/-- Whatever the apps speak of has an account, and the accounts differ in their ids and emails. -/
structure Apps.Accounted (s : Apps) : Prop where
  documents : ∀ id, (s.users.get id).isSome → id ∈ s.uids
  currentUser : ∀ i u, (s.clients i).currentUser = some u → u ∈ s.uids
  pending : ∀ i q press u, (s.clients i).jobs q = some (.register press) → press.stage.Names u →
    u ∈ s.uids
  uids : s.uids.Nodup
  emails : s.emails.Nodup

theorem Apps.Accounted.currentUser_step {s : Apps} (h : s.Accounted) {e : AppsEvent} {i : ℕ}
    {u : String} (hu : ((s.step e).clients i).currentUser = some u) : u ∈ (s.step e).uids := by
  have hmono := (s.registers e).uids_mono (u := u)
  rcases s.client_step e i with hkeep | ⟨a, rfl, hstep⟩
  · rw [hkeep] at hu
    exact hmono (h.currentUser i u hu)
  · rw [hstep, clients_setClient] at hu
    rcases ((s.clients i).effect s.backend a).currentUser hu with hold | hnew
    · exact hmono (h.currentUser i u hold)
    · rw [hstep]
      exact hnew

theorem Apps.Accounted.pending_step {s : Apps} (h : s.Accounted) {e : AppsEvent} {i q : ℕ}
    {press : RegisterPress} (hq : ((s.step e).clients i).jobs q = some (.register press))
    {u : String} (hu : press.stage.Names u) : u ∈ (s.step e).uids := by
  have hmono := (s.registers e).uids_mono (u := u)
  have hold : ∀ {p}, ((s.clients i).registration s.backend).presses q = some p →
      p.stage.Names u → u ∈ (s.step e).uids := fun hp hu =>
    hmono (h.pending i q _ u (Client.presses_registration.mp hp) hu)
  rcases Apps.next hq with hkept | ⟨a, e', -, -, hstep, hnext⟩
  · exact hmono (h.pending i q press u hkept hu)
  · cases hnext with
    | keep p hp => exact hold hp hu
    | fresh p hstage =>
      rw [hstage] at hu
      cases hu
    | created p uid hfresh huid hcurrent' =>
      obtain rfl : uid = u := hu
      rw [hstep]
      exact huid
    | own p p' account hp hacc hacc' hown =>
      have haccount := RegisterStage.account_of_names hown hu
      rw [hacc'] at haccount
      rw [haccount] at hacc
      exact hold hp (RegisterStage.names_of_account hacc)
    | read p user name account he hp hstage huser =>
      rcases hu with rfl | rfl
      · exact hmono (h.currentUser i user huser)
      · exact hold hp (by rw [hstage]; rfl)

theorem Apps.Accounted.step {s : Apps} (h : s.Accounted) (e : AppsEvent) :
    (s.step e).Accounted := by
  refine ⟨?_, fun i u hu => h.currentUser_step hu, fun i q press u hq hu => h.pending_step hq hu,
    ?_, ?_⟩
  · intro id hid
    have hregisters := s.registers e
    have hmono := hregisters.uids_mono (u := id)
    cases hregisters with
    | keep huids hemails hdocs => exact hmono (h.documents id (hdocs id hid))
    | created uid email hfresh hemail huids hemails hdocs =>
      exact hmono (h.documents id (hdocs id hid))
    | set i q press user name account clean hq hstage huids hemails hdocs hgone =>
      rcases hdocs id hid with rfl | hold
      · exact hmono (h.pending i q press id hq (by rw [hstage]; exact .inl rfl))
      · exact hmono (h.documents id hold)
  · cases s.registers e with
    | keep huids hemails hdocs =>
      rw [huids]
      exact h.uids
    | created uid email hfresh hemail huids hemails hdocs =>
      rw [huids]
      exact List.nodup_append.mpr ⟨h.uids, List.nodup_singleton uid, fun u hu v hv huv =>
        hfresh (List.mem_singleton.mp hv ▸ huv ▸ hu)⟩
    | set i q press user name account clean hq hstage huids hemails hdocs hgone =>
      rw [huids]
      exact h.uids
  · cases s.registers e with
    | keep huids hemails hdocs =>
      rw [hemails]
      exact h.emails
    | created uid email hfresh hemail huids hemails hdocs =>
      rw [hemails]
      exact List.nodup_append.mpr ⟨h.emails, List.nodup_singleton email, fun u hu v hv huv =>
        hemail (List.mem_singleton.mp hv ▸ huv ▸ hu)⟩
    | set i q press user name account clean hq hstage huids hemails hdocs hgone =>
      rw [hemails]
      exact h.emails

theorem Apps.Accounted.start {users : Users} {accounts : List Account}
    {accepts : String → String → Bool} {currentUsers : ℕ → Option String}
    (hdocs : ∀ id, (users.get id).isSome → id ∈ accounts.map Account.uid)
    (hcurrent : ∀ i u, currentUsers i = some u → u ∈ accounts.map Account.uid)
    (huids : (accounts.map Account.uid).Nodup) (hemails : (accounts.map Account.email).Nodup) :
    (Apps.start users accounts accepts currentUsers).Accounted :=
  ⟨hdocs, hcurrent, fun _ _ _ _ hq => (by cases hq), huids, hemails⟩

/-- **Every document is that of exactly one account**, and no two accounts share an email, in every
state of the apps, if it was so at first. -/
theorem documents_have_accounts {users : Users} {accounts : List Account}
    {accepts : String → String → Bool} {currentUsers : ℕ → Option String} {es : List AppsEvent}
    {s : Apps} (hs : s = Machine.run Apps.step (Apps.start users accounts accepts currentUsers) es)
    (hdocs : ∀ id, (users.get id).isSome → id ∈ accounts.map Account.uid)
    (hcurrent : ∀ i u, currentUsers i = some u → u ∈ accounts.map Account.uid)
    (huids : (accounts.map Account.uid).Nodup) (hemails : (accounts.map Account.email).Nodup) :
    (∀ id doc, s.users.get id = some doc → ∃! a, a ∈ s.accounts ∧ a.uid = id) ∧
      ∀ a ∈ s.accounts, ∀ a' ∈ s.accounts, a.email = a'.email → a = a' := by
  have hstep : ∀ (s : Apps) e, s.Accounted → (s.step e).Accounted := fun s e h => h.step e
  have h : s.Accounted := by
    rw [hs]
    exact Machine.run_invariant _ hstep (.start hdocs hcurrent huids hemails) es
  refine ⟨fun id doc hdoc => ?_, fun a ha a' ha' hemail =>
    List.inj_on_of_nodup_map h.emails ha ha' hemail⟩
  obtain ⟨a, ha, hid⟩ := List.mem_map.mp (h.documents id (by rw [hdoc]; rfl))
  exact ⟨a, ⟨ha, hid⟩, fun a' ⟨ha', hid'⟩ =>
    List.inj_on_of_nodup_map h.uids ha' ha (hid'.trans hid.symm)⟩

/-- An admin, with an account. -/
def oneAdmin : Users :=
  Collection.set ∅ "root" [("name", .str "Root"), ("role", .str "admin"), ("NFT", .list [])]

def oneAccount : List Account := [⟨"root", "root@mail.com", none⟩]

/-- The apps of that admin and of people without an account. -/
def adminAndGuests : Apps := .start oneAdmin oneAccount (fun _ _ => true) fun _ => none

/-- Client app `i` registers an account, with every call answered. -/
def registering (i : ℕ) (uid email : String) : List AppsEvent :=
  [.client i .openRegister, .client i (.type .email email), .client i (.press 0),
    .client i (.createUser 0 uid .user), .client i (.updateProfile 0 true), .client i (.reload 0),
    .client i (.readCurrentUser 0), .client i (.set 0 true)]

/-- The admin signs in and deletes the user on the first tile. -/
def deletingFirst : List AppsEvent :=
  [.admin (.login 0 0 (some "root")), .admin (.load 0 1), .admin (.pressDelete 0 0 0),
    .admin (.delete 0)]

theorem oneAdmin_documents (id : String) (h : (oneAdmin.get id).isSome) :
    id ∈ oneAccount.map Account.uid := by
  unfold oneAdmin at h
  rw [Collection.get_set] at h
  split at h
  · rename_i hid
    rw [hid]
    exact List.mem_singleton_self "root"
  · cases h

/-- Ann registers, and is deleted. -/
theorem documents_have_accounts_deleted :
    ∃! a, a ∈ (Machine.run Apps.step adminAndGuests
      (registering 0 "ann" "ann@mail.com" ++ deletingFirst)).accounts ∧ a.uid = "root" := by
  have hroot : (Machine.run Apps.step adminAndGuests
      (registering 0 "ann" "ann@mail.com" ++ deletingFirst)).users.get "root" = some _ := rfl
  exact (documents_have_accounts rfl oneAdmin_documents (fun i u hu => by cases hu)
    (List.nodup_singleton "root") (List.nodup_singleton "root@mail.com")).1 _ _ hroot

/-! ## A document comes into being once -/

/-- A press of any client app that reads `currentUser` finds the account it has created. -/
def OwnCurrentUsers (s : Apps) (e : AppsEvent) : Prop :=
  ∀ i q press user, e = .client i (.readCurrentUser q) →
    (s.clients i).jobs q = some (.register press) → press.stage = .currentUser user →
      (s.clients i).currentUser = some user

/-- The registrations of all client apps have created different accounts, each goes on with its own,
and none of these has a document yet. -/
structure Apps.Separate (s : Apps) : Prop where
  documents : ∀ id, (s.users.get id).isSome → id ∈ s.uids
  fresh : ∀ i q press u, (s.clients i).jobs q = some (.register press) →
    press.stage.account = some u → u ∈ s.uids ∧ ¬ (s.users.get u).isSome
  distinct : ∀ i q press j r press' u, (s.clients i).jobs q = some (.register press) →
    (s.clients j).jobs r = some (.register press') → press.stage.account = some u →
      press'.stage.account = some u → i = j ∧ q = r
  own : ∀ i q press, (s.clients i).jobs q = some (.register press) → press.stage.Own

section

variable {s : Apps} {e : AppsEvent} {i q : ℕ} {press : RegisterPress}

/-- A press goes on with the account it had, or has just created one. -/
theorem Apps.account_step {u : String}
    (hq : ((s.step e).clients i).jobs q = some (.register press))
    (hu : press.stage.account = some u) :
    (∃ p, (s.clients i).jobs q = some (.register p) ∧ p.stage.account = some u) ∨
      u ∉ s.uids ∧ u ∈ (s.step e).uids ∧ ∀ j r, ¬ (i = j ∧ q = r) →
        ((s.step e).clients j).jobs r = (s.clients j).jobs r := by
  rcases Apps.next hq with hkept | ⟨a, e', -, -, hstep, hnext⟩
  · exact .inl ⟨press, hkept, hu⟩
  · cases hnext with
    | keep p hp => exact .inl ⟨press, Client.presses_registration.mp hp, hu⟩
    | fresh p hstage =>
      rw [hstage] at hu
      cases hu
    | created p uid hfresh huid hcurrent' =>
      obtain rfl := Option.some.inj hu
      refine .inr ⟨hfresh, by rw [hstep]; exact huid, fun j r hne => ?_⟩
      rw [hstep]
      by_cases hij : i = j
      · subst hij
        rw [clients_setClient]
        exact Function.update_of_ne (fun hr => hne ⟨rfl, hr.symm⟩) _ _
      · change (Function.update s.clients i _ j).jobs r = _
        rw [Function.update_of_ne fun hj => hij hj.symm]
    | own p p' account hp hacc hacc' hown =>
      refine .inl ⟨p, Client.presses_registration.mp hp, ?_⟩
      rw [hacc, ← hacc', hu]
    | read p user name account he hp hstage huser =>
      refine .inl ⟨p, Client.presses_registration.mp hp, ?_⟩
      rw [hstage]
      exact hu

theorem Apps.Separate.own_step (h : s.Separate) (hcurrent : OwnCurrentUsers s e)
    (hq : ((s.step e).clients i).jobs q = some (.register press)) : press.stage.Own := by
  rcases Apps.next hq with hkept | ⟨a, e', he, ha, -, hnext⟩
  · exact h.own i q press hkept
  · cases hnext with
    | keep p hp => exact h.own i q press (Client.presses_registration.mp hp)
    | fresh p hstage =>
      rw [hstage]
      trivial
    | created p uid hfresh huid hcurrent' => trivial
    | own p p' account hp hacc hacc' hown => exact hown
    | read p user name account he' hp hstage huser =>
      rw [ha q he'] at he
      have hown := hcurrent i q p account he (Client.presses_registration.mp hp) hstage
      exact Option.some.inj (huser.symm.trans hown)

/-- A document that a step brings into being is that of a press's own account. -/
theorem Apps.Separate.created (h : s.Separate) {id : String} (hnone : ¬ (s.users.get id).isSome)
    (hid : ((s.step e).users.get id).isSome) :
    ∃ i q press, (s.clients i).jobs q = some (.register press) ∧ press.stage.account = some id ∧
      ∀ p, ((s.step e).clients i).jobs q ≠ some (.register p) := by
  cases s.registers e with
  | keep huids hemails hdocs => exact absurd (hdocs id hid) hnone
  | created uid email hfresh hemail huids hemails hdocs => exact absurd (hdocs id hid) hnone
  | set i q press user name account clean hq hstage huids hemails hdocs hgone =>
    rcases hdocs id hid with rfl | hold
    · have hown := h.own i q press hq
      rw [hstage] at hown
      refine ⟨i, q, press, hq, ?_, hgone⟩
      rw [hstage]
      exact congrArg some hown.symm
    · exact absurd hold hnone

theorem Apps.Separate.step (h : s.Separate) (hcurrent : OwnCurrentUsers s e) :
    (s.step e).Separate := by
  have hmono : ∀ {u}, u ∈ s.uids → u ∈ (s.step e).uids := fun hu => (s.registers e).uids_mono hu
  refine ⟨?_, ?_, ?_, fun i q press hq => h.own_step hcurrent hq⟩
  · intro id hid
    by_cases hold : (s.users.get id).isSome
    · exact hmono (h.documents id hold)
    · obtain ⟨i, q, press, hq, hacc, -⟩ := h.created hold hid
      exact hmono (h.fresh i q press id hq hacc).1
  · intro i q press u hq hu
    rcases Apps.account_step hq hu with ⟨p, hp, hpu⟩ | ⟨hfresh, huid, -⟩
    · obtain ⟨hmem, hnone⟩ := h.fresh i q p u hp hpu
      refine ⟨hmono hmem, fun hdoc => ?_⟩
      -- the press that has set the document is over
      obtain ⟨j, r, p', hp', hpu', hgone⟩ := h.created hnone hdoc
      obtain ⟨rfl, rfl⟩ := h.distinct i q p j r p' u hp hp' hpu hpu'
      exact hgone press hq
    · have hnone : ¬ (s.users.get u).isSome := fun hdoc => hfresh (h.documents u hdoc)
      refine ⟨huid, fun hdoc => ?_⟩
      obtain ⟨j, r, p', hp', hpu', -⟩ := h.created hnone hdoc
      exact hfresh (h.fresh j r p' u hp' hpu').1
  · intro i q press j r press' u hq hr hu hu'
    by_contra hne
    rcases Apps.account_step hq hu with ⟨p, hp, hpu⟩ | ⟨hfresh, -, hothers⟩
    · rcases Apps.account_step hr hu' with ⟨p', hp', hpu'⟩ | ⟨hfresh, -, -⟩
      · exact hne (h.distinct i q p j r p' u hp hp' hpu hpu')
      · exact hfresh (h.fresh i q p u hp hpu).1
    · rw [hothers j r hne] at hr
      exact hfresh (h.fresh j r press' u hr hu').1

/-- The document of `uid` can only be removed. -/
def Apps.Settled (s : Apps) (uid : String) : Prop :=
  uid ∈ s.uids ∧ ∀ i q press, (s.clients i).jobs q = some (.register press) →
    press.stage.account ≠ some uid

theorem Apps.Separate.settled (h : s.Separate) {uid : String} (hdoc : (s.users.get uid).isSome) :
    s.Settled uid :=
  ⟨h.documents uid hdoc, fun i q press hq hu => (h.fresh i q press uid hq hu).2 hdoc⟩

theorem Apps.Settled.step {uid : String} (h : s.Settled uid) : (s.step e).Settled uid := by
  refine ⟨(s.registers e).uids_mono h.1, fun i q press hq hu => ?_⟩
  rcases Apps.account_step hq hu with ⟨p, hp, hpu⟩ | ⟨hfresh, -, -⟩
  · exact h.2 i q p hp hpu
  · exact hfresh h.1

theorem Apps.Settled.isSome_step {uid : String} (h : s.Settled uid) (hsep : s.Separate)
    (hdoc : ((s.step e).users.get uid).isSome) : (s.users.get uid).isSome := by
  by_contra hnone
  obtain ⟨i, q, press, hq, hu, -⟩ := hsep.created hnone hdoc
  exact h.2 i q press hq hu

end

theorem Apps.Separate.start {users : Users} {accounts : List Account}
    {accepts : String → String → Bool} {currentUsers : ℕ → Option String}
    (hdocs : ∀ id, (users.get id).isSome → id ∈ accounts.map Account.uid) :
    (Apps.start users accounts accepts currentUsers).Separate :=
  ⟨hdocs, fun _ _ _ _ hq => (by cases hq), fun _ _ _ _ _ _ _ hq => (by cases hq),
    fun _ _ _ hq => (by cases hq)⟩

theorem Apps.Separate.run {s : Apps} (h : s.Separate) {es : List AppsEvent}
    (hes : Machine.Along Apps.step OwnCurrentUsers s es) :
    (Machine.run Apps.step s es).Separate :=
  hes.invariant (fun _ _ hs hcurrent => hs.step hcurrent) h

section

variable {users : Users} {accounts : List Account} {accepts : String → String → Bool}
  {currentUsers : ℕ → Option String}

/-- **A registration overwrites no document**, when every press that reads `currentUser` finds its
own account. -/
theorem registrations_overwrite_nothing {es : List AppsEvent}
    (hes : Machine.Along Apps.step OwnCurrentUsers
      (Apps.start users accounts accepts currentUsers) es)
    (hdocs : ∀ id, (users.get id).isSome → id ∈ accounts.map Account.uid)
    {pre post : List AppsEvent} {e : AppsEvent} (hsplit : es = pre ++ e :: post) {s : Apps}
    (hs : s = Machine.run Apps.step (Apps.start users accounts accepts currentUsers) pre)
    {uid name : String} (hsent : s.sent e = some (.register uid name)) :
    s.users.get uid = none := by
  subst hsplit
  have hsep : s.Separate := by
    rw [hs]
    exact (Apps.Separate.start hdocs).run (Machine.along_append.mp hes).1
  cases e with
  | admin e =>
    cases e with
    | get p texts =>
      simp only [Apps.sent, AdminApp.sent] at hsent
      split at hsent <;> cases hsent
    | delete p =>
      simp only [Apps.sent, AdminApp.sent] at hsent
      split at hsent <;> cases hsent
    | _ => cases hsent
  | client i a =>
    obtain ⟨q, press, account, clean, hq, hstage⟩ := Client.sent_register hsent
    have hown := hsep.own i q press hq
    rw [hstage] at hown
    obtain rfl : uid = account := hown
    have hnone := (hsep.fresh i q press uid hq (by rw [hstage]; rfl)).2
    exact Option.not_isSome_iff_eq_none.mp hnone

theorem ownCurrentUsers_of_ne {s : Apps} {e : AppsEvent}
    (h : ∀ i q, e ≠ .client i (.readCurrentUser q)) : OwnCurrentUsers s e :=
  fun i q _ _ he => absurd he (h i q)

/-- Two people register at once, each in a client app. -/
def annBesideBob : List AppsEvent :=
  [.client 0 .openRegister, .client 1 .openRegister, .client 0 (.type .email "ann@mail.com"),
    .client 0 (.press 0), .client 1 (.type .email "bob@mail.com"), .client 1 (.press 0),
    .client 0 (.createUser 0 "ann" .user), .client 1 (.createUser 0 "bob" .user),
    .client 0 (.updateProfile 0 true), .client 0 (.reload 0), .client 1 (.updateProfile 0 false),
    .client 0 (.readCurrentUser 0)]

theorem ownCurrentUsers_annBesideBob :
    Machine.Along Apps.step OwnCurrentUsers adminAndGuests
      (annBesideBob ++ [.client 0 (.set 0 true)]) := by
  have hne := @ownCurrentUsers_of_ne
  refine ⟨hne (by simp), hne (by simp), hne (by simp), hne (by simp), hne (by simp), hne (by simp),
    hne (by simp), hne (by simp), hne (by simp), hne (by simp), hne (by simp), ?_, hne (by simp),
    trivial⟩
  intro i q press user he hq hstage
  obtain ⟨rfl, ha⟩ := AppsEvent.client.inj he
  obtain rfl := ClientAction.readCurrentUser.inj ha
  obtain rfl := ClientJob.register.inj (Option.some.inj hq)
  obtain rfl := RegisterStage.currentUser.inj hstage
  rfl

/-- Ann's press sets a document that was not there. -/
theorem registrations_overwrite_nothing_ann :
    (Machine.run Apps.step adminAndGuests annBesideBob).users.get "ann" = none :=
  registrations_overwrite_nothing ownCurrentUsers_annBesideBob oneAdmin_documents rfl rfl
    (rfl : _ = some (Event.register "ann" ""))

/-- **A document comes into being once**: what was deleted stays deleted, also while people
register, when every press that reads `currentUser` finds its own account. -/
theorem deleted_documents_stay_deleted {pre mid post : List AppsEvent} {uid : String}
    (hes : Machine.Along Apps.step OwnCurrentUsers
      (Apps.start users accounts accepts currentUsers) (pre ++ (mid ++ post)))
    (hdocs : ∀ id, (users.get id).isSome → id ∈ accounts.map Account.uid)
    (hdoc : ((Machine.run Apps.step (Apps.start users accounts accepts currentUsers)
      pre).users.get uid).isSome)
    (hgone : (Machine.run Apps.step (Apps.start users accounts accepts currentUsers)
      (pre ++ mid)).users.get uid = none) :
    (Machine.run Apps.step (Apps.start users accounts accepts currentUsers)
      (pre ++ (mid ++ post))).users.get uid = none := by
  obtain ⟨hpre, hrest⟩ := Machine.along_append.mp hes
  obtain ⟨hmid, hpost⟩ := Machine.along_append.mp hrest
  have hsep := (Apps.Separate.start hdocs).run hpre
  have hset : ∀ s e, Apps.Separate s ∧ s.Settled uid → OwnCurrentUsers s e →
      (s.step e).Separate ∧ (s.step e).Settled uid := fun s e hs hcurrent =>
    ⟨hs.1.step hcurrent, hs.2.step⟩
  have hafter := hmid.invariant hset ⟨hsep, hsep.settled hdoc⟩
  have hnone : ∀ s e, (Apps.Separate s ∧ s.Settled uid) ∧ ¬ (s.users.get uid).isSome →
      OwnCurrentUsers s e →
      ((s.step e).Separate ∧ (s.step e).Settled uid) ∧ ¬ ((s.step e).users.get uid).isSome :=
    fun s e hs hcurrent =>
      ⟨hset s e hs.1 hcurrent, fun hdoc => hs.2 (hs.1.2.isSome_step hs.1.1 hdoc)⟩
  rw [Machine.run_append] at hgone
  have hend := hpost.invariant hnone ⟨hafter, by rw [hgone]; exact Bool.false_ne_true⟩
  rw [Machine.run_append, Machine.run_append]
  exact Option.not_isSome_iff_eq_none.mp hend.2

end

/-- Ann registers and is deleted, and then Bob registers. -/
theorem deleted_documents_stay_deleted_bob :
    (Machine.run Apps.step adminAndGuests (registering 0 "ann" "ann@mail.com" ++
      (deletingFirst ++ registering 1 "bob" "bob@mail.com"))).users.get "ann" = none := by
  have hother : ∀ {es s}, (∀ e ∈ es, ∀ i q, e ≠ AppsEvent.client i (.readCurrentUser q)) →
      Machine.Along Apps.step OwnCurrentUsers s es := fun h =>
    Machine.along_of_mem (fun e he s => ownCurrentUsers_of_ne (h e he)) _
  have hread : ∀ s i, (∀ press user, (Apps.clients s i).jobs 0 = some (.register press) →
      press.stage = .currentUser user → (s.clients i).currentUser = some user) →
      OwnCurrentUsers s (.client i (.readCurrentUser 0)) := by
    intro s i h j q press user he
    obtain ⟨rfl, ha⟩ := AppsEvent.client.inj he
    obtain rfl := ClientAction.readCurrentUser.inj ha
    exact h press user
  have hregistering : ∀ i uid email, registering i uid email =
      (registering i uid email).take 6 ++
        [.client i (.readCurrentUser 0), .client i (.set 0 true)] := fun _ _ _ => rfl
  refine deleted_documents_stay_deleted ?_ oneAdmin_documents rfl rfl
  rw [hregistering 0, hregistering 1]
  refine Machine.along_append.mpr ⟨Machine.along_append.mpr ⟨hother (by simp [registering]),
    hread _ 0 fun press user hq hstage => ?_, hother (by simp)⟩, Machine.along_append.mpr
      ⟨hother (by simp [deletingFirst]), Machine.along_append.mpr ⟨hother (by simp [registering]),
        hread _ 1 fun press user hq hstage => ?_, hother (by simp)⟩⟩⟩
  · obtain rfl := ClientJob.register.inj (Option.some.inj hq)
    obtain rfl := RegisterStage.currentUser.inj hstage
    rfl
  · obtain rfl := ClientJob.register.inj (Option.some.inj hq)
    obtain rfl := RegisterStage.currentUser.inj hstage
    rfl

end FlutterThree
