import FlutterThree.Users

/-!
# Registration

`postRegister` and `FireAuth.registerUsingEmailPassword`: a press creates an account with the auth
service, sets its display name, reloads it, reads the app-wide `currentUser` and sets the `users`
document of the account it got. Any number of presses in one running app are at any of these calls.

A remote call is processed by its service and then answered, or the answer is lost, or it is not even
processed; in the last two cases it raises. `registerUsingEmailPassword` catches everything and
returns what is in its variable `user` by then; nothing catches for the `set`.

`registrations_own_documents` and `retry_registers` say when a press gives its account the document
that belongs to it, among overlapping presses and after failed ones.
-/

namespace FlutterThree

open Dart Firestore

/-- An account of the auth service. -/
structure Account where
  uid : String
  email : String
  displayName : Option String
  deriving Repr, DecidableEq

/-- `RegisterPage`, with the texts in its fields. -/
structure RegisterPage where
  email : String
  name : String
  password : String

/-- The call a `postRegister` waits for, with the account in the variable `user`. -/
inductive RegisterStage where
  | createUser
  | updateProfile (user : String)
  | reload (user : String)
  | currentUser (user : String)
  /-- The document of `user` is set, with the name read for it. `account` is the account that the
  press created, and `clean` says that no call has raised; neither is used. -/
  | set (user name account : String) (clean : Bool)

/-- A press of 'Register', with the texts it passed on. -/
structure RegisterPress where
  page : ℕ
  email : String
  password : String
  name : String
  stage : RegisterStage

/-- A press that created `account` and completed with every call answered; the document it set. -/
structure Registered where
  account : String
  document : Option (String × String)

structure Registration where
  accounts : List Account
  /-- Which credentials the service accepts for a new account. -/
  accepts : String → String → Bool
  currentUser : Option String
  db : Db
  pages : ℕ → RegisterPage
  presses : ℕ → Option RegisterPress
  /-- The completed presses; no step reads them. -/
  done : List Registered

/-- No press is under way. -/
def Registration.start (accounts : List Account) (accepts : String → String → Bool)
    (currentUser : Option String) (users : Users) (pages : ℕ → RegisterPage) : Registration :=
  ⟨accounts, accepts, currentUser, Db.start users, pages, fun _ => none, []⟩

/-- What becomes of the answer to a `createUserWithEmailAndPassword` that created an account. -/
inductive CreateAnswer where
  | user
  /-- The credential has no user. -/
  | noUser
  | lost
  deriving DecidableEq

inductive RegisterEvent where
  /-- The fields of page `k` are edited. -/
  | type (k : ℕ) (fields : RegisterPage)
  /-- 'Register' on page `k`; `q` numbers the press. -/
  | press (k q : ℕ)
  /-- `createUserWithEmailAndPassword` is processed; `uid` is the id of the new account. -/
  | createUser (q : ℕ) (uid : String) (answer : CreateAnswer)
  | updateProfile (q : ℕ) (answered : Bool)
  | reload (q : ℕ)
  | currentUser (q : ℕ)
  | set (q : ℕ) (answered : Bool)
  /-- The call the press waits for raises without having been processed. -/
  | fail (q : ℕ)
  /-- The app loses its user. -/
  | signOut

def Registration.setPress (s : Registration) (q : ℕ) (press : Option RegisterPress) :
    Registration :=
  { s with presses := Function.update s.presses q press }

@[simp] theorem Registration.presses_setPress_self (s : Registration) (q : ℕ)
    (press : Option RegisterPress) : (s.setPress q press).presses q = press := by
  change Function.update s.presses q press q = press
  rw [Function.update_self]

@[simp] theorem Registration.accounts_setPress (s : Registration) (q : ℕ)
    (press : Option RegisterPress) : (s.setPress q press).accounts = s.accounts := rfl

@[simp] theorem Registration.db_setPress (s : Registration) (q : ℕ)
    (press : Option RegisterPress) : (s.setPress q press).db = s.db := rfl

@[simp] theorem Registration.pages_setPress (s : Registration) (q : ℕ)
    (press : Option RegisterPress) : (s.setPress q press).pages = s.pages := rfl

@[simp] theorem Registration.currentUser_setPress (s : Registration) (q : ℕ)
    (press : Option RegisterPress) : (s.setPress q press).currentUser = s.currentUser := rfl

@[simp] theorem Registration.accepts_setPress (s : Registration) (q : ℕ)
    (press : Option RegisterPress) : (s.setPress q press).accepts = s.accepts := rfl

def Registration.HasAccount (s : Registration) (email : String) : Prop :=
  ∃ a ∈ s.accounts, a.email = email

instance (s : Registration) (email : String) : Decidable (s.HasAccount email) :=
  inferInstanceAs (Decidable (∃ a ∈ s.accounts, a.email = email))

/-- `registerUsingEmailPassword` has returned `user`: `postRegister` goes on to the `set`. -/
def Registration.postRegister (s : Registration) (q : ℕ) (press : RegisterPress)
    (user account : String) (clean : Bool) : Registration :=
  s.setPress q (some { press with
    stage := .set user (s.pages press.page).name account clean })

/-- The answer to `createUserWithEmailAndPassword`. -/
def Registration.create (s : Registration) (q : ℕ) (press : RegisterPress) (uid : String)
    (answer : CreateAnswer) : Registration :=
  -- 'email-already-in-use', 'weak-password' and the like are caught, and `user` is null
  if s.HasAccount press.email ∨ s.accepts press.email press.password = false then
    s.setPress q none
  else if uid ∈ s.accounts.map Account.uid then s
  else
    let s' := { s with accounts := s.accounts ++ [Account.mk uid press.email none] }
    match answer with
    | .user =>
      { s' with currentUser := some uid }.setPress q (some { press with stage := .updateProfile uid })
    -- `user!` raises
    | .noUser => { s' with currentUser := some uid }.setPress q none
    | .lost => s'.setPress q none

/-- `updateProfile(displayName: name)` is processed. -/
def Registration.profile (s : Registration) (user name : String) : Registration :=
  { s with accounts := s.accounts.map fun a =>
      if a.uid = user then { a with displayName := some name } else a }

/-- The call a press waits for raises. -/
def Registration.raise (s : Registration) (q : ℕ) (press : RegisterPress) : Registration :=
  match press.stage with
  | .createUser => s.setPress q none
  | .updateProfile user => s.postRegister q press user user false
  | .reload user => s.postRegister q press user user false
  | .currentUser user => s.postRegister q press user user false
  | .set _ _ _ _ => s.setPress q none

/-- What an event does to the press it belongs to. -/
def Registration.resume (s : Registration) (q : ℕ) (press : RegisterPress) :
    RegisterEvent → Registration
  | .createUser _ uid answer =>
    match press.stage with
    | .createUser => s.create q press uid answer
    | _ => s
  | .updateProfile _ answered =>
    match press.stage with
    | .updateProfile user =>
      if answered then
        (s.profile user press.name).setPress q (some { press with stage := .reload user })
      -- the name is set, but the answer is lost
      else (s.profile user press.name).raise q press
    | _ => s
  | .reload _ =>
    match press.stage with
    | .reload user => s.setPress q (some { press with stage := .currentUser user })
    | _ => s
  | .currentUser _ =>
    match press.stage with
    | .currentUser account =>
      match s.currentUser with
      | some user => s.postRegister q press user account true
      -- `user` is null: no document is set
      | none => { s with done := s.done ++ [Registered.mk account none] }.setPress q none
    | _ => s
  | .set _ answered =>
    match press.stage with
    | .set user name account clean =>
      { s with
        db := s.db.step (.register user name)
        done := if answered && clean then s.done ++ [Registered.mk account (some (user, name))]
          else s.done }.setPress q none
    | _ => s
  | .fail _ => s.raise q press
  | _ => s

def Registration.step (s : Registration) (e : RegisterEvent) : Registration :=
  match e with
  | .type k fields => { s with pages := Function.update s.pages k fields }
  | .press k q =>
    match s.presses q with
    | none =>
      s.setPress q (some ⟨k, (s.pages k).email, (s.pages k).password, (s.pages k).name,
        .createUser⟩)
    | some _ => s
  | .signOut => { s with currentUser := none }
  | .createUser q _ _ | .updateProfile q _ | .reload q | .currentUser q | .set q _ | .fail q =>
    match s.presses q with
    | some press => s.resume q press e
    | none => s

/-! ## What a step does -/

def Registration.uids (s : Registration) : List String := s.accounts.map Account.uid

/-- What a step can do to the state, with what has made it do so. -/
inductive Registration.Effect (s : Registration) (e : RegisterEvent) : Registration → Prop where
  | keep : Effect s e s
  | type (k : ℕ) (fields : RegisterPage) :
      Effect s e { s with pages := Function.update s.pages k fields }
  | signOut : Effect s e { s with currentUser := none }
  | press (k q : ℕ) (he : e = .press k q) (hq : s.presses q = none) :
      Effect s e (s.setPress q (some ⟨k, (s.pages k).email, (s.pages k).password, (s.pages k).name,
        .createUser⟩))
  | ended (q : ℕ) : Effect s e (s.setPress q none)
  | created (q : ℕ) (press : RegisterPress) (uid : String) (answer : CreateAnswer)
      (user : Option String) (next : Option RegisterPress) (he : e = .createUser q uid answer)
      (hq : s.presses q = some press) (hnone : ¬ s.HasAccount press.email)
      (haccepts : s.accepts press.email press.password = true) (hfresh : uid ∉ s.uids)
      (hnext : next = none ∨ next = some { press with stage := .updateProfile uid }) :
      Effect s e ({ s with
        accounts := s.accounts ++ [Account.mk uid press.email none]
        currentUser := user }.setPress q next)
  | named (q : ℕ) (press : RegisterPress) (user : String) (he : e = .updateProfile q true)
      (hq : s.presses q = some press) (hstage : press.stage = .updateProfile user) :
      Effect s e ((s.profile user press.name).setPress q
        (some { press with stage := .reload user }))
  | lost (q : ℕ) (press : RegisterPress) (user : String) (he : e = .updateProfile q false)
      (hq : s.presses q = some press) (hstage : press.stage = .updateProfile user) :
      Effect s e ((s.profile user press.name).postRegister q press user user false)
  | reloaded (q : ℕ) (press : RegisterPress) (user : String) (hq : s.presses q = some press)
      (hstage : press.stage = .reload user) :
      Effect s e (s.setPress q (some { press with stage := .currentUser user }))
  | returned (q : ℕ) (press : RegisterPress) (user account : String) (he : e = .currentUser q)
      (hq : s.presses q = some press) (hstage : press.stage = .currentUser account)
      (huser : s.currentUser = some user) :
      Effect s e (s.postRegister q press user account true)
  | noUser (q : ℕ) (press : RegisterPress) (account : String) (he : e = .currentUser q)
      (hq : s.presses q = some press) (hstage : press.stage = .currentUser account)
      (huser : s.currentUser = none) :
      Effect s e ({ s with done := s.done ++ [Registered.mk account none] }.setPress q none)
  | raised (q : ℕ) (press : RegisterPress) (user : String) (he : e = .fail q)
      (hq : s.presses q = some press)
      (hstage : press.stage = .updateProfile user ∨ press.stage = .reload user ∨
        press.stage = .currentUser user) :
      Effect s e (s.postRegister q press user user false)
  | set (q : ℕ) (answered : Bool) (press : RegisterPress) (user name account : String)
      (clean : Bool) (hq : s.presses q = some press)
      (hstage : press.stage = .set user name account clean) :
      Effect s e ({ s with
        db := s.db.step (.register user name)
        done := if answered && clean then s.done ++ [Registered.mk account (some (user, name))]
          else s.done }.setPress q none)

section

variable {s : Registration} {q : ℕ} {press : RegisterPress}

theorem Registration.effect_create (hq : s.presses q = some press) (uid : String)
    (answer : CreateAnswer) :
    s.Effect (.createUser q uid answer) (s.create q press uid answer) := by
  unfold create
  split
  · exact .ended q
  rename_i hrefused
  obtain ⟨hnone, haccepts⟩ := not_or.mp hrefused
  rw [Bool.not_eq_false] at haccepts
  split
  · exact .keep
  rename_i hfresh
  cases answer with
  | user => exact .created q press uid _ (some uid) _ rfl hq hnone haccepts hfresh (.inr rfl)
  | noUser => exact .created q press uid _ (some uid) _ rfl hq hnone haccepts hfresh (.inl rfl)
  | lost => exact .created q press uid _ s.currentUser _ rfl hq hnone haccepts hfresh (.inl rfl)

theorem Registration.effect_fail (hq : s.presses q = some press) :
    s.Effect (.fail q) (s.raise q press) := by
  unfold raise
  split
  · exact .ended q
  · rename_i user hstage
    exact .raised q press user rfl hq (.inl hstage)
  · rename_i user hstage
    exact .raised q press user rfl hq (.inr (.inl hstage))
  · rename_i user hstage
    exact .raised q press user rfl hq (.inr (.inr hstage))
  · exact .ended q

theorem Registration.effect_updateProfile (hq : s.presses q = some press) (answered : Bool) :
    s.Effect (.updateProfile q answered) (s.resume q press (.updateProfile q answered)) := by
  simp only [resume]
  split
  · rename_i user hstage
    cases answered with
    | true => exact .named q press user rfl hq hstage
    | false =>
      simp only [raise, hstage, if_neg Bool.false_ne_true]
      exact .lost q press user rfl hq hstage
  · exact .keep

theorem Registration.effect_currentUser (hq : s.presses q = some press) :
    s.Effect (.currentUser q) (s.resume q press (.currentUser q)) := by
  simp only [resume]
  split
  · rename_i account hstage
    split
    · rename_i user huser
      exact .returned q press user account rfl hq hstage huser
    · rename_i huser
      exact .noUser q press account rfl hq hstage huser
  · exact .keep

end

/-- Every step is one of these. -/
theorem Registration.effect (s : Registration) (e : RegisterEvent) : s.Effect e (s.step e) := by
  cases e with
  | type k fields => exact .type k fields
  | signOut => exact .signOut
  | press k q =>
    simp only [step]
    split
    · rename_i hq
      exact .press k q rfl hq
    · exact .keep
  | createUser q uid answer =>
    simp only [step]
    split
    · rename_i press hq
      simp only [resume]
      split
      · exact effect_create hq uid answer
      · exact .keep
    · exact .keep
  | updateProfile q answered =>
    simp only [step]
    split
    · rename_i press hq
      exact effect_updateProfile hq answered
    · exact .keep
  | reload q =>
    simp only [step]
    split
    · rename_i press hq
      simp only [resume]
      split
      · rename_i user hstage
        exact .reloaded q press user hq hstage
      · exact .keep
    · exact .keep
  | currentUser q =>
    simp only [step]
    split
    · rename_i press hq
      exact effect_currentUser hq
    · exact .keep
  | set q answered =>
    simp only [step]
    split
    · rename_i press hq
      simp only [resume]
      split
      · rename_i user name account clean hstage
        exact .set q answered press user name account clean hq hstage
      · exact .keep
    · exact .keep
  | fail q =>
    simp only [step]
    split
    · rename_i press hq
      exact effect_fail hq
    · exact .keep

/-! ## Overlapping presses -/

/-- The account a press has created. -/
def RegisterStage.account : RegisterStage → Option String
  | .createUser => none
  | .updateProfile user => some user
  | .reload user => some user
  | .currentUser user => some user
  | .set _ _ account _ => some account

/-- The document about to be set is that of the press's own account. -/
def RegisterStage.Own : RegisterStage → Prop
  | .set user _ account _ => user = account
  | _ => True

/-- A completed press set the document of its account and no other, and that document is as it set
it. -/
def Registration.OwnDocuments (s : Registration) : Prop :=
  ∀ d ∈ s.done, ∃ name, d.document = some (d.account, name) ∧
    s.db.users.get d.account = some (registerDoc name)

/-- A press that reads `currentUser` finds the account it has created. -/
def OwnCurrentUser (s : Registration) (e : RegisterEvent) : Prop :=
  ∀ q press user, e = .currentUser q → s.presses q = some press →
    press.stage = .currentUser user → s.currentUser = some user

/-- Different presses have created different accounts, and each goes on with its own. -/
structure Registration.Separate (s : Registration) : Prop where
  created : ∀ q p u, s.presses q = some p → p.stage.account = some u → u ∈ s.uids
  distinct : ∀ q q' p p' u, s.presses q = some p → s.presses q' = some p' →
    p.stage.account = some u → p'.stage.account = some u → q = q'
  own : ∀ q p, s.presses q = some p → p.stage.Own
  done_created : ∀ d ∈ s.done, d.account ∈ s.uids
  done_ended : ∀ d ∈ s.done, ∀ q p, s.presses q = some p → p.stage.account ≠ some d.account
  done_own : s.OwnDocuments

theorem Registration.Separate.start (accounts : List Account) (accepts : String → String → Bool)
    (currentUser : Option String) (users : Users) (pages : ℕ → RegisterPage) :
    (Registration.start accounts accepts currentUser users pages).Separate := by
  have hpress : ∀ q p, (Registration.start accounts accepts currentUser users pages).presses q ≠
      some p := by
    intro q p hp
    cases hp
  have hdone : ∀ d, d ∉ (Registration.start accounts accepts currentUser users pages).done :=
    fun d => List.not_mem_nil
  exact ⟨fun q p _ hp => absurd hp (hpress q p), fun q _ p _ _ hp => absurd hp (hpress q p),
    fun q p hp => absurd hp (hpress q p), fun d hd => absurd hd (hdone d),
    fun d hd => absurd hd (hdone d), fun d hd => absurd hd (hdone d)⟩

/-- A press changes: its account, if it has one then, is no other press's. -/
theorem Registration.Separate.setPress {s : Registration} (h : s.Separate) (q : ℕ)
    {press : Option RegisterPress} (hown : ∀ p, press = some p → p.stage.Own)
    (hnew : ∀ p u, press = some p → p.stage.account = some u → u ∈ s.uids ∧
      (∀ q' p', q' ≠ q → s.presses q' = some p' → p'.stage.account ≠ some u) ∧
      ∀ d ∈ s.done, d.account ≠ u) : (s.setPress q press).Separate := by
  have hcases : ∀ q' p, (s.setPress q press).presses q' = some p →
      q' = q ∧ press = some p ∨ q' ≠ q ∧ s.presses q' = some p :=
    fun _ _ => Machine.update_eq_some
  -- every press is the changed one or one that was there before
  refine ⟨?_, ?_, ?_, h.done_created, ?_, h.done_own⟩
  · intro q' p u hp hu
    rcases hcases q' p hp with ⟨rfl, hnow⟩ | ⟨-, hold⟩
    · exact (hnew p u hnow hu).1
    · exact h.created q' p u hold hu
  · intro q₁ q₂ p₁ p₂ u hp₁ hp₂ hu₁ hu₂
    rcases hcases q₁ p₁ hp₁ with ⟨rfl, hnow₁⟩ | ⟨hq₁, hold₁⟩
    · rcases hcases q₂ p₂ hp₂ with ⟨rfl, -⟩ | ⟨hq₂, hold₂⟩
      · rfl
      · exact absurd hu₂ ((hnew p₁ u hnow₁ hu₁).2.1 q₂ p₂ hq₂ hold₂)
    · rcases hcases q₂ p₂ hp₂ with ⟨rfl, hnow₂⟩ | ⟨hq₂, hold₂⟩
      · exact absurd hu₁ ((hnew p₂ u hnow₂ hu₂).2.1 q₁ p₁ hq₁ hold₁)
      · exact h.distinct q₁ q₂ p₁ p₂ u hold₁ hold₂ hu₁ hu₂
  · intro q' p hp
    rcases hcases q' p hp with ⟨rfl, hnow⟩ | ⟨-, hold⟩
    · exact hown p hnow
    · exact h.own q' p hold
  · intro d hd q' p hp hu
    rcases hcases q' p hp with ⟨rfl, hnow⟩ | ⟨-, hold⟩
    · exact (hnew p d.account hnow hu).2.2 d hd rfl
    · exact h.done_ended d hd q' p hold hu

theorem Registration.Separate.endPress {s : Registration} (h : s.Separate) (q : ℕ) :
    (s.setPress q none).Separate :=
  h.setPress q nofun nofun

/-- The press goes on to another call with the account it had. -/
theorem Registration.Separate.goOn {s : Registration} (h : s.Separate) {q : ℕ}
    {press : RegisterPress} (hq : s.presses q = some press) {stage : RegisterStage}
    (hsame : stage.account = press.stage.account) (hown : stage.Own) :
    (s.setPress q (some { press with stage := stage })).Separate := by
  refine h.setPress q (fun p hp => ?_) (fun p u hp hu => ?_)
  · obtain rfl := Option.some.inj hp
    exact hown
  · obtain rfl := Option.some.inj hp
    have hacc : press.stage.account = some u := hsame.symm.trans hu
    refine ⟨h.created q press u hq hacc, fun q' p' hne hp' hu' => ?_, fun d hd hd' => ?_⟩
    · exact hne (h.distinct q' q p' press u hp' hq hu' hacc)
    · exact h.done_ended d hd q press hq (hd' ▸ hacc)

theorem Registration.Separate.profile {s : Registration} (h : s.Separate) (user name : String) :
    (s.profile user name).Separate := by
  have huids : (s.profile user name).uids = s.uids := by
    unfold Registration.uids Registration.profile
    rw [List.map_map]
    refine List.map_congr_left fun a _ => ?_
    dsimp only [Function.comp_apply]
    split
    · rfl
    · rfl
  refine ⟨?_, h.distinct, h.own, ?_, h.done_ended, h.done_own⟩
  · intro q p u hp hu
    rw [huids]
    exact h.created q p u hp hu
  · intro d hd
    rw [huids]
    exact h.done_created d hd

/-- A new account is the account of no other press, under way or completed. -/
theorem Registration.Separate.create {s : Registration} (h : s.Separate) (q : ℕ)
    {press : RegisterPress} {uid : String} (hfresh : uid ∉ s.uids) (user : Option String)
    {next : Option RegisterPress}
    (hnext : next = none ∨ next = some { press with stage := .updateProfile uid }) :
    Registration.Separate ({ s with
      accounts := s.accounts ++ [Account.mk uid press.email none]
      currentUser := user }.setPress q next) := by
  have hmem : ∀ u ∈ s.uids,
      u ∈ (s.accounts ++ [Account.mk uid press.email none]).map Account.uid := fun u hu => by
    rw [List.map_append]
    exact List.mem_append_left _ hu
  have hadd : Registration.Separate
      { s with accounts := s.accounts ++ [Account.mk uid press.email none], currentUser := user } :=
    ⟨fun q p u hp hu => hmem u (h.created q p u hp hu), h.distinct, h.own,
      fun d hd => hmem _ (h.done_created d hd), h.done_ended, h.done_own⟩
  rcases hnext with rfl | rfl
  · exact hadd.endPress q
  · refine hadd.setPress q (fun p hp => ?_) (fun p u hp hu => ?_)
    · obtain rfl := Option.some.inj hp
      trivial
    · obtain rfl := Option.some.inj hp
      obtain rfl := Option.some.inj hu
      refine ⟨?_, fun q' p' _ hp' hu' => ?_, fun d hd hd' => ?_⟩
      · exact List.mem_map_of_mem (List.mem_append_right _ (List.mem_singleton_self _))
      · exact hfresh (h.created q' p' uid hp' hu')
      · exact hfresh (hd' ▸ h.done_created d hd)

/-- The document of a press's own account is set: no completed press had that account. -/
theorem Registration.Separate.set {s : Registration} (h : s.Separate) {q : ℕ}
    {press : RegisterPress} (hq : s.presses q = some press) {account name : String} {clean : Bool}
    (hstage : press.stage = .set account name account clean) (answered : Bool) :
    Registration.Separate ({ s with
      db := s.db.step (.register account name)
      done := if answered && clean then s.done ++ [Registered.mk account (some (account, name))]
        else s.done }.setPress q none) := by
  have hacc : press.stage.account = some account := by
    rw [hstage]
    rfl
  have hget : ∀ uid, (s.db.step (.register account name)).users.get uid =
      if uid = account then some (registerDoc name) else s.db.users.get uid := fun uid =>
    Collection.get_set s.db.users account uid (registerDoc name)
  -- the document of a completed press is another one, since its account is
  have hdone : ∀ d ∈ s.done, ∃ n, d.document = some (d.account, n) ∧
      (s.db.step (.register account name)).users.get d.account = some (registerDoc n) := by
    intro d hd
    obtain ⟨n, hdoc, husers⟩ := h.done_own d hd
    have hne : d.account ≠ account := fun heq =>
      h.done_ended d hd q press hq (heq ▸ hacc)
    exact ⟨n, hdoc, by rw [hget, if_neg hne, husers]⟩
  have hended := h.endPress q
  cases hclean : answered && clean with
  | false => exact ⟨hended.created, hended.distinct, hended.own, h.done_created,
      hended.done_ended, hdone⟩
  | true =>
    refine ⟨hended.created, hended.distinct, hended.own, ?_, ?_, ?_⟩
    · intro d hd
      rcases List.mem_append.mp hd with hd | hd
      · exact h.done_created d hd
      · rw [List.mem_singleton.mp hd]
        exact h.created q press account hq hacc
    · intro d hd q' p hp hu
      rcases List.mem_append.mp hd with hd | hd
      · exact hended.done_ended d hd q' p hp hu
      · rw [List.mem_singleton.mp hd] at hu
        -- the press itself is over, and no other has its account
        rcases Machine.update_eq_some hp with ⟨-, hnew⟩ | ⟨hqq, hold⟩
        · cases hnew
        · exact hqq (h.distinct q' q p press account hold hq hu hacc)
    · intro d hd
      rcases List.mem_append.mp hd with hd | hd
      · exact hdone d hd
      · rw [List.mem_singleton.mp hd]
        exact ⟨name, rfl, (hget account).trans (if_pos rfl)⟩

theorem Registration.Separate.step {s : Registration} (h : s.Separate) {e : RegisterEvent}
    (hcurrent : OwnCurrentUser s e) : (s.step e).Separate := by
  have heffect := s.effect e
  generalize s.step e = t at heffect
  cases heffect with
  | keep => exact h
  | type k fields =>
    exact ⟨h.created, h.distinct, h.own, h.done_created, h.done_ended, h.done_own⟩
  | signOut => exact ⟨h.created, h.distinct, h.own, h.done_created, h.done_ended, h.done_own⟩
  | press k q he hq =>
    refine h.setPress q (fun p hp => ?_) (fun p u hp hu => ?_)
    · obtain rfl := Option.some.inj hp
      trivial
    · obtain rfl := Option.some.inj hp
      cases hu
  | ended q => exact h.endPress q
  | created q press uid answer user next he hq hnone haccepts hfresh hnext =>
    exact h.create q hfresh user hnext
  | named q press user he hq hstage =>
    exact (h.profile user press.name).goOn hq (by rw [hstage]; rfl) trivial
  | lost q press user he hq hstage =>
    exact (h.profile user press.name).goOn hq (by rw [hstage]; rfl) rfl
  | reloaded q press user hq hstage => exact h.goOn hq (by rw [hstage]; rfl) trivial
  | returned q press user account he hq hstage huser =>
    -- the press has read its own account
    obtain rfl := Option.some.inj (huser.symm.trans (hcurrent q press account he hq hstage))
    exact h.goOn hq (by rw [hstage]; rfl) rfl
  | noUser q press account he hq hstage huser =>
    cases huser.symm.trans (hcurrent q press account he hq hstage)
  | raised q press user he hq hstage =>
    refine h.goOn hq ?_ rfl
    rcases hstage with hstage | hstage | hstage
    · rw [hstage]; rfl
    · rw [hstage]; rfl
    · rw [hstage]; rfl
  | set q answered press user name account clean hq hstage =>
    obtain rfl : user = account := by
      have hown := h.own q press hq
      rw [hstage] at hown
      exact hown
    exact h.set hq hstage answered

/-- **Registrations do not mix up accounts**, when every press that reads `currentUser` finds its own
account there. -/
theorem registrations_own_documents {accounts : List Account} {accepts : String → String → Bool}
    {currentUser : Option String} {users : Users} {pages : ℕ → RegisterPage}
    {es : List RegisterEvent}
    (h : Machine.Along Registration.step OwnCurrentUser
      (Registration.start accounts accepts currentUser users pages) es) :
    (Machine.run Registration.step
      (Registration.start accounts accepts currentUser users pages) es).OwnDocuments := by
  have hstart := Registration.Separate.start accounts accepts currentUser users pages
  exact (h.invariant (fun s e (hs : Registration.Separate s) hP => hs.step hP) hstart).done_own

/-- The pages of two people who register. -/
def annAndBobPages : ℕ → RegisterPage
  | 0 => ⟨"ann@mail.com", "Ann", "secret1"⟩
  | _ => ⟨"bob@mail.com", "Bob", "secret2"⟩

/-- No account yet, and a service that accepts every password. -/
def noAccounts : Registration := .start [] (fun _ _ => true) none ∅ annAndBobPages

theorem ownCurrentUser_of_ne {s : Registration} {e : RegisterEvent}
    (he : ∀ q, e ≠ .currentUser q) : OwnCurrentUser s e :=
  fun q _ _ hq => absurd hq (he q)

/-- Bob's account is created after Ann's press has read `currentUser`. -/
theorem registrations_own_documents_late :
    (Machine.run Registration.step noAccounts
      [.press 0 0, .createUser 0 "A" .user, .updateProfile 0 true, .reload 0, .press 1 1,
        .currentUser 0, .createUser 1 "B" .user, .set 0 true, .updateProfile 1 true, .reload 1,
        .currentUser 1, .set 1 true]).OwnDocuments := by
  have hne := @ownCurrentUser_of_ne
  refine registrations_own_documents ⟨hne (by simp), hne (by simp), hne (by simp), hne (by simp),
    hne (by simp), ?_, hne (by simp), hne (by simp), hne (by simp), hne (by simp), ?_,
    hne (by simp), trivial⟩
  · intro q press user he hq hstage
    obtain rfl := RegisterEvent.currentUser.inj he
    obtain rfl := Option.some.inj hq
    obtain rfl := RegisterStage.currentUser.inj hstage
    rfl
  · intro q press user he hq hstage
    obtain rfl := RegisterEvent.currentUser.inj he
    obtain rfl := Option.some.inj hq
    obtain rfl := RegisterStage.currentUser.inj hstage
    rfl

/-- Bob's account is created before Ann's press reads `currentUser`. -/
def overlappingPresses : List RegisterEvent :=
  [.press 0 0, .createUser 0 "A" .user, .press 1 1, .createUser 1 "B" .user, .updateProfile 0 true,
    .reload 0, .currentUser 0, .set 0 true]

/-- Ann's press sets the document of Bob's account. -/
theorem overlappingPresses_not_ownDocuments :
    ¬ (Machine.run Registration.step noAccounts overlappingPresses).OwnDocuments := by
  intro h
  obtain ⟨name, hdoc, -⟩ := h ⟨"A", some ("B", "Ann")⟩ (List.mem_singleton_self _)
  have huid : "B" = "A" := (Prod.mk.inj (Option.some.inj hdoc)).1
  exact absurd huid (by decide)

/-! ## Trying again -/

/-- The account of the email has a document with the role 'user'. -/
def Registration.HasDocument (s : Registration) (email : String) : Prop :=
  ∃ a ∈ s.accounts, a.email = email ∧
    ∃ doc, s.db.users.get a.uid = some doc ∧ doc.lookup "role" = some (.str "user")

/-- A press whose calls are all processed and answered, with nothing in between. -/
def answeredPress (k q : ℕ) (uid : String) : List RegisterEvent :=
  [.press k q, .createUser q uid .user, .updateProfile q true, .reload q, .currentUser q,
    .set q true]

/-- The events of a press that is over do nothing. -/
theorem Registration.run_over {s : Registration} {q : ℕ} (hq : s.presses q = none) :
    Machine.run Registration.step s [.updateProfile q true, .reload q, .currentUser q,
      .set q true] = s := by
  simp only [Machine.run_cons, Machine.run_nil, step, hq]

/-- A press for an email that has an account changes neither the accounts nor the documents. -/
theorem Registration.run_answeredPress_of_account {s : Registration} {k q : ℕ}
    (hq : s.presses q = none) (uid : String) (h : s.HasAccount (s.pages k).email) :
    (Machine.run Registration.step s (answeredPress k q uid)).accounts = s.accounts ∧
      (Machine.run Registration.step s (answeredPress k q uid)).db = s.db := by
  have hcreate : Machine.run Registration.step s [.press k q, .createUser q uid .user] =
      (s.setPress q (some ⟨k, (s.pages k).email, (s.pages k).password, (s.pages k).name,
        .createUser⟩)).setPress q none := by
    simp only [Machine.run_cons, Machine.run_nil, step, hq, presses_setPress_self, resume]
    exact if_pos (.inl h)
  have hover : (Machine.run Registration.step s [.press k q, .createUser q uid .user]).presses q =
      none := by
    rw [hcreate, presses_setPress_self]
  have hsplit : answeredPress k q uid = [.press k q, .createUser q uid .user] ++
    [.updateProfile q true, .reload q, .currentUser q, .set q true] := rfl
  rw [hsplit, Machine.run_append, run_over hover, hcreate]
  exact ⟨rfl, rfl⟩

/-- From the answer of `createUserWithEmailAndPassword` on, when nothing fails or comes between. -/
theorem Registration.run_created {s : Registration} {q : ℕ} {press : RegisterPress}
    (hq : s.presses q = some press) {user : String} (hstage : press.stage = .updateProfile user)
    (hcurrent : s.currentUser = some user) :
    (Machine.run Registration.step s [.updateProfile q true, .reload q, .currentUser q,
        .set q true]).accounts = (s.profile user press.name).accounts ∧
      (Machine.run Registration.step s [.updateProfile q true, .reload q, .currentUser q,
        .set q true]).db = s.db.step (.register user (s.pages press.page).name) := by
  have hprofile : s.step (.updateProfile q true) =
      (s.profile user press.name).setPress q (some { press with stage := .reload user }) := by
    simp only [step, hq, resume, hstage, if_pos]
  have hcurrent' : (s.profile user press.name).currentUser = some user := hcurrent
  have hdb : (s.profile user press.name).db = s.db := rfl
  have hpages : (s.profile user press.name).pages = s.pages := rfl
  simp only [Machine.run_cons, Machine.run_nil, hprofile]
  simp only [step, presses_setPress_self, resume, currentUser_setPress, hcurrent', postRegister,
    accounts_setPress, db_setPress, pages_setPress, hdb, hpages, and_self]

/-- A press for a new email, up to the answer of `createUserWithEmailAndPassword`. -/
theorem Registration.run_create {s s' : Registration} {k q : ℕ} (hq : s.presses q = none)
    {uid : String} (huid : uid ∉ s.uids) (h : ¬ s.HasAccount (s.pages k).email)
    (haccepts : s.accepts (s.pages k).email (s.pages k).password = true)
    (hs' : s' = Machine.run Registration.step s [.press k q, .createUser q uid .user]) :
    s'.presses q = some ⟨k, (s.pages k).email, (s.pages k).password, (s.pages k).name,
        .updateProfile uid⟩ ∧
      s'.currentUser = some uid ∧ s'.pages = s.pages ∧ s'.db = s.db ∧
      s'.accounts = s.accounts ++ [⟨uid, (s.pages k).email, none⟩] := by
  simp only [Machine.run_cons, Machine.run_nil, step, hq, presses_setPress_self, resume,
    create] at hs'
  rw [if_neg, if_neg] at hs'
  · subst hs'
    exact ⟨presses_setPress_self _ _ _, rfl, rfl, rfl, rfl⟩
  · exact huid
  · rintro (hacc | hno)
    · exact h hacc
    · rw [accepts_setPress, haccepts] at hno
      cases hno

/-- A press for a new email creates its account and sets its document. -/
theorem Registration.run_answeredPress_of_new {s : Registration} {k q : ℕ}
    (hq : s.presses q = none) {uid : String} (huid : uid ∉ s.uids)
    (h : ¬ s.HasAccount (s.pages k).email)
    (haccepts : s.accepts (s.pages k).email (s.pages k).password = true) :
    (⟨uid, (s.pages k).email, some (s.pages k).name⟩ : Account) ∈
        (Machine.run Registration.step s (answeredPress k q uid)).accounts ∧
      (Machine.run Registration.step s (answeredPress k q uid)).db.users.get uid =
        some (registerDoc (s.pages k).name) := by
  obtain ⟨hpress, hcurrent, hpages, hdb, haccounts⟩ := run_create hq huid h haccepts rfl
  have hsplit : answeredPress k q uid = [.press k q, .createUser q uid .user] ++
    [.updateProfile q true, .reload q, .currentUser q, .set q true] := rfl
  obtain ⟨haccounts', hdb'⟩ := run_created hpress rfl hcurrent
  rw [hsplit, Machine.run_append, haccounts', hdb', hpages, hdb]
  refine ⟨?_, ?_⟩
  · refine List.mem_map.mpr ⟨⟨uid, (s.pages k).email, none⟩, ?_, if_pos rfl⟩
    rw [haccounts]
    exact List.mem_append_right _ (List.mem_singleton_self _)
  · change (s.db.users.set uid (registerDoc (s.pages k).name)).get uid = _
    rw [Collection.get_set, if_pos rfl]

/-- **Trying again.** After any run of presses, one more whose calls are all answered: for an email
without an account it creates the account and stores its document, and for an email that has one it
changes neither the accounts nor the documents. -/
theorem retry_registers {accounts : List Account} {accepts : String → String → Bool}
    {currentUser : Option String} {users : Users} {pages : ℕ → RegisterPage}
    {es : List RegisterEvent} {s s' : Registration} {k q : ℕ} {uid : String}
    (hs : s = Machine.run Registration.step
      (Registration.start accounts accepts currentUser users pages) es)
    (hs' : s' = Machine.run Registration.step
      (Registration.start accounts accepts currentUser users pages) (es ++ answeredPress k q uid))
    (hq : s.presses q = none) (huid : uid ∉ s.uids)
    (haccepts : s.accepts (s.pages k).email (s.pages k).password = true) :
    s'.HasAccount (s.pages k).email ∧
      (¬ s.HasAccount (s.pages k).email → s'.HasDocument (s.pages k).email) ∧
      (s.HasAccount (s.pages k).email → s'.accounts = s.accounts ∧ s'.db = s.db) := by
  rw [Machine.run_append, ← hs] at hs'
  by_cases h : s.HasAccount (s.pages k).email
  · obtain ⟨haccounts, hdb⟩ := Registration.run_answeredPress_of_account hq uid h
    rw [← hs'] at haccounts hdb
    refine ⟨?_, fun hnone => absurd h hnone, fun _ => ⟨haccounts, hdb⟩⟩
    unfold Registration.HasAccount
    rw [haccounts]
    exact h
  · obtain ⟨hmem, hdoc⟩ := Registration.run_answeredPress_of_new hq huid h haccepts
    rw [← hs'] at hmem hdoc
    refine ⟨⟨_, hmem, rfl⟩, fun _ => ⟨_, hmem, rfl, _, hdoc, rfl⟩, fun hsome => absurd hsome h⟩

/-- The state after Ann's press could not create an account. -/
def notCreated : Registration := Machine.run Registration.step noAccounts [.press 0 0, .fail 0]

/-- Ann tries again. -/
theorem retry_registers_notCreated :
    (Machine.run Registration.step noAccounts ([.press 0 0, .fail 0] ++
        answeredPress 0 1 "A")).HasAccount "ann@mail.com" ∧
      (Machine.run Registration.step noAccounts ([.press 0 0, .fail 0] ++
        answeredPress 0 1 "A")).HasDocument "ann@mail.com" := by
  have hs : notCreated = Machine.run Registration.step
    (Registration.start [] (fun _ _ => true) none ∅ annAndBobPages) [.press 0 0, .fail 0] := rfl
  have hs' : Machine.run Registration.step noAccounts ([.press 0 0, .fail 0] ++
      answeredPress 0 1 "A") = Machine.run Registration.step
    (Registration.start [] (fun _ _ => true) none ∅ annAndBobPages)
      ([.press 0 0, .fail 0] ++ answeredPress 0 1 "A") := rfl
  have hnone : ¬ notCreated.HasAccount "ann@mail.com" := by decide
  obtain ⟨hacc, hdoc, -⟩ := retry_registers hs hs' rfl (by decide) rfl
  exact ⟨hacc, hdoc hnone⟩

/-- Ann's account is created, but its document is not stored; then she tries again. -/
def retryAfterCreation : List RegisterEvent :=
  [.press 0 0, .createUser 0 "A" .user, .updateProfile 0 true, .reload 0, .currentUser 0,
    .fail 0] ++ answeredPress 0 1 "A2"

/-- The account stays without a document. -/
theorem retryAfterCreation_no_document :
    ¬ (Machine.run Registration.step noAccounts retryAfterCreation).HasDocument "ann@mail.com" := by
  rintro ⟨a, ha, -, doc, hdoc, -⟩
  have haccounts : (Machine.run Registration.step noAccounts retryAfterCreation).accounts =
      [⟨"A", "ann@mail.com", some "Ann"⟩] := by decide
  rw [haccounts, List.mem_singleton] at ha
  subst ha
  cases hdoc

end FlutterThree
