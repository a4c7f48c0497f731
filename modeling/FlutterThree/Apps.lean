import FlutterThree.AdminApp
import FlutterThree.Client

/-!
# The two apps together

The sessions of the admin app and any number of running client apps, over one `users` collection,
one bucket and one auth service. An event is a step of the admin app or of one client app, so a run
is any interleaving of them.

`Apps.run_db`: the collection takes a run of `FlutterThree.Users`, so what holds of every run there
holds here.
-/

namespace FlutterThree

open Dart Firestore Storage

structure Apps where
  /-- The admin app; its collection is the one that all apps share. -/
  admin : AdminApp
  bucket : Bucket String String Bytes
  accounts : List Account
  accepts : String → String → Bool
  clients : ℕ → Client

/-- Every app has just been started. -/
def Apps.start (users : Users) (accounts : List Account) (accepts : String → String → Bool)
    (currentUsers : ℕ → Option String) : Apps :=
  ⟨AdminApp.start users, .empty, accounts, accepts, fun i => Client.start (currentUsers i)⟩

inductive AppsEvent where
  | admin (e : AdminEvent)
  /-- A step of client app `i`. -/
  | client (i : ℕ) (a : ClientAction)

def Apps.users (s : Apps) : Users := s.admin.db.users

/-- The ids of the accounts. -/
def Apps.uids (s : Apps) : List String := s.accounts.map Account.uid

def Apps.emails (s : Apps) : List String := s.accounts.map Account.email

/-- The services, as a client app finds them. -/
def Apps.backend (s : Apps) : Backend := ⟨s.admin.db, s.bucket, s.accounts, s.accepts⟩

/-- Client app `i` and the services become what a step has made of them. -/
def Apps.setClient (s : Apps) (i : ℕ) (x : Backend × Client) : Apps where
  admin := { s.admin with db := x.1.db }
  bucket := x.1.bucket
  accounts := x.1.accounts
  accepts := x.1.accepts
  clients := Function.update s.clients i x.2

def Apps.step (s : Apps) : AppsEvent → Apps
  | .admin e => { s with admin := s.admin.step e }
  | .client i a => s.setClient i ((s.clients i).step s.backend a)

/-! ## The collection -/

/-- The step of the store that a step of the admin app makes. -/
def AdminApp.sent (s : AdminApp) : AdminEvent → Option Event
  | .get p texts =>
    match s.jobs p with
    | some (.chosen c) => some (.get p c.id (.chooseRole c.newValue))
    | some (.pressed b) => some (.get p b.uid (b.button.handler texts))
    | _ => none
  | .update p => some (.update p)
  | .delete p =>
    match s.jobs p with
    | some (.deleting d) => some (.deleteUser d.id)
    | _ => none
  | _ => none

/-- The step of the store that a step makes. -/
def Apps.sent (s : Apps) : AppsEvent → Option Event
  | .admin e => s.admin.sent e
  | .client i a => (s.clients i).sent a

theorem AdminApp.db_begin (s : AdminApp) (p : ℕ) (j : Job) : (s.begin p j).db = s.db := by
  unfold begin
  split <;> rfl

theorem AdminApp.db_step_sent (s : AdminApp) (e : AdminEvent) :
    (s.step e).db = Machine.run Db.step s.db (s.sent e).toList := by
  cases e with
  | login k page user => simp only [step, sent]; split <;> rfl
  | logout k => simp only [step, sent]; split <;> rfl
  | openUser k i => simp only [step, sent]; split <;> rfl
  | openNft k i =>
    simp only [step, sent]
    split
    · split <;> rfl
    · rfl
  | openAdd k => simp only [step, sent]; split <;> rfl
  | chooseRole k p i newValue =>
    simp only [step, sent]
    split
    · exact s.db_begin p _
    · rfl
  | pressAdd k p =>
    simp only [step, sent]
    split
    · exact s.db_begin p _
    · rfl
  | pressEdit k p =>
    simp only [step, sent]
    split
    · exact s.db_begin p _
    · rfl
  | pressDeleteNft k p =>
    simp only [step, sent]
    split
    · exact s.db_begin p _
    · rfl
  | get p texts =>
    simp only [step, answer, sent]
    cases s.jobs p with
    | none => rfl
    | some j => cases j <;> rfl
  | update p => simp only [step, write, sent]; split <;> rfl
  | replace p => simp only [step, replacePage, sent]; split <;> rfl
  | pressDelete k p i =>
    simp only [step, pressDelete, sent]
    split
    · split
      · split
        · rfl
        · exact s.db_begin p _
      · rfl
    · rfl
  | delete p =>
    simp only [step, sent]
    cases s.jobs p with
    | none => rfl
    | some j => cases j <;> rfl
  | refreshUsers p => simp only [step, sent]; split <;> rfl
  | _ => rfl

theorem Apps.db_step (s : Apps) (e : AppsEvent) :
    (s.step e).admin.db = Machine.run Db.step s.admin.db (s.sent e).toList := by
  cases e with
  | admin e => exact s.admin.db_step_sent e
  | client i a => exact (s.clients i).db_step s.backend a

/-- The steps of the store that a run makes. -/
def Apps.allSent : Apps → List AppsEvent → List Event :=
  Machine.outputs Apps.step fun s e => (s.sent e).toList

/-- **A run of the apps is a run of the store.** -/
theorem Apps.run_db (s : Apps) (es : List AppsEvent) :
    (Machine.run Apps.step s es).admin.db = Machine.run Db.step s.admin.db (s.allSent es) :=
  Machine.run_outputs (f := fun s : Apps => s.admin.db) Apps.db_step s es

/-! ## The client apps -/

theorem Apps.clients_setClient (s : Apps) (i : ℕ) (x : Backend × Client) :
    (s.setClient i x).clients i = x.2 :=
  Function.update_self _ _ _

/-- What a step does to one client app. -/
theorem Apps.client_step (s : Apps) (e : AppsEvent) (i : ℕ) :
    (s.step e).clients i = s.clients i ∨ ∃ a, e = .client i a ∧
      s.step e = s.setClient i ((s.clients i).step s.backend a) := by
  cases e with
  | admin e => exact .inl rfl
  | client j a =>
    by_cases hij : i = j
    · subst hij
      exact .inr ⟨a, rfl, rfl⟩
    · exact .inl (Function.update_of_ne hij _ _)

/-- What every step of a client app keeps holds of each of them, in every run. -/
theorem Apps.run_clients {I : Client → Prop}
    (hstep : ∀ (c : Client) b a, I c → I (c.step b a).2) {s : Apps} {i : ℕ} (h : I (s.clients i))
    (es : List AppsEvent) : I ((Machine.run Apps.step s es).clients i) := by
  refine Machine.run_invariant Apps.step (I := fun s => I (s.clients i)) (fun s e h => ?_) h es
  rcases s.client_step e i with hkeep | ⟨a, -, hstep'⟩
  · rw [hkeep]
    exact h
  · rw [hstep', clients_setClient]
    exact hstep _ s.backend a h

/-- A run of one client app with the services, while nothing else happens. -/
def Client.run : Backend × Client → List ClientAction → Backend × Client :=
  Machine.run fun x a => x.2.step x.1 a

theorem Client.run_cons (b : Backend) (c : Client) (a : ClientAction) (as : List ClientAction) :
    Client.run (b, c) (a :: as) = Client.run (c.step b a) as := Machine.run_cons _ _ _ _

theorem Apps.run_client (s : Apps) (i : ℕ) (as : List ClientAction) :
    Machine.run Apps.step s (as.map (.client i)) =
      s.setClient i (Client.run (s.backend, s.clients i) as) := by
  have hself : s.setClient i (s.backend, s.clients i) = s := by
    rw [setClient, Function.update_eq_self]
    rfl
  have hset : ∀ x y, (s.setClient i x).setClient i y = s.setClient i y := fun x y => by
    simp only [setClient, Function.update_idem]
  induction as using List.reverseRecOn with
  | nil => exact hself.symm
  | append_singleton as a ih =>
    rw [List.map_append, Machine.run_append, ih, Client.run, Machine.run_snoc]
    change (s.setClient i _).setClient i _ = _
    rw [hset, clients_setClient]
    rfl

end FlutterThree
