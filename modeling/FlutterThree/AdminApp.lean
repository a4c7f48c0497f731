import FlutterThree.Wallet
import FlutterThree.Lib.Navigator

/-!
# The admin app

Any number of sessions of the admin app over one `users` collection. A session is a navigator of
`LoginPage`, `MainPage`, `NftPage`, `NftDetailsPage` and `NftaddPage`; it begins on a `LoginPage`.

What a button starts runs on by itself: a handler that was pressed is a job, resumed by one event
for each remote call it waits for. A job remembers what its closure captured (the account and the
role of its page, the tile's id), so it can go on after its page is gone; only a use of the page's
context then raises. Toasts are not part of the state.

The updates of a session are on their way in the order in which they were sent. An `NftPage` asks
for its list while its session's own update is still under way, as a rule, and its `get` is answered
with these updates laid over the store (`AdminApp.view`). All other reads are of the store itself.

`AdminApp.effect` lists what a step can do; what follows about the jobs (`AdminApp.nextJob`) and the
writes (`AdminApp.db_step`) is read off it. A run of the app is a run of the store.
-/

namespace FlutterThree

open Dart Firestore Flutter

/-! ## What the pages read -/

/-- What a `FutureBuilder` shows. -/
inductive Snapshot (α : Type) where
  /-- The call waits for its answer. -/
  | waiting
  /-- It has got its answer, and sleeps before it returns. -/
  | answered (a : α)
  | done (result : Except Raised α)

/-- `checkUsers` and `refreshUsers`, from the answer of `get()`. -/
def checkUsers (docs : List (String × Fields)) : Except DartError (List NftUser) :=
  docs.mapM fun element => NftUser.fromJson element.2 element.1

/-- `refreshNFTs`. What it falls back on when decoding raises is the list the page shows, and that
is not the `NftUser?` it has to return. -/
def refreshNFTs (uid : String) (docs : List (String × Fields)) :
    Except DartError (Option NftUser) :=
  match docs.find? fun element => element.1 = uid with
  | some element =>
    match NftUser.fromJson element.2 element.1 with
    | .ok userDetails => .ok (some userDetails)
    | .error _ => .error .typeError
  | none => .ok none

/-- The loop of `postLogin` over the collection: the role of the signed-in account. -/
def adminChecker (uid : String) (docs : List (String × Fields)) : Except DartError String :=
  docs.foldlM (fun role element =>
    if element.1 = uid then (element.2.index "role").asString else .ok role) "user"

/-! ## Pages -/

inductive AdminRoute where
  | login (errorString : String)
  | main (user role : String) (allNFTs : Snapshot (List NftUser))
  | nft (nftUserID : String) (currentNft : Snapshot (Option (List NftArt)))
  | details (nftUserID : String) (nftNumber : ℕ) (nft : NftArt) (isChange : Bool)
  | add (nftuserid : String)

/-- The account and the role a page acts for. -/
def AdminRoute.credentials : AdminRoute → Option (String × String)
  | .main user role _ => some (user, role)
  | _ => none

/-- The answer a `MainPage` was waiting for arrives. -/
def AdminRoute.loaded (docs : List (String × Fields)) : AdminRoute → AdminRoute
  | .main user role .waiting => .main user role (.done (raising (checkUsers docs)))
  | r => r

/-- The answer a refresh of an `NftPage` was waiting for arrives; only a user that was found is
returned after a sleep. -/
def AdminRoute.responded (docs : List (String × Fields)) : AdminRoute → AdminRoute
  | .nft uid .waiting =>
    match refreshNFTs uid docs with
    | .ok (some userDetails) => .nft uid (.answered (some userDetails.nfts))
    | .ok none => .nft uid (.done (.ok none))
    | .error x => .nft uid (.done (.error (.dart x)))
  | r => r

/-- The sleep of a refresh ends. -/
def AdminRoute.woken : AdminRoute → AdminRoute
  | .nft uid (.answered nfts) => .nft uid (.done (.ok nfts))
  | r => r

/-- The call a page waits for raises: that of `postLogin`, the `get` of a user list, or the `get` of
a refresh, whose fallback is not of the type it has to return. -/
def AdminRoute.failed (text : String) : AdminRoute → AdminRoute
  | .login _ => .login "Internet error"
  | .main user role .waiting => .main user role (.done (.error (.remote text)))
  | .nft uid .waiting => .nft uid (.done (.error (.dart .typeError)))
  | r => r

/-- `setState` of `MainPage` with `_allNFTs = refreshUsers()`. -/
def AdminRoute.refreshUsers : AdminRoute → AdminRoute
  | .main user role _ => .main user role .waiting
  | r => r

/-- `_refresh` of `NftPage`. -/
def AdminRoute.refresh : AdminRoute → AdminRoute
  | .nft uid _ => .nft uid .waiting
  | r => r

def AdminRoute.setError (text : String) : AdminRoute → AdminRoute
  | .login _ => .login text
  | r => r

/-- A button of `NftaddPage` or `NftDetailsPage`. -/
inductive NftButton where
  | add
  | edit (nftNumber : ℕ)
  | delete (nftNumber : ℕ)

/-- The handler of a button, with the texts its page's fields hold. -/
def NftButton.handler (texts : NftArt) : NftButton → Handler
  | .add => .addNft texts
  | .edit n => .editNft n texts
  | .delete n => .deleteNft n

/-- The state of a details page after one of its handlers. -/
def AdminRoute.changed (texts : NftArt) (button : NftButton) : AdminRoute → AdminRoute
  | .details uid n shown _ =>
    match button with
    | .edit _ => .details uid n texts true
    | _ => .details uid n shown true
  | r => r

/-- `Navigator.pop(result)`: what was pushed from `NftPage` refreshes it when the result is true. -/
def popWith (result : Bool) (n : Navigator AdminRoute) : Navigator AdminRoute :=
  match n.top, n.pop.top with
  -- the page below pushed the one on top, and waits for its result
  | some ⟨_, .details _ _ _ _⟩, some below =>
    if result then n.pop.modifyAt below.id AdminRoute.refresh else n.pop
  | some ⟨_, .add _⟩, some below =>
    if result then n.pop.modifyAt below.id AdminRoute.refresh else n.pop
  | _, _ => n.pop

/-- The app-bar arrow of the page on top. -/
def pressArrow (n : Navigator AdminRoute) : Navigator AdminRoute :=
  match n.top with
  | some ⟨_, .nft _ _⟩ => n.pop
  | some ⟨_, .details _ _ _ isChange⟩ => popWith isChange n
  | some ⟨_, .add _⟩ => popWith true n
  | _ => n

/-- The system's or the browser's back, which does not close the first page. -/
def pressBack (n : Navigator AdminRoute) : Navigator AdminRoute :=
  if 2 ≤ n.stack.length then n.pop else n

/-- `postLogin` on `page`, with the account that signed in and the answer of `get()`. Where one of
these calls raises, the page takes the step `AdminRoute.failed` instead. -/
def postLogin (page : ℕ) (user : Option String) (docs : List (String × Fields))
    (n : Navigator AdminRoute) : Navigator AdminRoute :=
  match user with
  | none => n.modifyAt page (AdminRoute.setError "Email or password incorrect")
  | some uid =>
    match adminChecker uid docs with
    | .ok role =>
      if role = "admin" ∨ role = "manager" then n.pushReplacement (.main uid role .waiting)
      else n.modifyAt page (AdminRoute.setError "You don't have access")
    | .error _ => n.modifyAt page (AdminRoute.setError "Internet error")

/-- What an NFT handler does to its session once its `update` is sent. -/
def NftButton.finish (button : NftButton) (page : ℕ) (texts : NftArt) (n : Navigator AdminRoute) :
    Navigator AdminRoute :=
  match button with
  | .add => if (n.find page).isSome then popWith true n else n
  | _ => n.modifyAt page (AdminRoute.changed texts button)

/-! ## Jobs -/

/-- A choice in the role menu, with what its closure captured. -/
structure RoleChoice where
  session : ℕ
  page : ℕ
  user : String
  role : String
  id : String
  newValue : RoleItem

/-- A press of a button of `NftaddPage` or `NftDetailsPage`. -/
structure NftPress where
  session : ℕ
  page : ℕ
  uid : String
  button : NftButton

/-- A deletion of the user `id`, issued on a page of the account `user`. -/
structure Deletion where
  session : ℕ
  page : ℕ
  user : String
  id : String

/-- A handler that is waiting for a remote call. -/
inductive Job where
  /-- A role choice waits for its `get`, then for its `update`, then goes on. -/
  | chosen (c : RoleChoice)
  | writing (c : RoleChoice)
  | written (c : RoleChoice)
  /-- An NFT handler waits for its `get`. -/
  | pressed (b : NftPress)
  /-- A deletion is issued, and then done. -/
  | deleting (d : Deletion)
  | deleted (d : Deletion)

def Job.choice : Job → Option RoleChoice
  | .chosen c => some c
  | .writing c => some c
  | .written c => some c
  | _ => none

/-! ## Steps -/

structure AdminApp where
  db : Db
  sessions : ℕ → Navigator AdminRoute
  jobs : ℕ → Option Job
  /-- The presses of a session whose `update` is on its way, in the order in which they were sent. -/
  queue : ℕ → List ℕ

/-- Every session is on its login page. -/
def AdminApp.start (users : Users) : AdminApp :=
  ⟨Db.start users, fun _ => .home (.login ""), fun _ => none, fun _ => []⟩

inductive AdminEvent where
  /-- `postLogin` of a login page, with the account that signed in. -/
  | login (k page : ℕ) (user : Option String)
  | logout (k : ℕ)
  /-- The list a `MainPage` waits for arrives. -/
  | load (k page : ℕ)
  /-- The `get` of a refresh of an `NftPage` is answered. -/
  | respond (k page : ℕ)
  /-- Its sleep ends. -/
  | wake (k page : ℕ)
  /-- A call of `postLogin`, or the `get` a page waits for, raises. -/
  | offline (k page : ℕ) (text : String)
  | openUser (k i : ℕ)
  | openNft (k i : ℕ)
  | openAdd (k : ℕ)
  | arrow (k : ℕ)
  | back (k : ℕ)
  /-- The exit transitions of a session end. -/
  | settle (k : ℕ)
  /-- An item of the role menu of tile `i` is chosen; `p` numbers the job. -/
  | chooseRole (k p i : ℕ) (newValue : RoleItem)
  | pressAdd (k p : ℕ)
  | pressEdit (k p : ℕ)
  | pressDeleteNft (k p : ℕ)
  /-- The `get` of a job is answered; `texts` is in the fields of its page. -/
  | get (p : ℕ) (texts : NftArt)
  /-- The `update` of a job reaches the store. -/
  | update (p : ℕ)
  /-- A role choice goes on to replace the page. -/
  | replace (p : ℕ)
  /-- The delete button of tile `i`. -/
  | pressDelete (k p i : ℕ)
  /-- The `delete` of a job reaches the store. -/
  | delete (p : ℕ)
  /-- A deletion goes on to refresh its page. -/
  | refreshUsers (p : ℕ)

/-- A tile of the list on a `MainPage`. -/
structure Tile where
  page : ℕ
  user : String
  role : String
  item : NftUser

/-- Tile `i` of the page on top. -/
def AdminApp.tile (s : AdminApp) (k i : ℕ) : Option Tile :=
  match (s.sessions k).top with
  | some ⟨page, .main user role (.done (.ok users))⟩ => users[i]?.map fun item =>
    ⟨page, user, role, item⟩
  | _ => none

def AdminApp.onSession (s : AdminApp) (k : ℕ)
    (f : Navigator AdminRoute → Navigator AdminRoute) : AdminApp :=
  { s with sessions := Function.update s.sessions k (f (s.sessions k)) }

@[simp] theorem AdminApp.sessions_onSession_self (s : AdminApp) (k : ℕ)
    (f : Navigator AdminRoute → Navigator AdminRoute) :
    (s.onSession k f).sessions k = f (s.sessions k) :=
  Function.update_self _ _ _

def AdminApp.setJob (s : AdminApp) (p : ℕ) (j : Option Job) : AdminApp :=
  { s with jobs := Function.update s.jobs p j }

/-- The collection as a `get` of an `NftPage` of session `k` returns it: the updates of the session
that are on their way are laid over the store. -/
def AdminApp.view (s : AdminApp) (k : ℕ) : Users :=
  (Machine.run Db.step s.db ((s.queue k).map .update)).users

/-- The `get` of press `p` of session `k` has been answered; the `update`, if there is one, is sent. -/
def AdminApp.send (s : AdminApp) (k p : ℕ) (db : Db) : AdminApp :=
  { s with
    db := db
    queue := if (db.writes p).isSome then Function.update s.queue k (s.queue k ++ [p])
      else s.queue }

/-- A press starts a job under an unused number. -/
def AdminApp.begin (s : AdminApp) (p : ℕ) (j : Job) : AdminApp :=
  if s.jobs p = none ∧ s.db.writes p = none then s.setJob p (some j) else s

/-- The `get` of a job is answered, and its handler resumed. -/
def AdminApp.answer (s : AdminApp) (p : ℕ) (texts : NftArt) : AdminApp :=
  match s.jobs p with
  | some (.chosen c) =>
    let db := s.db.step (.get p c.id (.chooseRole c.newValue))
    (s.send c.session p db).setJob p (if (db.writes p).isSome then some (.writing c) else none)
  | some (.pressed b) =>
    let db := s.db.step (.get p b.uid (b.button.handler texts))
    -- a handler that raises ends there
    ((s.send b.session p db).setJob p none).onSession b.session fun n =>
      if (db.writes p).isSome then b.button.finish b.page texts n else n
  | _ => s

/-- The `update` of a job reaches the store; a role choice goes on if it succeeds. -/
def AdminApp.write (s : AdminApp) (p : ℕ) : AdminApp :=
  let s' := { s with
    db := s.db.step (.update p)
    queue := fun k => (s.queue k).erase p }
  match s.jobs p with
  | some (.writing c) =>
    s'.setJob p (if (s.db.users.get c.id).isSome then some (.written c) else none)
  | _ => s'

/-- The end of `onChanged`: the page on top is replaced, if the context is still good. -/
def AdminApp.replacePage (s : AdminApp) (p : ℕ) : AdminApp :=
  match s.jobs p with
  | some (.written c) =>
    (s.setJob p none).onSession c.session fun n =>
      if (n.find c.page).isSome then n.pushReplacement (.main c.user c.role .waiting) else n
  | _ => s

/-- The delete button of tile `i`, which is there for the role 'admin' only. -/
def AdminApp.pressDelete (s : AdminApp) (k p i : ℕ) : AdminApp :=
  match s.tile k i with
  | some t =>
    if t.role = "admin" then
      if t.user = t.item.id then s
      else s.begin p (.deleting ⟨k, t.page, t.user, t.item.id⟩)
    else s
  | none => s

def AdminApp.step (s : AdminApp) : AdminEvent → AdminApp
  | .login k page user =>
    match (s.sessions k).find page with
    | some (.login _) => s.onSession k (postLogin page user s.db.users.docs)
    | _ => s
  | .logout k =>
    match (s.sessions k).top with
    | some ⟨_, .main _ _ _⟩ => s.onSession k (·.pushReplacement (.login ""))
    | _ => s
  | .load k page => s.onSession k (·.modifyAt page (AdminRoute.loaded s.db.users.docs))
  | .respond k page => s.onSession k (·.modifyAt page (AdminRoute.responded (s.view k).docs))
  | .wake k page => s.onSession k (·.modifyAt page AdminRoute.woken)
  | .offline k page text => s.onSession k (·.modifyAt page (AdminRoute.failed text))
  | .openUser k i =>
    match s.tile k i with
    | some t => s.onSession k (·.push (.nft t.item.id (.done (.ok (some t.item.nfts)))))
    | none => s
  | .openNft k i =>
    match (s.sessions k).top with
    | some ⟨_, .nft uid (.done (.ok (some nfts)))⟩ =>
      match nfts[i]? with
      | some art => s.onSession k (·.push (.details uid i art false))
      | none => s
    | _ => s
  | .openAdd k =>
    match (s.sessions k).top with
    | some ⟨_, .nft uid _⟩ => s.onSession k (·.push (.add uid))
    | _ => s
  | .arrow k => s.onSession k pressArrow
  | .back k => s.onSession k pressBack
  | .settle k => s.onSession k (·.settle)
  | .chooseRole k p i newValue =>
    match s.tile k i with
    -- no role is asked for here
    | some t => s.begin p (.chosen ⟨k, t.page, t.user, t.role, t.item.id, newValue⟩)
    | none => s
  | .pressAdd k p =>
    match (s.sessions k).top with
    | some ⟨page, .add uid⟩ => s.begin p (.pressed ⟨k, page, uid, .add⟩)
    | _ => s
  | .pressEdit k p =>
    match (s.sessions k).top with
    | some ⟨page, .details uid n _ _⟩ => s.begin p (.pressed ⟨k, page, uid, .edit n⟩)
    | _ => s
  | .pressDeleteNft k p =>
    match (s.sessions k).top with
    | some ⟨page, .details uid n _ _⟩ => s.begin p (.pressed ⟨k, page, uid, .delete n⟩)
    | _ => s
  | .get p texts => s.answer p texts
  | .update p => s.write p
  | .replace p => s.replacePage p
  | .pressDelete k p i => s.pressDelete k p i
  | .delete p =>
    match s.jobs p with
    | some (.deleting d) =>
      { s with db := s.db.step (.deleteUser d.id) }.setJob p (some (.deleted d))
    | _ => s
  | .refreshUsers p =>
    match s.jobs p with
    | some (.deleted d) =>
      (s.setJob p none).onSession d.session (·.modifyAt d.page AdminRoute.refreshUsers)
    | _ => s

/-- A tile is one of a loaded list on top. -/
theorem AdminApp.top_of_tile {s : AdminApp} {k i : ℕ} {t : Tile} (h : s.tile k i = some t) :
    ∃ users, (s.sessions k).top = some ⟨t.page, .main t.user t.role (.done (.ok users))⟩ := by
  unfold tile at h
  split at h
  · rename_i page user role users htop
    obtain ⟨item, -, rfl⟩ := Option.map_eq_some_iff.mp h
    exact ⟨users, htop⟩
  · cases h

/-! ## Credentials of the pages -/

/-- A mounted page acts for the account `user` in the role `role`. -/
def ActsFor (n : Navigator AdminRoute) (user role : String) : Prop :=
  ∃ p ∈ n.mounted, p.route.credentials = some (user, role)

/-- A change of pages that brings up no new credentials. -/
def Quiet (f : Navigator AdminRoute → Navigator AdminRoute) : Prop :=
  ∀ n user role, ActsFor (f n) user role → ActsFor n user role

theorem actsFor_push {n : Navigator AdminRoute} {r : AdminRoute} {user role : String}
    (h : ActsFor (n.push r) user role) :
    ActsFor n user role ∨ r.credentials = some (user, role) := by
  obtain ⟨p, hp, hc⟩ := h
  rcases Navigator.mem_mounted_push.mp hp with rfl | hp
  · exact .inr hc
  · exact .inl ⟨p, hp, hc⟩

theorem actsFor_pushReplacement {n : Navigator AdminRoute} {r : AdminRoute} {user role : String}
    (h : ActsFor (n.pushReplacement r) user role) :
    ActsFor n user role ∨ r.credentials = some (user, role) := by
  obtain ⟨p, hp, hc⟩ := h
  rcases Navigator.mem_mounted_pushReplacement hp with rfl | hp
  · exact .inr hc
  · exact .inl ⟨p, hp, hc⟩

theorem quiet_push {r : AdminRoute} (hr : r.credentials = none) : Quiet (·.push r) := by
  intro n user role h
  rcases actsFor_push h with h | h
  · exact h
  · rw [hr] at h
    cases h

theorem quiet_pushReplacement {r : AdminRoute} (hr : r.credentials = none) :
    Quiet (·.pushReplacement r) := by
  intro n user role h
  rcases actsFor_pushReplacement h with h | h
  · exact h
  · rw [hr] at h
    cases h

theorem quiet_pop : Quiet Navigator.pop := fun _ _ _ ⟨p, hp, hc⟩ =>
  ⟨p, Navigator.mem_mounted_pop.mp hp, hc⟩

theorem quiet_settle : Quiet Navigator.settle := fun _ _ _ ⟨p, hp, hc⟩ =>
  ⟨p, Navigator.mem_mounted_of_settle hp, hc⟩

theorem quiet_modifyAt {f : AdminRoute → AdminRoute} (hf : ∀ r, (f r).credentials = r.credentials)
    (page : ℕ) : Quiet (·.modifyAt page f) := by
  rintro n user role ⟨p, hp, hc⟩
  rcases Navigator.mem_mounted_modifyAt hp with hp | ⟨-, r, hr, hpr⟩
  · exact ⟨p, hp, hc⟩
  · rw [hpr, hf r] at hc
    exact ⟨_, hr, hc⟩

theorem AdminRoute.credentials_loaded (docs : List (String × Fields)) (r : AdminRoute) :
    (r.loaded docs).credentials = r.credentials := by
  unfold loaded
  split
  · rfl
  · rfl

theorem AdminRoute.credentials_responded (docs : List (String × Fields)) (r : AdminRoute) :
    (r.responded docs).credentials = r.credentials := by
  unfold responded
  split
  · split
    · rfl
    · rfl
    · rfl
  · rfl

theorem AdminRoute.credentials_woken (r : AdminRoute) : r.woken.credentials = r.credentials := by
  unfold woken
  split
  · rfl
  · rfl

theorem AdminRoute.credentials_failed (text : String) (r : AdminRoute) :
    (r.failed text).credentials = r.credentials := by
  unfold failed
  split
  · rfl
  · rfl
  · rfl
  · rfl

theorem AdminRoute.credentials_refreshUsers (r : AdminRoute) :
    r.refreshUsers.credentials = r.credentials := by
  cases r <;> rfl

theorem AdminRoute.credentials_refresh (r : AdminRoute) :
    r.refresh.credentials = r.credentials := by
  cases r <;> rfl

theorem AdminRoute.credentials_setError (text : String) (r : AdminRoute) :
    (r.setError text).credentials = r.credentials := by
  cases r <;> rfl

theorem AdminRoute.credentials_changed (texts : NftArt) (button : NftButton) (r : AdminRoute) :
    (r.changed texts button).credentials = r.credentials := by
  cases r with
  | details uid n shown isChange => cases button <;> rfl
  | _ => rfl

theorem quiet_popWith (result : Bool) : Quiet (popWith result) := by
  have hrefresh : ∀ below : Page AdminRoute,
      Quiet fun n => if result then n.pop.modifyAt below.id AdminRoute.refresh else n.pop := by
    intro below n user role h
    dsimp only at h
    split at h
    · exact quiet_pop n user role (quiet_modifyAt AdminRoute.credentials_refresh _ _ _ _ h)
    · exact quiet_pop n user role h
  intro n user role h
  unfold popWith at h
  split at h
  · exact hrefresh _ n user role h
  · exact hrefresh _ n user role h
  · exact quiet_pop n user role h

theorem quiet_pressArrow : Quiet pressArrow := by
  intro n user role h
  unfold pressArrow at h
  split at h
  · exact quiet_pop n user role h
  · exact quiet_popWith _ n user role h
  · exact quiet_popWith _ n user role h
  · exact h

theorem quiet_pressBack : Quiet pressBack := by
  intro n user role h
  unfold pressBack at h
  split at h
  · exact quiet_pop n user role h
  · exact h

theorem quiet_finish (button : NftButton) (page : ℕ) (texts : NftArt) :
    Quiet (button.finish page texts) := by
  intro n user role h
  unfold NftButton.finish at h
  split at h
  · split at h
    · exact quiet_popWith true n user role h
    · exact h
  · exact quiet_modifyAt (AdminRoute.credentials_changed texts button) page n user role h

/-- `postLogin` lets an account in with the role it read for it, 'admin' or 'manager'. -/
theorem postLogin_cases (page : ℕ) (user : Option String) (docs : List (String × Fields)) :
    Quiet (postLogin page user docs) ∨
      ∃ uid role, user = some uid ∧ adminChecker uid docs = .ok role ∧
        (role = "admin" ∨ role = "manager") ∧
        postLogin page user docs = (·.pushReplacement (.main uid role .waiting)) := by
  have herror : ∀ text, Quiet (·.modifyAt page (AdminRoute.setError text)) := fun text =>
    quiet_modifyAt (AdminRoute.credentials_setError text) page
  cases user with
  | none => exact .inl (herror _)
  | some uid =>
    cases hrole : adminChecker uid docs with
    | error x =>
      left
      intro n user role h
      simp only [postLogin, hrole] at h
      exact herror _ n user role h
    | ok role =>
      by_cases hin : role = "admin" ∨ role = "manager"
      · refine .inr ⟨uid, role, rfl, hrole, hin, funext fun n => ?_⟩
        simp only [postLogin, hrole, if_pos hin]
      · left
        intro n user role' h
        simp only [postLogin, hrole, if_neg hin] at h
        exact herror _ n user role' h

/-! ## What a step does -/

/-- How a press starts a job: on a tile, or with no role at stake. -/
inductive AdminApp.Begins (s : AdminApp) (e : AdminEvent) (p : ℕ) : Job → Prop where
  | chosen (k i : ℕ) (newValue : RoleItem) (t : Tile) (he : e = .chooseRole k p i newValue)
      (ht : s.tile k i = some t) :
      Begins s e p (.chosen ⟨k, t.page, t.user, t.role, t.item.id, newValue⟩)
  | pressed (b : NftPress) : Begins s e p (.pressed b)
  | deleting (k i : ℕ) (t : Tile) (he : e = .pressDelete k p i) (ht : s.tile k i = some t)
      (hrole : t.role = "admin") (hself : t.user ≠ t.item.id) :
      Begins s e p (.deleting ⟨k, t.page, t.user, t.item.id⟩)

/-- The ways in which a step changes the app. -/
inductive AdminApp.Effect (s : AdminApp) (e : AdminEvent) : AdminApp → Prop where
  | keep : Effect s e s
  | navigate (k : ℕ) (f : Navigator AdminRoute → Navigator AdminRoute) (hf : Quiet f) :
      Effect s e (s.onSession k f)
  | login (k page : ℕ) (uid role : String) (he : e = .login k page (some uid))
      (hrole : adminChecker uid s.db.users.docs = .ok role)
      (hin : role = "admin" ∨ role = "manager") :
      Effect s e (s.onSession k (·.pushReplacement (.main uid role .waiting)))
  | begin (p : ℕ) (j : Job) (hj : s.Begins e p j) : Effect s e (s.setJob p (some j))
  | chosen (p : ℕ) (c : RoleChoice) (j : Option Job) (hc : s.jobs p = some (.chosen c))
      (hj : j = none ∨ j = some (.writing c)) :
      Effect s e
        ((s.send c.session p (s.db.step (.get p c.id (.chooseRole c.newValue)))).setJob p j)
  | pressed (p : ℕ) (b : NftPress) (texts : NftArt)
      (f : Navigator AdminRoute → Navigator AdminRoute) (hf : Quiet f) :
      Effect s e (((s.send b.session p (s.db.step (.get p b.uid (b.button.handler texts)))).setJob p
        none).onSession b.session f)
  | update (p : ℕ) (he : e = .update p) : Effect s e { s with
      db := s.db.step (.update p)
      queue := fun k => (s.queue k).erase p }
  | writing (p : ℕ) (c : RoleChoice) (j : Option Job) (he : e = .update p)
      (hc : s.jobs p = some (.writing c)) (hj : j = none ∨ j = some (.written c)) :
      Effect s e ({ s with
        db := s.db.step (.update p)
        queue := fun k => (s.queue k).erase p }.setJob p j)
  | written (p : ℕ) (c : RoleChoice) (hc : s.jobs p = some (.written c)) :
      Effect s e ((s.setJob p none).onSession c.session fun n =>
        if (n.find c.page).isSome then n.pushReplacement (.main c.user c.role .waiting) else n)
  | delete (p : ℕ) (d : Deletion) (he : e = .delete p) (hd : s.jobs p = some (.deleting d)) :
      Effect s e ({ s with db := s.db.step (.deleteUser d.id) }.setJob p (some (.deleted d)))
  | deleted (p : ℕ) (d : Deletion) (f : Navigator AdminRoute → Navigator AdminRoute)
      (hf : Quiet f) : Effect s e ((s.setJob p none).onSession d.session f)

theorem AdminApp.effect_begin {s : AdminApp} {e : AdminEvent} {p : ℕ} {j : Job}
    (hj : s.Begins e p j) : s.Effect e (s.begin p j) := by
  unfold AdminApp.begin
  split
  · exact .begin p j hj
  · exact .keep

theorem AdminApp.effect_answer (s : AdminApp) (p : ℕ) (texts : NftArt) :
    s.Effect (.get p texts) (s.answer p texts) := by
  unfold answer
  split
  · rename_i c hc
    refine .chosen p c _ hc ?_
    split
    · exact .inr rfl
    · exact .inl rfl
  · rename_i b hb
    refine .pressed p b texts _ fun n user role h => ?_
    split at h
    · exact quiet_finish b.button b.page texts n user role h
    · exact h
  · exact .keep

theorem AdminApp.effect_write (s : AdminApp) (p : ℕ) : s.Effect (.update p) (s.write p) := by
  unfold write
  split
  · rename_i c hc
    refine .writing p c _ rfl hc ?_
    split
    · exact .inr rfl
    · exact .inl rfl
  · exact .update p rfl

theorem AdminApp.effect_pressDelete (s : AdminApp) (k p i : ℕ) :
    s.Effect (.pressDelete k p i) (s.pressDelete k p i) := by
  unfold pressDelete
  split
  · rename_i t ht
    split
    · rename_i hrole
      split
      · exact .keep
      · rename_i hself
        exact effect_begin (.deleting k i t rfl ht hrole hself)
    · exact .keep
  · exact .keep

/-- Every step is one of these. -/
theorem AdminApp.effect (s : AdminApp) (e : AdminEvent) : s.Effect e (s.step e) := by
  cases e with
  | login k page user =>
    simp only [step]
    split
    · rcases postLogin_cases page user s.db.users.docs with hq | ⟨uid, role, rfl, hrole, hin, heq⟩
      · exact .navigate k _ hq
      · rw [heq]
        exact .login k page uid role rfl hrole hin
    · exact .keep
  | logout k =>
    simp only [step]
    split
    · exact .navigate k _ (quiet_pushReplacement rfl)
    · exact .keep
  | load k page =>
    exact .navigate k _ (quiet_modifyAt (AdminRoute.credentials_loaded s.db.users.docs) page)
  | respond k page =>
    exact .navigate k _ (quiet_modifyAt (AdminRoute.credentials_responded (s.view k).docs) page)
  | wake k page => exact .navigate k _ (quiet_modifyAt AdminRoute.credentials_woken page)
  | offline k page text =>
    exact .navigate k _ (quiet_modifyAt (AdminRoute.credentials_failed text) page)
  | openUser k i =>
    simp only [step]
    split
    · exact .navigate k _ (quiet_push rfl)
    · exact .keep
  | openNft k i =>
    simp only [step]
    split
    · split
      · exact .navigate k _ (quiet_push rfl)
      · exact .keep
    · exact .keep
  | openAdd k =>
    simp only [step]
    split
    · exact .navigate k _ (quiet_push rfl)
    · exact .keep
  | arrow k => exact .navigate k _ quiet_pressArrow
  | back k => exact .navigate k _ quiet_pressBack
  | settle k => exact .navigate k _ quiet_settle
  | chooseRole k p i newValue =>
    simp only [step]
    split
    · rename_i t ht
      exact effect_begin (.chosen k i newValue t rfl ht)
    · exact .keep
  | pressAdd k p =>
    simp only [step]
    split
    · exact effect_begin (.pressed _)
    · exact .keep
  | pressEdit k p =>
    simp only [step]
    split
    · exact effect_begin (.pressed _)
    · exact .keep
  | pressDeleteNft k p =>
    simp only [step]
    split
    · exact effect_begin (.pressed _)
    · exact .keep
  | get p texts => exact s.effect_answer p texts
  | update p => exact s.effect_write p
  | replace p =>
    simp only [step, replacePage]
    split
    · rename_i c hc
      exact .written p c hc
    · exact .keep
  | pressDelete k p i => exact s.effect_pressDelete k p i
  | delete p =>
    simp only [step]
    split
    · rename_i d hd
      exact .delete p d rfl hd
    · exact .keep
  | refreshUsers p =>
    simp only [step]
    split
    · rename_i d hd
      exact .deleted p d _ (quiet_modifyAt AdminRoute.credentials_refreshUsers d.page)
    · exact .keep

theorem AdminApp.jobs_setJob {s : AdminApp} {p q : ℕ} {j : Option Job} {x : Job}
    (h : (s.setJob p j).jobs q = some x) : s.jobs q = some x ∨ q = p ∧ j = some x := by
  rcases Machine.update_eq_some h with hnew | ⟨-, hold⟩
  · exact .inr hnew
  · exact .inl hold

/-- The jobs there are after a step. -/
inductive AdminApp.NextJob (s : AdminApp) (e : AdminEvent) (p : ℕ) : Job → Prop where
  | keep (j : Job) (hj : s.jobs p = some j) : NextJob s e p j
  | begin (j : Job) (hj : s.Begins e p j) : NextJob s e p j
  | writing (c : RoleChoice) (hc : s.jobs p = some (.chosen c)) : NextJob s e p (.writing c)
  | written (c : RoleChoice) (hc : s.jobs p = some (.writing c)) : NextJob s e p (.written c)
  | deleted (d : Deletion) (hd : s.jobs p = some (.deleting d)) : NextJob s e p (.deleted d)

theorem AdminApp.nextJob {s : AdminApp} {e : AdminEvent} {p : ℕ} {x : Job}
    (h : (s.step e).jobs p = some x) : s.NextJob e p x := by
  have heffect := s.effect e
  generalize s.step e = s' at h heffect
  cases heffect with
  | keep => exact .keep x h
  | navigate k f hf => exact .keep x h
  | login k page uid role he hrole hin => exact .keep x h
  | begin q j hj =>
    rcases jobs_setJob h with h | ⟨rfl, hx⟩
    · exact .keep x h
    · obtain rfl := Option.some.inj hx
      exact .begin j hj
  | chosen q c j hc hj =>
    rcases jobs_setJob h with h | ⟨rfl, rfl⟩
    · exact .keep x h
    · rcases hj with hj | hj
      · cases hj
      · obtain rfl := Option.some.inj hj
        exact .writing c hc
  | pressed q b texts f hf =>
    rcases jobs_setJob h with h | ⟨-, hx⟩
    · exact .keep x h
    · cases hx
  | update q he => exact .keep x h
  | writing q c j he hc hj =>
    rcases jobs_setJob h with h | ⟨rfl, rfl⟩
    · exact .keep x h
    · rcases hj with hj | hj
      · cases hj
      · obtain rfl := Option.some.inj hj
        exact .written c hc
  | written q c hc =>
    rcases jobs_setJob h with h | ⟨-, hx⟩
    · exact .keep x h
    · cases hx
  | delete q d he hd =>
    rcases jobs_setJob h with h | ⟨rfl, hx⟩
    · exact .keep x h
    · obtain rfl := Option.some.inj hx
      exact .deleted d hd
  | deleted q d f hf =>
    rcases jobs_setJob h with h | ⟨-, hx⟩
    · exact .keep x h
    · cases hx

/-! ## What is sent to the store -/

/-- The steps of the store that a step of the app makes. -/
inductive AdminApp.Sends (s : AdminApp) (e : AdminEvent) : Event → Prop where
  | chosen (p : ℕ) (c : RoleChoice) (hc : s.jobs p = some (.chosen c)) :
      Sends s e (.get p c.id (.chooseRole c.newValue))
  | pressed (p : ℕ) (uid : String) (button : NftButton) (texts : NftArt) :
      Sends s e (.get p uid (button.handler texts))
  | update (p : ℕ) (he : e = .update p) : Sends s e (.update p)
  | delete (p : ℕ) (d : Deletion) (he : e = .delete p) (hd : s.jobs p = some (.deleting d)) :
      Sends s e (.deleteUser d.id)

theorem AdminApp.db_step (s : AdminApp) (e : AdminEvent) :
    (s.step e).db = s.db ∨ ∃ e', s.Sends e e' ∧ (s.step e).db = s.db.step e' := by
  have heffect := s.effect e
  generalize s.step e = s' at heffect
  cases heffect with
  | keep => exact .inl rfl
  | navigate k f hf => exact .inl rfl
  | login k page uid role he hrole hin => exact .inl rfl
  | begin p j hj => exact .inl rfl
  | chosen p c j hc hj => exact .inr ⟨_, .chosen p c hc, rfl⟩
  | pressed p b texts f hf => exact .inr ⟨_, .pressed p b.uid b.button texts, rfl⟩
  | update p he => exact .inr ⟨_, .update p he, rfl⟩
  | writing p c j he hc hj => exact .inr ⟨_, .update p he, rfl⟩
  | written p c hc => exact .inl rfl
  | delete p d he hd => exact .inr ⟨_, .delete p d he hd, rfl⟩
  | deleted p d f hf => exact .inl rfl

/-- What a step changes in the collection: nothing, or an `update` or a `delete` reaches it. -/
theorem AdminApp.users_step (s : AdminApp) (e : AdminEvent) :
    (s.step e).db.users = s.db.users ∨
      (∃ p, e = .update p ∧ (s.step e).db.users = (s.db.step (.update p)).users) ∨
      ∃ p d, e = .delete p ∧ s.jobs p = some (.deleting d) ∧
        (s.step e).db.users = s.db.users.delete d.id := by
  rcases s.db_step e with hdb | ⟨e', hsends, hdb⟩
  · exact .inl (by rw [hdb])
  · rw [hdb]
    cases hsends with
    | chosen p c hc => exact .inl (Db.users_step_get s.db p c.id _)
    | pressed p uid button texts => exact .inl (Db.users_step_get s.db p uid _)
    | update p he => exact .inr (.inl ⟨p, he, rfl⟩)
    | delete p d he hd => exact .inr (.inr ⟨p, d, he, hd, rfl⟩)

/-- A run of the app is a run of the store. -/
theorem AdminApp.run_db (users : Users) (es : List AdminEvent) :
    ∃ es', (Machine.run AdminApp.step (AdminApp.start users) es).db =
      Machine.run Db.step (Db.start users) es' := by
  induction es using List.reverseRecOn with
  | nil => exact ⟨[], rfl⟩
  | append_singleton es e ih =>
    obtain ⟨es', hes'⟩ := ih
    rw [Machine.run_snoc]
    rcases db_step _ e with hkeep | ⟨e', -, hstep⟩
    · exact ⟨es', hkeep.trans hes'⟩
    · exact ⟨es' ++ [e'], by rw [hstep, hes', Machine.run_snoc]⟩

/-! ## The user list -/

theorem checkUsers_of_stores {docs : List (String × Fields)}
    (h : ∀ element ∈ docs, ∃ p, Stores ShowsTexts element.2 p) :
    ∃ z, checkUsers docs = .ok z ∧ z.map NftUser.id = docs.map Prod.fst := by
  induction docs with
  | nil => exact ⟨[], rfl, rfl⟩
  | cons element docs ih =>
    obtain ⟨p, hp⟩ := h element List.mem_cons_self
    obtain ⟨z, hz, hids⟩ := ih fun x hx => h x (List.mem_cons_of_mem element hx)
    have hcons : checkUsers (element :: docs) =
        NftUser.fromJson element.2 element.1 >>= fun u => checkUsers docs >>= fun z =>
          pure (u :: z) := List.mapM_cons
    rw [hcons, NftUser.fromJson_of_stores hp, hz]
    exact ⟨_, rfl, by rw [List.map_cons, List.map_cons, hids]⟩

/-- On a collection that began well-formed the user list always loads, with a tile for every
document. -/
theorem AdminApp.checkUsers_run {users : Users}
    (h : ∀ uid doc, users.get uid = some doc → WellFormed doc) (es : List AdminEvent) :
    ∃ z, checkUsers (Machine.run AdminApp.step (AdminApp.start users) es).db.users.docs = .ok z ∧
      z.map NftUser.id =
        (Machine.run AdminApp.step (AdminApp.start users) es).db.users.docs.map Prod.fst := by
  obtain ⟨es', hdb⟩ := AdminApp.run_db users es
  have hall := (AllStore.start fun uid doc hdoc => (h uid doc hdoc).exists_stores).run
    entryRel_showsTexts es'
  rw [hdb]
  exact checkUsers_of_stores fun element hmem => hall.users _ _ (Collection.mem_docs.mp hmem)

end FlutterThree
