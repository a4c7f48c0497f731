import FlutterThree.Accounts
import FlutterThree.Privileges

/-!
# Who gets into the admin app

Nothing in the store protects a document; that a user without a role in it can do nothing with the
admin app is a matter of `postLogin`, and of no page past it being there for a session that it has
not let in.

`sessions_authorised`: whatever a session shows or has under way goes back to a login of the same
session that found the role 'admin' or 'manager'. `outsiders_stay_out`: accounts without such a
role do not get one from anything the client apps do, so as long as only they sign in, the admin
app stays on its login pages and changes no document.
-/

namespace FlutterThree

open Dart Firestore Flutter

/-! ## Every page of a session -/

section

variable {n : Navigator AdminRoute} {P : ℕ → AdminRoute → Prop}

theorem allAt_popWith (h : n.AllAt P) (hrefresh : ∀ i r, P i r → P i r.refresh) (result : Bool) :
    (popWith result n).AllAt P := by
  unfold popWith
  split
  · split
    · exact h.pop.modifyAt _ (hrefresh _)
    · exact h.pop
  · split
    · exact h.pop.modifyAt _ (hrefresh _)
    · exact h.pop
  · exact h.pop

theorem allAt_pressArrow (h : n.AllAt P) (hrefresh : ∀ i r, P i r → P i r.refresh) :
    (pressArrow n).AllAt P := by
  unfold pressArrow
  split
  · exact h.pop
  · exact allAt_popWith h hrefresh _
  · exact allAt_popWith h hrefresh _
  · exact h

theorem allAt_pressBack (h : n.AllAt P) : (pressBack n).AllAt P := by
  unfold pressBack
  split
  · exact h.pop
  · exact h

theorem allAt_finish (h : n.AllAt P) (hrefresh : ∀ i r, P i r → P i r.refresh) {button : NftButton}
    {texts : NftArt} (hchanged : ∀ i r, P i r → P i (r.changed texts button)) (page : ℕ) :
    (button.finish page texts n).AllAt P := by
  unfold NftButton.finish
  split
  · split
    · exact allAt_popWith h hrefresh true
    · exact h
  · exact h.modifyAt page (hchanged page)

/-- What `postLogin` shows when no call has failed and the account is not let in. -/
def signInErrors : List String := ["Email or password incorrect", "You don't have access"]

/-- `postLogin` shows a text, or replaces the page when it has read a role that it lets in. -/
theorem allAt_postLogin (h : n.AllAt P) (page : ℕ) {user : Option String}
    {docs : List (String × Fields)}
    (herror : ∀ text, (text ∈ signInErrors ∨ ∃ uid x, user = some uid ∧
      adminChecker uid docs = .error x) → ∀ r, P page r → P page (r.setError text))
    (hmain : ∀ uid role, user = some uid → adminChecker uid docs = .ok role →
      role = "admin" ∨ role = "manager" → P n.next (.main uid role .waiting)) :
    (postLogin page user docs n).AllAt P := by
  cases user with
  | none => exact h.modifyAt page (herror _ (.inl (by decide)))
  | some uid =>
    cases hcheck : adminChecker uid docs with
    | error x =>
      simp only [FlutterThree.postLogin, hcheck]
      exact h.modifyAt page (herror _ (.inr ⟨uid, x, rfl, hcheck⟩))
    | ok role =>
      by_cases hrole : role = "admin" ∨ role = "manager"
      · simp only [FlutterThree.postLogin, hcheck, if_pos hrole]
        exact h.pushReplacement (hmain uid role rfl hcheck hrole)
      · simp only [FlutterThree.postLogin, hcheck, if_neg hrole]
        exact h.modifyAt page (herror _ (.inl (by decide)))

end

/-! ## A session opens at a login only -/

def AdminRoute.IsLogin : AdminRoute → Prop
  | .login _ => True
  | _ => False

theorem isLogin_refresh (r : AdminRoute) (h : r.IsLogin) : r.refresh.IsLogin := by
  cases r with
  | login e => trivial
  | _ => cases h

theorem isLogin_setError (text : String) (r : AdminRoute) (h : r.IsLogin) :
    (r.setError text).IsLogin := by
  cases r with
  | login e => trivial
  | _ => cases h

theorem isLogin_failed (text : String) (r : AdminRoute) (h : r.IsLogin) :
    (r.failed text).IsLogin := by
  cases r with
  | login e => trivial
  | _ => cases h

theorem isLogin_responded (docs : List (String × Fields)) (r : AdminRoute) (h : r.IsLogin) :
    (r.responded docs).IsLogin := by
  cases r with
  | login e => trivial
  | _ => cases h

theorem isLogin_woken (r : AdminRoute) (h : r.IsLogin) : r.woken.IsLogin := by
  cases r with
  | login e => trivial
  | _ => cases h

theorem isLogin_loaded (docs : List (String × Fields)) (r : AdminRoute) (h : r.IsLogin) :
    (r.loaded docs).IsLogin := by
  cases r with
  | login e => trivial
  | _ => cases h

def Job.session : Job → ℕ
  | .chosen c => c.session
  | .writing c => c.session
  | .written c => c.session
  | .pressed b => b.session
  | .deleting d => d.session
  | .deleted d => d.session

/-- Session `k` shows login pages only, and has nothing under way. -/
structure AdminApp.Shut (s : AdminApp) (k : ℕ) : Prop where
  pages : (s.sessions k).All AdminRoute.IsLogin
  jobs : ∀ p j, s.jobs p = some j → j.session ≠ k

/-- A login of session `k` that is let in. -/
def AdminApp.LetsIn (s : AdminApp) (k : ℕ) (e : AdminEvent) : Prop :=
  ∃ page uid role, e = .login k page (some uid) ∧ (role = "admin" ∨ role = "manager") ∧
    s.StoredRole uid role

section

variable {s : AdminApp} {k : ℕ}

theorem AdminApp.Shut.onSession (h : s.Shut k) (k' : ℕ)
    {f : Navigator AdminRoute → Navigator AdminRoute}
    (hf : k' = k → (s.sessions k).All AdminRoute.IsLogin →
      (f (s.sessions k)).All AdminRoute.IsLogin) :
    (s.onSession k' f).Shut k := by
  refine ⟨?_, h.jobs⟩
  change (Function.update s.sessions k' (f (s.sessions k')) k).All AdminRoute.IsLogin
  by_cases hk : k' = k
  · subst hk
    rw [Function.update_self]
    exact hf rfl h.pages
  · rw [Function.update_of_ne fun heq => hk heq.symm]
    exact h.pages

theorem AdminApp.Shut.setJob (h : s.Shut k) (p : ℕ) {job : Option Job}
    (hjob : ∀ j, job = some j → j.session ≠ k) : (s.setJob p job).Shut k := by
  refine ⟨h.pages, fun q j hj => ?_⟩
  rcases jobs_setJob hj with hold | ⟨-, hnew⟩
  · exact h.jobs q j hold
  · exact hjob j hnew

theorem AdminApp.Shut.db (h : s.Shut k) (db : Db) (queue : ℕ → List ℕ) :
    AdminApp.Shut { s with db := db, queue := queue } k := ⟨h.pages, h.jobs⟩

theorem AdminApp.Shut.begin (h : s.Shut k) (p : ℕ) {j : Job} (hj : j.session ≠ k) :
    (s.begin p j).Shut k := by
  unfold AdminApp.begin
  split
  · exact h.setJob p fun j' hj' => Option.some.inj hj' ▸ hj
  · exact h

/-- On a page that is none of a shut session's. -/
theorem AdminApp.Shut.ne_of_top (h : s.Shut k) {k' : ℕ} {p : Page AdminRoute}
    (htop : (s.sessions k').top = some p) (hp : ¬ p.route.IsLogin) : k' ≠ k := by
  rintro rfl
  exact hp (h.pages.top htop)

theorem AdminApp.Shut.ne_of_tile (h : s.Shut k) {k' i : ℕ} {t : Tile}
    (ht : s.tile k' i = some t) : k' ≠ k := by
  obtain ⟨users, htop⟩ := top_of_tile ht
  exact h.ne_of_top htop id

theorem AdminApp.Shut.step (h : s.Shut k) {e : AdminEvent} (he : ¬ s.LetsIn k e) :
    (s.step e).Shut k := by
  cases e with
  | login k' page user =>
    simp only [AdminApp.step]
    split
    · refine h.onSession k' fun hk hall => allAt_postLogin hall page (fun text _ =>
        isLogin_setError text) fun uid role huser hrole hin => ?_
      subst huser hk
      exact he ⟨page, uid, role, rfl, hin, storedRole_of_adminChecker hrole hin⟩
    · exact h
  | logout k' =>
    simp only [AdminApp.step]
    split
    · rename_i htop
      exact h.onSession k' fun hk => absurd hk (h.ne_of_top htop id)
    · exact h
  | load k' page =>
    exact h.onSession k' (f := (·.modifyAt page (AdminRoute.loaded s.db.users.docs)))
      fun _ hall => hall.modifyAt page (isLogin_loaded _)
  | respond k' page =>
    exact h.onSession k' (f := (·.modifyAt page (AdminRoute.responded (s.view k').docs)))
      fun _ hall => hall.modifyAt page (isLogin_responded _)
  | wake k' page =>
    exact h.onSession k' (f := (·.modifyAt page AdminRoute.woken))
      fun _ hall => hall.modifyAt page isLogin_woken
  | offline k' page text =>
    exact h.onSession k' (f := (·.modifyAt page (AdminRoute.failed text)))
      fun _ hall => hall.modifyAt page (isLogin_failed text)
  | openUser k' i =>
    simp only [AdminApp.step]
    split
    · rename_i ht
      exact h.onSession k' fun hk => absurd hk (h.ne_of_tile ht)
    · exact h
  | openNft k' i =>
    simp only [AdminApp.step]
    split
    · rename_i htop
      split
      · exact h.onSession k' fun hk => absurd hk (h.ne_of_top htop id)
      · exact h
    · exact h
  | openAdd k' =>
    simp only [AdminApp.step]
    split
    · rename_i htop
      exact h.onSession k' fun hk => absurd hk (h.ne_of_top htop id)
    · exact h
  | arrow k' => exact h.onSession k' fun _ hall => allAt_pressArrow hall fun _ => isLogin_refresh
  | back k' => exact h.onSession k' fun _ hall => allAt_pressBack hall
  | settle k' => exact h.onSession k' fun _ hall => hall.settle
  | chooseRole k' p i newValue =>
    simp only [AdminApp.step]
    split
    · rename_i ht
      exact h.begin p (h.ne_of_tile ht)
    · exact h
  | pressAdd k' p =>
    simp only [AdminApp.step]
    split
    · rename_i htop
      exact h.begin p (h.ne_of_top htop id)
    · exact h
  | pressEdit k' p =>
    simp only [AdminApp.step]
    split
    · rename_i htop
      exact h.begin p (h.ne_of_top htop id)
    · exact h
  | pressDeleteNft k' p =>
    simp only [AdminApp.step]
    split
    · rename_i htop
      exact h.begin p (h.ne_of_top htop id)
    · exact h
  | get p texts =>
    simp only [AdminApp.step, answer]
    split
    · rename_i c hc
      have hne : c.session ≠ k := h.jobs p _ hc
      refine (h.db _ _).setJob p fun j hj => ?_
      split at hj
      · obtain rfl := Option.some.inj hj
        exact hne
      · cases hj
    · rename_i b hb
      refine ((h.db _ _).setJob p fun j hj => by cases hj).onSession b.session fun hk => ?_
      exact absurd hk (h.jobs p _ hb)
    · exact h
  | update p =>
    simp only [AdminApp.step, write]
    split
    · rename_i c hc
      have hne : c.session ≠ k := h.jobs p _ hc
      refine (h.db _ _).setJob p fun j hj => ?_
      split at hj
      · obtain rfl := Option.some.inj hj
        exact hne
      · cases hj
    · exact h.db _ _
  | replace p =>
    simp only [AdminApp.step, replacePage]
    split
    · rename_i c hc
      refine (h.setJob p fun j hj => by cases hj).onSession c.session fun hk => ?_
      exact absurd hk (h.jobs p _ hc)
    · exact h
  | pressDelete k' p i =>
    simp only [AdminApp.step, pressDelete]
    split
    · rename_i ht
      split
      · split
        · exact h
        · exact h.begin p (h.ne_of_tile ht)
      · exact h
    · exact h
  | delete p =>
    simp only [AdminApp.step]
    split
    · rename_i d hd
      have hne : d.session ≠ k := h.jobs p _ hd
      refine (h.db _ _).setJob p fun j hj => ?_
      obtain rfl := Option.some.inj hj
      exact hne
    · exact h
  | refreshUsers p =>
    simp only [AdminApp.step]
    split
    · rename_i d hd
      refine (h.setJob p fun j hj => by cases hj).onSession d.session fun hk => ?_
      exact absurd hk (h.jobs p _ hd)
    · exact h

end

theorem AdminApp.shut_start (users : Users) (k : ℕ) : (AdminApp.start users).Shut k :=
  ⟨Navigator.allAt_home trivial, fun _ _ hj => by cases hj⟩

/-- A session that is not shut any more was let in. -/
theorem Apps.exists_letsIn {users : Users} {accounts : List Account}
    {accepts : String → String → Bool} {currentUsers : ℕ → Option String} {es : List AppsEvent}
    {k : ℕ} (hopen : ¬ (Machine.run Apps.step
      (Apps.start users accounts accepts currentUsers) es).admin.Shut k) :
    ∃ pre page uid role post, es = pre ++ .admin (.login k page (some uid)) :: post ∧
      (role = "admin" ∨ role = "manager") ∧
      (Machine.run Apps.step (Apps.start users accounts accepts currentUsers)
        pre).admin.StoredRole uid role := by
  have hstep : ∀ (s : Apps) e, ¬ (s.step e).admin.Shut k →
      ¬ s.admin.Shut k ∨ ∃ e', e = .admin e' ∧ s.admin.LetsIn k e' := by
    intro s e hafter
    by_cases hbefore : s.admin.Shut k
    · right
      cases e with
      | admin e =>
        refine ⟨e, rfl, ?_⟩
        by_contra hnot
        exact hafter (hbefore.step hnot)
      | client i a => exact absurd (hbefore.db _ _) hafter
    · exact .inl hbefore
  have hstart : ¬ ¬ (Apps.start users accounts accepts currentUsers).admin.Shut k :=
    not_not_intro (AdminApp.shut_start users k)
  obtain ⟨pre, e, post, rfl, e', rfl, page, uid, role, rfl, hrole, hstored⟩ :=
    Machine.exists_split_of_run (fun s : Apps => ¬ s.admin.Shut k) hstep hstart hopen
  exact ⟨pre, page, uid, role, post, rfl, hrole, hstored⟩

/-- **A session is let in by a login.** Where a session shows another page than the login, or has a
handler under way, it has signed in an account whose document said 'admin' or 'manager' then. -/
theorem sessions_authorised {users : Users} {accounts : List Account}
    {accepts : String → String → Bool} {currentUsers : ℕ → Option String} {es : List AppsEvent}
    {s : Apps} (hs : s = Machine.run Apps.step (Apps.start users accounts accepts currentUsers) es)
    {k : ℕ} (hin : (∃ p ∈ (s.admin.sessions k).mounted, ¬ p.route.IsLogin) ∨
      ∃ p j, s.admin.jobs p = some j ∧ j.session = k) :
    ∃ pre page uid role post, es = pre ++ .admin (.login k page (some uid)) :: post ∧
      (role = "admin" ∨ role = "manager") ∧
      (Machine.run Apps.step (Apps.start users accounts accepts currentUsers)
        pre).admin.StoredRole uid role := by
  have hopen : ¬ s.admin.Shut k := by
    rintro ⟨hpages, hjobs⟩
    rcases hin with ⟨p, hp, hnot⟩ | ⟨p, j, hj, hk⟩
    · exact hnot (hpages p hp)
    · exact hjobs p j hj hk
  rw [hs] at hopen
  exact Apps.exists_letsIn hopen

/-- The admin has opened the user on the first tile. -/
theorem sessions_authorised_root :
    ∃ pre page uid role post,
      ([.admin (.login 0 0 (some "root")), .admin (.load 0 1), .admin (.openUser 0 0)] :
        List AppsEvent) = pre ++ .admin (.login 0 page (some uid)) :: post ∧
      (role = "admin" ∨ role = "manager") ∧
      (Machine.run Apps.step adminAndGuests pre).admin.StoredRole uid role := by
  refine sessions_authorised rfl (.inl ⟨⟨2, .nft "root" (.done (.ok (some [])))⟩, ?_, id⟩)
  exact List.mem_append_left _ List.mem_cons_self

/-! ## Nobody is let in for what the client apps do -/

/-- The account has no role that lets it in. -/
def Users.Outsider (users : Users) (uid : String) : Prop :=
  ∀ doc role, users.get uid = some doc → doc.lookup "role" = some (.str role) →
    ¬ (role = "admin" ∨ role = "manager")

/-- Nobody is in, and those of `O` would not be let in. -/
structure Apps.Closed (O : String → Prop) (s : Apps) : Prop where
  shut : ∀ k, s.admin.Shut k
  writes : ∀ p, s.admin.db.writes p = none
  outsiders : ∀ uid, O uid → s.users.Outsider uid

theorem Users.Outsider.upload {users : Users} {uid : String} (h : users.Outsider uid) (v : String)
    (nft : NftArt) : Users.Outsider (users.update v (postNFT nft)) uid := by
  intro doc role hdoc hrole
  rw [Collection.get_update] at hdoc
  split at hdoc
  · rename_i hv
    obtain ⟨doc', hdoc', rfl⟩ := Option.map_eq_some_iff.mp hdoc
    rw [lookup_postNFT nft doc' (by decide)] at hrole
    exact h doc' role (hv ▸ hdoc') hrole
  · exact h doc role hdoc hrole

theorem Users.Outsider.register {users : Users} {uid : String} (h : users.Outsider uid)
    (v name : String) : Users.Outsider (users.set v (registerDoc name)) uid := by
  intro doc role hdoc hrole
  rw [Collection.get_set] at hdoc
  split at hdoc
  · obtain rfl := Option.some.inj hdoc
    obtain rfl : "user" = role := Value.str.inj (Option.some.inj hrole)
    decide
  · exact h doc role hdoc hrole

section

variable {O : String → Prop} {s : Apps}

/-- Nothing is under way in an app that is closed. -/
theorem Apps.Closed.jobs (h : s.Closed O) (p : ℕ) : s.admin.jobs p = none := by
  cases hj : s.admin.jobs p with
  | none => rfl
  | some j => exact absurd rfl ((h.shut j.session).jobs p j hj)

theorem Apps.Closed.db_admin (h : s.Closed O) (e : AdminEvent) :
    (s.admin.step e).db = s.admin.db := by
  rw [s.admin.db_step_sent e]
  cases e with
  | get p texts =>
    simp only [AdminApp.sent, h.jobs p]
    rfl
  | update p =>
    change s.admin.db.step (.update p) = s.admin.db
    simp only [Db.step, h.writes p]
  | delete p =>
    simp only [AdminApp.sent, h.jobs p]
    rfl
  | _ => rfl

/-- A step of the admin app, when only those of `O` sign in. -/
theorem Apps.Closed.step_admin (h : s.Closed O) {e : AdminEvent}
    (he : ∀ k page uid, e = .login k page (some uid) → O uid) :
    (s.step (.admin e)).Closed O := by
  have hdb : (s.step (.admin e)).admin.db = s.admin.db := h.db_admin e
  refine ⟨fun k => (h.shut k).step ?_, fun p => ?_, fun uid hO => ?_⟩
  · rintro ⟨page, uid, role, rfl, hrole, doc, hdoc, hlookup⟩
    exact h.outsiders uid (he k page uid rfl) doc role hdoc hlookup hrole
  · rw [hdb]
    exact h.writes p
  · rw [Apps.users, hdb]
    exact h.outsiders uid hO

theorem Apps.Closed.step_client (h : s.Closed O) (i : ℕ) (a : ClientAction) :
    (s.step (.client i a)).Closed O := by
  have hdb := s.db_step (.client i a)
  refine ⟨fun k => (h.shut k).db _ _, fun p => ?_, fun uid hO => ?_⟩
  · rw [hdb]
    cases hsent : s.sent (.client i a) with
    | none => exact h.writes p
    | some e =>
      rcases Client.sent_cases hsent with ⟨v, nft, rfl⟩ | ⟨v, name, rfl⟩
      · exact h.writes p
      · exact h.writes p
  · rw [Apps.users, hdb]
    cases hsent : s.sent (.client i a) with
    | none => exact h.outsiders uid hO
    | some e =>
      rcases Client.sent_cases hsent with ⟨v, nft, rfl⟩ | ⟨v, name, rfl⟩
      · exact (h.outsiders uid hO).upload v nft
      · exact (h.outsiders uid hO).register v name

end

/-- **Outsiders stay out.** While only accounts sign in to the admin app that had no role for it at
first, it stays on its login pages, has no handler under way and changes no document, whatever the
client apps do. -/
theorem outsiders_stay_out {users : Users} {accounts : List Account}
    {accepts : String → String → Bool} {currentUsers : ℕ → Option String} {es : List AppsEvent}
    (hlogins : ∀ k page uid, .admin (.login k page (some uid)) ∈ es → users.Outsider uid)
    {s : Apps} (hs : s = Machine.run Apps.step (Apps.start users accounts accepts currentUsers) es) :
    (∀ k, ∀ p ∈ (s.admin.sessions k).mounted, p.route.IsLogin) ∧ (∀ p, s.admin.jobs p = none) ∧
      ∀ e, (s.step (.admin e)).users = s.users := by
  have hstart : (Apps.start users accounts accepts currentUsers).Closed users.Outsider :=
    ⟨fun k => AdminApp.shut_start users k, fun _ => rfl, fun _ h => h⟩
  have hstep : ∀ s : Apps, ∀ e ∈ es, s.Closed users.Outsider →
      (s.step e).Closed users.Outsider := by
    intro s e hmem h
    cases e with
    | admin e =>
      refine h.step_admin fun k page uid he => hlogins k page uid ?_
      rw [← he]
      exact hmem
    | client i a => exact h.step_client i a
  have h : s.Closed users.Outsider := by
    rw [hs]
    exact Machine.run_invariant_of_mem _ hstep hstart
  exact ⟨fun k => (h.shut k).pages, h.jobs, fun e => congrArg Db.users (h.db_admin e)⟩

/-- Ann registers, signs in to the admin app and opens a user. -/
def annTries : List AppsEvent :=
  registering 0 "ann" "ann@mail.com" ++
    [.admin (.login 0 0 (some "ann")), .admin (.load 0 0), .admin (.openUser 0 0)]

theorem outsiders_stay_out_ann :
    ∃ p, ((Machine.run Apps.step adminAndGuests annTries).admin.sessions 0).top = some p ∧
      p.route.IsLogin := by
  have htop : ((Machine.run Apps.step adminAndGuests annTries).admin.sessions 0).top =
      some _ := rfl
  refine ⟨_, htop, (outsiders_stay_out (fun k page uid hmem doc role hdoc => ?_) rfl).1 0 _
    (Navigator.mem_mounted_of_top htop)⟩
  have hlogin : k = 0 ∧ page = 0 ∧ uid = "ann" := by
    simpa [annTries, registering] using hmem
  rw [hlogin.2.2] at hdoc
  cases hdoc

end FlutterThree
