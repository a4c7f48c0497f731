import FlutterThree.AdminApp

/-!
# Who can delete users

The delete button asks the role its page holds, and that role is the one `postLogin` read
(`AdminApp.holds_step`): it is copied from page to page and to the jobs begun on them, and nothing
refreshes it.

`deletion_authorised_at_login`: behind every deletion there is a login of the same session that found
its account to be an admin, and only a later write to that account's document can have changed this.

`managers_delete_no_user`: accounts that are not admins at first delete nobody, provided that no role
menu makes one of them an admin. The role menu is offered to managers too, so the proviso is needed.
-/

namespace FlutterThree

open Dart Firestore Flutter

/-- The stored role of an account. -/
def AdminApp.StoredRole (s : AdminApp) (uid role : String) : Prop :=
  ∃ doc, s.db.users.get uid = some doc ∧ doc.lookup "role" = some (.str role)

/-- Session `k` acts, or will act once a job goes on, for `user` in the role `role`. -/
def AdminApp.Holds (s : AdminApp) (k : ℕ) (user role : String) : Prop :=
  ActsFor (s.sessions k) user role ∨
    ∃ p j c, s.jobs p = some j ∧ j.choice = some c ∧ c.session = k ∧ c.user = user ∧ c.role = role

/-! ## Where roles come from -/

theorem Fields.lookup_of_asString {d : Fields} {k r : String}
    (h : (d.index k).asString = .ok r) : d.lookup k = some (.str r) := by
  unfold Fields.index at h
  cases hv : d.lookup k with
  | none =>
    rw [hv] at h
    cases h
  | some v =>
    rw [hv] at h
    cases v with
    | str s =>
      obtain rfl := Except.ok.inj h
      rfl
    | _ => cases h

/-- A role that the loop returns is the default, or that of a document with the account's id. -/
theorem adminChecker_cases {uid r : String} {docs : List (String × Fields)}
    (h : adminChecker uid docs = .ok r) :
    r = "user" ∨ ∃ d, (uid, d) ∈ docs ∧ d.lookup "role" = some (.str r) := by
  -- from any role found so far
  suffices hloop : ∀ role, docs.foldlM (fun role element =>
      if element.1 = uid then (element.2.index "role").asString else .ok role) role = .ok r →
      r = role ∨ ∃ d, (uid, d) ∈ docs ∧ d.lookup "role" = some (.str r) from hloop "user" h
  clear h
  induction docs with
  | nil =>
    intro role h
    exact .inl (Except.ok.inj h).symm
  | cons element docs ih =>
    intro role h
    rw [List.foldlM_cons, bind_eq_ok] at h
    obtain ⟨role', hrole', h⟩ := h
    rcases ih role' h with rfl | ⟨d, hd, hr⟩
    · split at hrole'
      · rename_i hid
        exact .inr ⟨element.2, hid ▸ List.mem_cons_self, Fields.lookup_of_asString hrole'⟩
      · exact .inl (Except.ok.inj hrole').symm
    · exact .inr ⟨d, List.mem_cons_of_mem element hd, hr⟩

theorem AdminApp.storedRole_of_adminChecker {s : AdminApp} {uid role : String}
    (h : adminChecker uid s.db.users.docs = .ok role) (hin : role = "admin" ∨ role = "manager") :
    s.StoredRole uid role := by
  rcases adminChecker_cases h with rfl | ⟨d, hd, hr⟩
  · exact absurd hin (by decide)
  · exact ⟨d, Collection.mem_docs.mp hd, hr⟩

theorem AdminApp.Holds.onSession {s : AdminApp} {k k' : ℕ}
    {f : Navigator AdminRoute → Navigator AdminRoute} {user role : String}
    (h : (s.onSession k f).Holds k' user role) :
    s.Holds k' user role ∨ k' = k ∧ ActsFor (f (s.sessions k)) user role := by
  rcases h with h | h
  · change ActsFor (Function.update s.sessions k _ k') user role at h
    by_cases hk : k' = k
    · subst hk
      rw [Function.update_self] at h
      exact .inr ⟨rfl, h⟩
    · rw [Function.update_of_ne hk] at h
      exact .inl (.inl h)
  · exact .inl (.inr h)

theorem AdminApp.Holds.quiet {s : AdminApp} {k k' : ℕ}
    {f : Navigator AdminRoute → Navigator AdminRoute} (hf : Quiet f) {user role : String}
    (h : (s.onSession k f).Holds k' user role) : s.Holds k' user role := by
  rcases h.onSession with h | ⟨rfl, h⟩
  · exact h
  · exact .inl (hf _ _ _ h)

theorem AdminApp.Holds.setJob {s : AdminApp} {p k : ℕ} {j : Option Job} {user role : String}
    (h : (s.setJob p j).Holds k user role) :
    s.Holds k user role ∨
      ∃ x c, j = some x ∧ x.choice = some c ∧ c.session = k ∧ c.user = user ∧ c.role = role := by
  rcases h with h | ⟨q, x, c, hx, hc⟩
  · exact .inl (.inl h)
  · rcases AdminApp.jobs_setJob hx with hx | ⟨-, hj⟩
    · exact .inl (.inr ⟨q, x, c, hx, hc⟩)
    · exact .inr ⟨x, c, hj, hc⟩

/-- A job that replaces one of the same choice holds nothing new. -/
theorem AdminApp.Holds.setJob_of_choice {s : AdminApp} {p k : ℕ} {y : Job} {c : RoleChoice}
    (hy : s.jobs p = some y) (hc : y.choice = some c) {j : Option Job}
    (hj : ∀ x, j = some x → x.choice = some c) {user role : String}
    (h : (s.setJob p j).Holds k user role) : s.Holds k user role := by
  rcases h.setJob with h | ⟨x, c', rfl, hx, hwho⟩
  · exact h
  · obtain rfl := Option.some.inj (hx.symm.trans (hj x rfl))
    exact .inr ⟨p, y, c', hy, hc, hwho⟩

theorem AdminApp.actsFor_of_tile {s : AdminApp} {k i : ℕ} {t : Tile} (h : s.tile k i = some t) :
    ActsFor (s.sessions k) t.user t.role := by
  obtain ⟨users, htop⟩ := top_of_tile h
  exact ⟨_, Navigator.mem_mounted_of_top htop, rfl⟩

/-- A role that a session holds after a step was held before, or was read by a login. -/
theorem AdminApp.holds_step {s : AdminApp} {e : AdminEvent} {k : ℕ} {user role : String}
    (h : (s.step e).Holds k user role) :
    s.Holds k user role ∨ (∃ page, e = .login k page (some user)) ∧ s.StoredRole user role := by
  have heffect := s.effect e
  generalize s.step e = s' at h heffect
  cases heffect with
  | keep => exact .inl h
  | navigate k' f hf => exact .inl (h.quiet hf)
  | login k' page uid role' he hrole hin =>
    rcases h.onSession with h | ⟨rfl, h⟩
    · exact .inl h
    · rcases actsFor_pushReplacement h with h | hc
      · exact .inl (.inl h)
      · obtain ⟨rfl, rfl⟩ := Prod.mk.inj (Option.some.inj hc)
        exact .inr ⟨⟨page, he⟩, storedRole_of_adminChecker hrole hin⟩
  | begin p j hj =>
    left
    rcases h.setJob with h | ⟨x, c, hx, hc, rfl, rfl, rfl⟩
    · exact h
    · obtain rfl := Option.some.inj hx
      cases hj with
      | chosen k' i newValue t he ht =>
        obtain rfl := Option.some.inj hc
        exact .inl (actsFor_of_tile ht)
      | pressed b => cases hc
      | deleting k' i t he ht hrole hself => cases hc
  | chosen p c j hc hj =>
    have hchoice : (Job.chosen c).choice = some c := rfl
    refine .inl (AdminApp.Holds.setJob_of_choice hc hchoice (fun x hx => ?_) h)
    rcases hj with rfl | rfl
    · cases hx
    · obtain rfl := Option.some.inj hx
      rfl
  | pressed p b texts f hf =>
    rcases (h.quiet hf).setJob with h | ⟨x, c, hx, -⟩
    · exact .inl h
    · cases hx
  | update p he => exact .inl h
  | writing p c j he hc hj =>
    have hchoice : (Job.writing c).choice = some c := rfl
    refine .inl (AdminApp.Holds.setJob_of_choice hc hchoice (fun x hx => ?_) h)
    rcases hj with rfl | rfl
    · cases hx
    · obtain rfl := Option.some.inj hx
      rfl
  | written p c hc =>
    left
    have hjob : ∀ {k user role}, (s.setJob p none).Holds k user role → s.Holds k user role :=
      fun h => by
        rcases h.setJob with h | ⟨x, c, hx, -⟩
        · exact h
        · cases hx
    rcases h.onSession with hold | ⟨rfl, hacts⟩
    · exact hjob hold
    · split at hacts
      · rcases actsFor_pushReplacement hacts with hold | hnew
        · exact .inl hold
        · -- the new page is for the account and the role the choice was made with
          obtain ⟨rfl, rfl⟩ := Prod.mk.inj (Option.some.inj hnew)
          exact .inr ⟨p, _, c, hc, rfl, rfl, rfl, rfl⟩
      · exact .inl hacts
  | delete p d he hd =>
    rcases h.setJob with h | ⟨x, c, hx, hc, -⟩
    · exact .inl h
    · obtain rfl := Option.some.inj hx
      cases hc
  | deleted p d f hf =>
    rcases (h.quiet hf).setJob with h | ⟨x, c, hx, -⟩
    · exact .inl h
    · cases hx

/-- A deletion is issued on a page that acts for an admin, and not for the account's own
document. -/
theorem AdminApp.deleting_step {s : AdminApp} {e : AdminEvent} {p : ℕ} {d : Deletion}
    (h : (s.step e).jobs p = some (.deleting d)) :
    s.jobs p = some (.deleting d) ∨ ActsFor (s.sessions d.session) d.user "admin" ∧ d.user ≠ d.id := by
  cases nextJob h with
  | keep j hj => exact .inl hj
  | begin j hj =>
    cases hj with
    | deleting k i t he ht hrole hself => exact .inr ⟨hrole ▸ actsFor_of_tile ht, hself⟩

/-! ## Deletions and the login behind them -/

/-- A deletion is issued for an account whose document says 'admin'. -/
def DeletionAuthorised (s : AdminApp) (e : AdminEvent) : Prop :=
  ∀ p d, s.jobs p = none → (s.step e).jobs p = some (.deleting d) → s.StoredRole d.user "admin"

/-- A write that takes the role 'admin' from the document of `uid`, or removes the document. -/
def Revokes (uid : String) (s : AdminApp) (e : AdminEvent) : Prop :=
  (∃ p w v, e = .update p ∧ s.db.writes p = some w ∧ w.uid = uid ∧
    w.data.lookup "role" = some v ∧ v ≠ .str "admin") ∨
  ∃ p d, e = .delete p ∧ s.jobs p = some (.deleting d) ∧ d.id = uid

/-- The role after an `update`: the one the map carries, if any. -/
theorem Db.lookup_role_step_update {s : Db} {p : ℕ} {w : Write} (hw : s.writes p = some w)
    {uid : String} {doc : Fields} (hdoc : s.users.get uid = some doc) :
    ∃ doc', (s.step (.update p)).users.get uid = some doc' ∧
      doc'.lookup "role" =
        if w.uid = uid then (w.data.lookup "role").or (doc.lookup "role")
        else doc.lookup "role" := by
  have husers : (s.step (.update p)).users = s.users.update w.uid (overwrite w.data) := by
    simp only [Db.step, hw]
  rw [husers, Collection.get_update]
  by_cases huid : uid = w.uid
  · subst huid
    rw [if_pos rfl, hdoc, if_pos rfl]
    exact ⟨_, rfl, lookup_overwrite w.data doc "role"⟩
  · rw [if_neg huid, if_neg fun h => huid h.symm]
    exact ⟨doc, hdoc, rfl⟩

theorem AdminApp.StoredRole.step {s : AdminApp} {uid : String} (h : s.StoredRole uid "admin")
    {e : AdminEvent} (hkeep : ¬ Revokes uid s e) : (s.step e).StoredRole uid "admin" := by
  obtain ⟨doc, hdoc, hrole⟩ := h
  unfold StoredRole
  rcases s.users_step e with husers | ⟨p, he, husers⟩ | ⟨p, d, he, hd, husers⟩
  · rw [husers]
    exact ⟨doc, hdoc, hrole⟩
  · rw [husers]
    cases hw : s.db.writes p with
    | none => exact ⟨doc, by simp only [Db.step, hw]; exact hdoc, hrole⟩
    | some w =>
      obtain ⟨doc', hdoc', hrole'⟩ := Db.lookup_role_step_update hw hdoc
      refine ⟨doc', hdoc', ?_⟩
      rw [hrole', hrole]
      split
      · rename_i huid
        cases hv : w.data.lookup "role" with
        | none => rfl
        | some v =>
          -- a map that carries another role would revoke this one
          by_contra hne
          refine hkeep (.inl ⟨p, w, v, he, hw, huid, hv, fun hadmin => hne ?_⟩)
          rw [hadmin]
          rfl
      · rfl
  · have hne : uid ≠ d.id := fun hid => hkeep (.inr ⟨p, d, he, hd, hid.symm⟩)
    refine ⟨doc, ?_, hrole⟩
    rw [husers, Collection.get_delete, if_neg hne]
    exact hdoc

theorem AdminApp.StoredRole.run {s : AdminApp} {uid : String} (h : s.StoredRole uid "admin")
    {es : List AdminEvent}
    (hkeep : Machine.Along AdminApp.step (fun s e => ¬ Revokes uid s e) s es) :
    (Machine.run AdminApp.step s es).StoredRole uid "admin" :=
  hkeep.invariant (fun s _ (h : AdminApp.StoredRole s uid "admin") hs => h.step hs) h

/-- A role that a session holds was read by one of its logins. -/
theorem AdminApp.exists_login {users : Users} {es : List AdminEvent} {k : ℕ} {user role : String}
    (h : (Machine.run AdminApp.step (AdminApp.start users) es).Holds k user role) :
    ∃ pre page post, es = pre ++ .login k page (some user) :: post ∧
      (Machine.run AdminApp.step (AdminApp.start users) pre).StoredRole user role := by
  have hstart : ¬ (AdminApp.start users).Holds k user role := by
    rintro (⟨p, hp, hc⟩ | ⟨p, j, c, hj, -⟩)
    · rw [Navigator.mem_mounted_home hp] at hc
      cases hc
    · cases hj
  obtain ⟨pre, e, post, rfl, ⟨page, rfl⟩, hrole⟩ :=
    Machine.exists_split_of_run (fun s : AdminApp => s.Holds k user role) (fun s e h => holds_step h) hstart h
  exact ⟨pre, page, post, rfl, hrole⟩

/-- **Deletions are authorised at login.** A deletion that is issued is not of the account's own
document. Its session logged in to that account when its document said 'admin', and the document
still says so unless a write since then has changed that. -/
theorem deletion_authorised_at_login {users : Users} {es : List AdminEvent} {p : ℕ} {d : Deletion}
    (h : (Machine.run AdminApp.step (AdminApp.start users) es).jobs p = some (.deleting d)) :
    d.user ≠ d.id ∧ ∃ pre page post, es = pre ++ .login d.session page (some d.user) :: post ∧
      (Machine.run AdminApp.step (AdminApp.start users) pre).StoredRole d.user "admin" ∧
      (Machine.Along AdminApp.step (fun s e => ¬ Revokes d.user s e)
          (Machine.run AdminApp.step (AdminApp.start users) pre)
          (.login d.session page (some d.user) :: post) →
        (Machine.run AdminApp.step (AdminApp.start users) es).StoredRole d.user "admin") := by
  have hstart : ¬ (AdminApp.start users).jobs p = some (.deleting d) := nofun
  obtain ⟨issued, e, rest, rfl, hacts, hself⟩ :=
    Machine.exists_split_of_run (fun s : AdminApp => s.jobs p = some (.deleting d))
      (fun s e h => AdminApp.deleting_step h) hstart h
  obtain ⟨pre, page, post, rfl, hrole⟩ := AdminApp.exists_login (.inl hacts)
  refine ⟨hself, pre, page, post ++ e :: rest, by simp, hrole, fun hkeep => ?_⟩
  have hend := hrole.run hkeep
  rw [← Machine.run_append] at hend
  simpa using hend

/-- Ann with the role 'admin', and Bob with the role of a client. -/
def annAndBob : Users :=
  Collection.set (Collection.set ∅ "ann" [("name", .str "Ann"), ("role", .str "admin"),
    ("NFT", .list [])]) "bob" (registerDoc "Bob")

/-- Ann deletes Bob. -/
theorem deletion_authorised_at_login_ann :
    "ann" ≠ "bob" ∧ ∃ pre page post,
      [AdminEvent.login 0 0 (some "ann"), .load 0 1, .pressDelete 0 0 0] =
        pre ++ .login 0 page (some "ann") :: post ∧
      (Machine.run AdminApp.step (AdminApp.start annAndBob) pre).StoredRole "ann" "admin" := by
  have hissued : (Machine.run AdminApp.step (AdminApp.start annAndBob)
      [.login 0 0 (some "ann"), .load 0 1, .pressDelete 0 0 0]).jobs 0 =
        some (.deleting ⟨0, 1, "ann", "bob"⟩) := rfl
  obtain ⟨hself, pre, page, post, hsplit, hrole, -⟩ := deletion_authorised_at_login hissued
  exact ⟨hself, pre, page, post, hsplit, hrole⟩

/-- Ann makes herself a client in the role menu. The page is replaced by one with her former role,
and she deletes Bob on it. -/
def demotedDelete : List AdminEvent :=
  [.login 0 0 (some "ann"), .load 0 1, .chooseRole 0 0 1 .user, .get 0 ⟨"", "", ""⟩, .update 0,
    .replace 0, .load 0 2, .pressDelete 0 1 1]

theorem demotedDelete_not_authorised :
    ¬ Machine.Along AdminApp.step DeletionAuthorised (AdminApp.start annAndBob) demotedDelete := by
  intro h
  obtain ⟨-, -, -, -, -, -, -, hlast, -⟩ := h
  obtain ⟨doc, hdoc, hrole⟩ := hlast 1 ⟨0, 2, "ann", "bob"⟩ rfl rfl
  obtain rfl := Option.some.inj hdoc
  exact absurd (Value.str.inj (Option.some.inj hrole)) (by decide)

/-! ## Managers -/

/-- The step deletes no user document. -/
def NoUserDeleted (s : AdminApp) (e : AdminEvent) : Prop :=
  ∀ uid, (s.db.users.get uid).isSome → ((s.step e).db.users.get uid).isSome

/-- The account signs in during the run. -/
def SignsIn (es : List AdminEvent) (uid : String) : Prop :=
  ∃ k page, AdminEvent.login k page (some uid) ∈ es

/-- No item 'admin' is chosen in the role menu of an account that signs in afterwards. -/
def NotPromoted (s : AdminApp) (es : List AdminEvent) : Prop :=
  ∀ pre k p i post t, es = pre ++ .chooseRole k p i .admin :: post →
    (Machine.run AdminApp.step s pre).tile k i = some t → ¬ SignsIn post t.item.id

/-- No account in `S` has the role 'admin', nor is about to get it, and no session acts in that
role. -/
structure AdminApp.Powerless (S : String → Prop) (s : AdminApp) : Prop where
  stored : ∀ uid, S uid → ¬ s.StoredRole uid "admin"
  carried : ∀ p w, s.db.writes p = some w → S w.uid →
    w.data.lookup "role" ≠ some (.str "admin")
  chosen : ∀ p c, s.jobs p = some (.chosen c) → c.newValue = .admin → ¬ S c.id
  held : ∀ k user, ¬ s.Holds k user "admin"
  deleting : ∀ p d, s.jobs p ≠ some (.deleting d)

theorem AdminApp.Powerless.start {S : String → Prop} {users : Users}
    (h : ∀ uid, S uid → ¬ (AdminApp.start users).StoredRole uid "admin") :
    (AdminApp.start users).Powerless S where
  stored := h
  carried := nofun
  chosen := nofun
  held k user := by
    rintro (⟨p, hp, hc⟩ | ⟨p, j, c, hj, -⟩)
    · rw [Navigator.mem_mounted_home hp] at hc
      cases hc
    · cases hj
  deleting := nofun

/-- A handler whose document does not say 'admin' writes no 'admin', unless it is that choice. -/
theorem Handler.role_ne_admin {h : Handler} (hr : h.roleChoice ≠ some .admin) {d data : Fields}
    (hok : h.onPressed (some d) = .ok data) (hd : d.lookup "role" ≠ some (.str "admin")) :
    data.lookup "role" ≠ some (.str "admin") := by
  cases hc : h.roleChoice with
  | none =>
    rw [h.lookup_of_ok hok (show "role" ≠ "NFT" by decide) fun hne => absurd hc hne]
    exact hd
  | some r =>
    obtain rfl := h.data_of_roleChoice hc hok
    rw [Fields.lookup_put_self]
    intro hadmin
    cases r with
    | admin => exact hr hc
    | manager => exact absurd (Value.str.inj (Option.some.inj hadmin)) (by decide)
    | user => exact absurd (Value.str.inj (Option.some.inj hadmin)) (by decide)

theorem NftButton.roleChoice_handler (button : NftButton) (texts : NftArt) :
    (button.handler texts).roleChoice = none := by
  cases button <;> rfl

/-- A handler that a job resumes is a role choice, or one of an NFT page. -/
theorem AdminApp.Sends.get_cases {s : AdminApp} {e : AdminEvent} {p : ℕ} {uid : String}
    {hd : Handler} (h : s.Sends e (.get p uid hd)) :
    (∃ c, s.jobs p = some (.chosen c) ∧ uid = c.id ∧ hd = .chooseRole c.newValue) ∨
      hd.roleChoice = none := by
  cases h with
  | chosen p c hc => exact .inl ⟨c, hc, rfl, rfl⟩
  | pressed p uid button texts => exact .inr (button.roleChoice_handler texts)

/-- What a job sends is no promotion of an account in `S`. -/
theorem AdminApp.Powerless.sends_get {S : String → Prop} {s : AdminApp} (h : s.Powerless S)
    {e : AdminEvent} {p : ℕ} {uid : String} {hd : Handler} (hsends : s.Sends e (.get p uid hd))
    (huid : S uid) : hd.roleChoice ≠ some .admin := by
  intro hadmin
  rcases hsends.get_cases with ⟨c, hc, rfl, rfl⟩ | hnone
  · exact h.chosen p c hc (Option.some.inj hadmin) huid
  · cases hnone.symm.trans hadmin

/-- A step, where the accounts in `S'` are those in `S` that sign in later. -/
theorem AdminApp.Powerless.step {S S' : String → Prop} (hsub : ∀ uid, S' uid → S uid)
    {s : AdminApp} (h : s.Powerless S) {e : AdminEvent}
    (hlogin : ∀ k page uid, e = .login k page (some uid) → S uid)
    (hmenu : ∀ k p i t, e = .chooseRole k p i .admin → s.tile k i = some t → ¬ S' t.item.id) :
    (s.step e).Powerless S' where
  stored uid hlater := by
    rintro ⟨doc, hdoc, hrole⟩
    have huid := hsub uid hlater
    have hold := h.stored uid huid
    rcases s.users_step e with husers | ⟨p, he, husers⟩ | ⟨p, d, he, hd, husers⟩
    · rw [husers] at hdoc
      exact hold ⟨doc, hdoc, hrole⟩
    · rw [husers] at hdoc
      cases hw : s.db.writes p with
      | none =>
        simp only [Db.step, hw] at hdoc
        exact hold ⟨doc, hdoc, hrole⟩
      | some w =>
        obtain ⟨doc₀, hdoc₀⟩ : ∃ doc₀, s.db.users.get uid = some doc₀ := by
          rw [← Option.isSome_iff_exists, ← Db.isSome_step_update s.db p, hdoc]
          rfl
        obtain ⟨doc', hdoc', hrole'⟩ := Db.lookup_role_step_update hw hdoc₀
        obtain rfl := Option.some.inj (hdoc.symm.trans hdoc')
        rw [hrole'] at hrole
        -- an 'admin' now was in the map or in the document before
        split at hrole
        · rename_i hid
          rcases Option.or_eq_some_iff.mp hrole with hw' | ⟨-, hold'⟩
          · exact h.carried p w hw (hid ▸ huid) hw'
          · exact hold ⟨doc₀, hdoc₀, hold'⟩
        · exact hold ⟨doc₀, hdoc₀, hrole⟩
    · exact h.deleting p d hd
  carried p w hw hlater := by
    have huid := hsub w.uid hlater
    rcases s.db_step e with hdb | ⟨e', hsends, hdb⟩
    · rw [hdb] at hw
      exact h.carried p w hw huid
    · rw [hdb] at hw
      rcases Db.writes_step hw with hold | ⟨-, rfl, hseen⟩
      · exact h.carried p w hold huid
      · obtain ⟨seen, hs, hok⟩ := w.exists_seen
        refine w.handler.role_ne_admin (h.sends_get hsends huid) hok fun hadmin => ?_
        exact h.stored w.uid huid ⟨seen, hseen.symm.trans hs, hadmin⟩
  chosen p c hc hadmin := by
    cases nextJob hc with
    | keep j hj => exact fun hlater => h.chosen p c hj hadmin (hsub c.id hlater)
    | begin j hj =>
      cases hj with
      | chosen k i newValue t he ht =>
        refine hmenu k p i t ?_ ht
        rw [he]
        exact congrArg _ hadmin
  held k user hholds := by
    rcases holds_step hholds with hold | ⟨⟨page, he⟩, hrole⟩
    · exact h.held k user hold
    · exact h.stored user (hlogin k page user he) hrole
  deleting p d hd := by
    rcases deleting_step hd with hold | ⟨hacts, -⟩
    · exact h.deleting p d hold
    · exact h.held d.session d.user (.inl hacts)

theorem AdminApp.Powerless.noUserDeleted {S : String → Prop} {s : AdminApp} (h : s.Powerless S)
    (e : AdminEvent) : NoUserDeleted s e := by
  intro uid hsome
  rcases s.users_step e with husers | ⟨p, -, husers⟩ | ⟨p, d, -, hd, -⟩
  · rw [husers]
    exact hsome
  · rw [husers, Db.isSome_step_update]
    exact hsome
  · exact absurd hd (h.deleting p d)

/-- Over a run the accounts to look at are those that are still to sign in. -/
theorem AdminApp.Powerless.along {s : AdminApp} {es : List AdminEvent} (h : s.Powerless (SignsIn es))
    (hmenu : NotPromoted s es) : Machine.Along AdminApp.step NoUserDeleted s es := by
  induction es generalizing s with
  | nil => trivial
  | cons e es ih =>
    have hsub : ∀ uid, SignsIn es uid → SignsIn (e :: es) uid := fun uid ⟨k, page, hmem⟩ =>
      ⟨k, page, List.mem_cons_of_mem e hmem⟩
    have hstep : (s.step e).Powerless (SignsIn es) := by
      refine Powerless.step hsub h (fun k page uid he => ⟨k, page, he ▸ List.mem_cons_self⟩)
        fun k p i t he ht => ?_
      subst he
      exact hmenu [] k p i es t rfl ht
    refine ⟨h.noUserDeleted e, ih hstep fun pre k p i post t heq ht => ?_⟩
    subst heq
    exact hmenu (e :: pre) k p i post t rfl ht

/-- **Managers delete no user**, when no role menu makes an account an admin that signs in
afterwards. -/
theorem managers_delete_no_user {users : Users} {es : List AdminEvent}
    (hroles : ∀ uid, SignsIn es uid → ∃ doc, users.get uid = some doc ∧
      (doc.lookup "role" = some (.str "manager") ∨ doc.lookup "role" = some (.str "user")))
    (hmenu : NotPromoted (AdminApp.start users) es) :
    Machine.Along AdminApp.step NoUserDeleted (AdminApp.start users) es := by
  refine AdminApp.Powerless.along (.start fun uid huid => ?_) hmenu
  rintro ⟨doc, hdoc, hrole⟩
  obtain ⟨doc', hdoc', hrole'⟩ := hroles uid huid
  obtain rfl := Option.some.inj (hdoc.symm.trans hdoc')
  rcases hrole' with hrole' | hrole'
  · exact absurd (Value.str.inj (Option.some.inj (hrole.symm.trans hrole'))) (by decide)
  · exact absurd (Value.str.inj (Option.some.inj (hrole.symm.trans hrole'))) (by decide)

/-- Bob with the role 'manager', and a client Ann. -/
def managerBob : Users :=
  Collection.set (Collection.set ∅ "ann" (registerDoc "Ann")) "bob"
    [("name", .str "Bob"), ("role", .str "manager"), ("NFT", .list [])]

/-- Bob makes himself an admin, adds an entry to Ann's wallet, and presses for a delete button that is
not there: his page goes on with the role of his login. -/
def promotedLater : List AdminEvent :=
  [.login 0 0 (some "bob"), .load 0 1, .chooseRole 0 0 0 .admin, .get 0 ⟨"", "", ""⟩, .update 0,
    .replace 0, .load 0 2, .openUser 0 1, .openAdd 0, .pressAdd 0 0, .get 0 ⟨"a", "i", "d"⟩,
    .update 0, .arrow 0, .pressDelete 0 1 1, .delete 1]

theorem managers_delete_no_user_bob :
    Machine.Along AdminApp.step NoUserDeleted (AdminApp.start managerBob) promotedLater := by
  refine managers_delete_no_user (fun uid huid => ?_) ?_
  · obtain ⟨k, page, hmem⟩ := huid
    simp only [promotedLater, List.mem_cons, reduceCtorEq, List.not_mem_nil, or_false,
      AdminEvent.login.injEq, Option.some.injEq] at hmem
    obtain ⟨-, -, rfl⟩ := hmem
    exact ⟨_, rfl, .inl rfl⟩
  · rintro pre k p i post t heq - ⟨k', page, hmem⟩
    -- his only login comes before the choice
    have hlogin : AdminEvent.login k' page (some t.item.id) ∈ promotedLater.tail := by
      rw [heq]
      cases pre with
      | nil => exact hmem
      | cons e pre => exact List.mem_append_right _ (List.mem_cons_of_mem _ hmem)
    simp [promotedLater] at hlogin

/-- Bob makes himself an admin in the role menu, logs in again and deletes Ann. -/
def promotedDelete : List AdminEvent :=
  [.login 0 0 (some "bob"), .load 0 1, .chooseRole 0 0 0 .admin, .get 0 ⟨"", "", ""⟩, .update 0,
    .logout 0, .login 0 2 (some "bob"), .load 0 3, .pressDelete 0 1 1, .delete 1]

theorem promotedDelete_deletes :
    (∀ uid, SignsIn promotedDelete uid → ∃ doc, managerBob.get uid = some doc ∧
      (doc.lookup "role" = some (.str "manager") ∨ doc.lookup "role" = some (.str "user"))) ∧
    ¬ Machine.Along AdminApp.step NoUserDeleted (AdminApp.start managerBob) promotedDelete := by
  refine ⟨fun uid huid => ?_, fun h => ?_⟩
  · obtain ⟨k, page, hmem⟩ := huid
    have hbob : uid = "bob" := by
      simp only [promotedDelete, List.mem_cons, reduceCtorEq, List.not_mem_nil, or_false, false_or,
        AdminEvent.login.injEq, Option.some.injEq] at hmem
      rcases hmem with ⟨-, -, rfl⟩ | ⟨-, -, rfl⟩
      · rfl
      · rfl
    subst hbob
    exact ⟨_, rfl, .inl rfl⟩
  · obtain ⟨-, -, -, -, -, -, -, -, -, hlast, -⟩ := h
    have hann := hlast "ann" rfl
    exact absurd hann (by decide)

end FlutterThree
