import FlutterThree.Accounts
import FlutterThree.Privileges

/-!
# Where privileges come from

A registration gives the role 'user', and the client app writes no other. A role is given by a
choice in the menu of a `MainPage`, which takes effect some time later, and once it is in a
document, handlers that have read it write it back with the rest.

`privileges_have_authors`: still, an account that says 'admin' or 'manager' and did not at first
was chosen for that on a page of an account that did when it signed in.
-/

namespace FlutterThree

open Dart Firestore Flutter

/-! ## The role in a document -/

/-- The document of `uid` has the role, or a handler is about to write it there. -/
def Db.HasRole (s : Db) (uid role : String) : Prop :=
  (∃ doc, s.users.get uid = some doc ∧ doc.lookup "role" = some (.str role)) ∨
    ∃ p w, s.writes p = some w ∧ w.uid = uid ∧ w.data.lookup "role" = some (.str role)

section

variable {s : Db} {e : Event} {uid role : String}

theorem Db.HasRole.of_doc {doc : Fields} (hdoc : s.users.get uid = some doc)
    (hrole : doc.lookup "role" = some (.str role)) : s.HasRole uid role := .inl ⟨doc, hdoc, hrole⟩

/-- The role in the document after a step. -/
theorem Db.hasRole_of_doc_step {doc : Fields} (hdoc : (s.step e).users.get uid = some doc)
    (hrole : doc.lookup "role" = some (.str role)) :
    s.HasRole uid role ∨ (∃ name, e = .register uid name) ∧ role = "user" := by
  have hstep := s.docStep e uid
  rw [hdoc] at hstep
  generalize (s.step e).log = log at hstep
  generalize hres : some doc = res at hstep
  cases hstep with
  | keep => exact .inl (.of_doc hres.symm hrole)
  | other c hc => exact .inl (.of_doc hres.symm hrole)
  | update p w doc' he hw huid hdoc' =>
    obtain rfl := Option.some.inj hres
    rw [lookup_overwrite] at hrole
    cases hdata : w.data.lookup "role" with
    | none =>
      rw [hdata] at hrole
      exact .inl (.of_doc hdoc' hrole)
    | some v =>
      rw [hdata] at hrole
      exact .inl (.inr ⟨p, w, hw, huid, hdata.trans hrole⟩)
  | upload nft doc' he hdoc' =>
    obtain rfl := Option.some.inj hres
    rw [lookup_postNFT nft doc' (by decide)] at hrole
    exact .inl (.of_doc hdoc' hrole)
  | register name he =>
    obtain rfl := Option.some.inj hres
    obtain rfl : "user" = role := Value.str.inj (Option.some.inj hrole)
    exact .inr ⟨⟨name, he⟩, rfl⟩
  | delete he => cases hres

/-- A role that a document or a pending write has after a step was there before, or was chosen, or
comes with a registration. -/
theorem Db.hasRole_step (h : (s.step e).HasRole uid role) :
    s.HasRole uid role ∨ (∃ p r, e = .get p uid (.chooseRole r) ∧ r.value = role) ∨
      (∃ name, e = .register uid name) ∧ role = "user" := by
  rcases h with ⟨doc, hdoc, hrole⟩ | ⟨p, w, hw, rfl, hrole⟩
  · exact (Db.hasRole_of_doc_step hdoc hrole).imp_right .inr
  · rcases Db.writes_step hw with hold | ⟨-, he, hseen⟩
    · exact .inl (.inr ⟨p, w, hold, rfl, hrole⟩)
    · obtain ⟨d, hd, hok⟩ := w.exists_seen
      cases hchoice : w.handler.roleChoice with
      | none =>
        -- an NFT handler leaves the role it has read
        have hsame := w.handler.lookup_of_ok (k := "role") hok (by decide)
          fun hne => absurd hchoice hne
        rw [hsame] at hrole
        exact .inl (.of_doc (hseen.symm.trans hd) hrole)
      | some r =>
        have hdata := w.handler.data_of_roleChoice hchoice hok
        rw [hdata, Fields.lookup_put_self] at hrole
        have hhandler : w.handler = .chooseRole r := by
          cases hw' : w.handler with
          | chooseRole r' =>
            rw [hw'] at hchoice
            rw [Option.some.inj hchoice]
          | _ =>
            rw [hw'] at hchoice
            cases hchoice
        rw [hhandler] at he
        exact .inr (.inl ⟨p, r, he, Value.str.inj (Option.some.inj hrole)⟩)

end

/-! ## The choice -/

/-- The step is the answer to the `get` of a choice of the role for `uid`. -/
def Apps.Chooses (s : Apps) (e : AppsEvent) (uid role : String) (c : RoleChoice) : Prop :=
  ∃ p texts, e = .admin (.get p texts) ∧ s.admin.jobs p = some (.chosen c) ∧ c.id = uid ∧
    c.newValue.value = role

/-- The step is the choice itself, on a tile of the page on top. -/
def Apps.Picks (s : Apps) (e : AppsEvent) (c : RoleChoice) : Prop :=
  ∃ p i t, e = .admin (.chooseRole c.session p i c.newValue) ∧
    s.admin.tile c.session i = some t ∧
    c = ⟨c.session, t.page, t.user, t.role, t.item.id, c.newValue⟩

section

variable {s : Apps} {e : AppsEvent} {uid role : String}

theorem Apps.chooses_of_sent {p : ℕ} {r : RoleItem}
    (hsent : s.sent e = some (.get p uid (.chooseRole r))) : ∃ c, s.Chooses e uid r.value c := by
  cases e with
  | client i a =>
    rcases Client.sent_cases hsent with ⟨_, _, h⟩ | ⟨_, _, h⟩ <;> cases h
  | admin e =>
    cases e with
    | get q texts =>
      simp only [Apps.sent, AdminApp.sent] at hsent
      split at hsent
      · rename_i c hc
        obtain ⟨-, hid, hhandler⟩ := Event.get.inj (Option.some.inj hsent)
        exact ⟨c, q, texts, rfl, hc, hid, congrArg RoleItem.value (Handler.chooseRole.inj hhandler)⟩
      · rename_i b hb
        obtain ⟨-, -, hhandler⟩ := Event.get.inj (Option.some.inj hsent)
        cases hbutton : b.button with
        | _ =>
          rw [hbutton] at hhandler
          cases hhandler
      · cases hsent
    | delete q =>
      simp only [Apps.sent, AdminApp.sent] at hsent
      split at hsent <;> cases hsent
    | _ => cases hsent

theorem Apps.hasRole_step (h : (s.step e).admin.db.HasRole uid role) (hrole : role ≠ "user") :
    s.admin.db.HasRole uid role ∨ ∃ c, s.Chooses e uid role c := by
  rw [s.db_step e] at h
  cases hsent : s.sent e with
  | none =>
    rw [hsent] at h
    exact .inl h
  | some e' =>
    rw [hsent] at h
    have h' : (s.admin.db.step e').HasRole uid role := h
    rcases Db.hasRole_step h' with hold | ⟨p, r, rfl, rfl⟩ | ⟨-, huser⟩
    · exact .inl hold
    · exact .inr (Apps.chooses_of_sent hsent)
    · exact absurd huser hrole

/-- A role that a session holds was held before, or a login has read it, which lets in only two. -/
theorem AdminApp.holds_step_privileged {s : AdminApp} {e : AdminEvent} {k : ℕ} {user role : String}
    (h : (s.step e).Holds k user role) :
    s.Holds k user role ∨ (∃ page, e = .login k page (some user)) ∧ s.StoredRole user role ∧
      (role = "admin" ∨ role = "manager") := by
  rcases AdminApp.holds_step h with hold | ⟨⟨page, rfl⟩, hstored⟩
  · exact .inl hold
  · by_cases hin : role = "admin" ∨ role = "manager"
    · exact .inr ⟨⟨page, rfl⟩, hstored, hin⟩
    · left
      simp only [AdminApp.step] at h
      split at h
      · rcases h.onSession with hold | ⟨-, hacts⟩
        · exact hold
        · rcases postLogin_cases page (some user) s.db.users.docs with hquiet |
            ⟨uid, role', -, -, hin', hmain⟩
          · exact .inl (hquiet _ _ _ hacts)
          · rw [hmain] at hacts
            rcases actsFor_pushReplacement hacts with hold | hc
            · exact .inl hold
            · obtain ⟨-, rfl⟩ := Prod.mk.inj (Option.some.inj hc)
              exact absurd hin' hin
      · exact h

end

section

variable {users : Users} {accounts : List Account} {accepts : String → String → Bool}
  {currentUsers : ℕ → Option String}

/-- A role that a session holds was read by one of its logins. -/
theorem Apps.exists_login {es : List AppsEvent} {k : ℕ} {user role : String}
    (h : (Machine.run Apps.step (Apps.start users accounts accepts currentUsers) es).admin.Holds k
      user role) :
    ∃ pre page post, es = pre ++ .admin (.login k page (some user)) :: post ∧
      (Machine.run Apps.step (Apps.start users accounts accepts currentUsers)
        pre).admin.StoredRole user role ∧ (role = "admin" ∨ role = "manager") := by
  have hstart : ¬ (Apps.start users accounts accepts currentUsers).admin.Holds k user role := by
    rintro (⟨p, hp, hc⟩ | ⟨p, j, c, hj, -⟩)
    · rw [Navigator.mem_mounted_home hp] at hc
      cases hc
    · cases hj
  have hstep : ∀ (s : Apps) e, (s.step e).admin.Holds k user role → s.admin.Holds k user role ∨
      (∃ page, e = .admin (.login k page (some user))) ∧ s.admin.StoredRole user role ∧
        (role = "admin" ∨ role = "manager") := by
    intro s e h
    cases e with
    | admin e =>
      rcases AdminApp.holds_step_privileged h with hold | ⟨⟨page, rfl⟩, hnew⟩
      · exact .inl hold
      · exact .inr ⟨⟨page, rfl⟩, hnew⟩
    | client i a => exact .inl h
  obtain ⟨pre, e, post, rfl, ⟨page, rfl⟩, hstored, hin⟩ :=
    Machine.exists_split_of_run (fun s : Apps => s.admin.Holds k user role) hstep hstart h
  exact ⟨pre, page, post, rfl, hstored, hin⟩

/-- A choice that waits for its `get` was made before. -/
theorem Apps.exists_picks {es : List AppsEvent} {p : ℕ} {c : RoleChoice}
    (h : (Machine.run Apps.step (Apps.start users accounts accepts currentUsers) es).admin.jobs p =
      some (.chosen c)) :
    ∃ pre e post, es = pre ++ e :: post ∧
      (Machine.run Apps.step (Apps.start users accounts accepts currentUsers) pre).Picks e c := by
  have hstep : ∀ (s : Apps) e, (s.step e).admin.jobs p = some (.chosen c) →
      s.admin.jobs p = some (.chosen c) ∨ s.Picks e c := by
    intro s e h
    cases e with
    | client i a => exact .inl h
    | admin e =>
      cases AdminApp.nextJob h with
      | keep j hj => exact .inl hj
      | begin j hj =>
        cases hj with
        | chosen k i newValue t he ht => exact .inr ⟨p, i, t, congrArg _ he, ht, rfl⟩
  exact Machine.exists_split_of_run (fun s : Apps => s.admin.jobs p = some (.chosen c)) hstep
    (fun h => by cases h) h

/-- The page of a choice acts for its account. -/
theorem Apps.Picks.holds {s : Apps} {e : AppsEvent} {c : RoleChoice} (h : s.Picks e c) :
    s.admin.Holds c.session c.user c.role := by
  obtain ⟨p, i, t, -, ht, hc⟩ := h
  obtain ⟨users, htop⟩ := AdminApp.top_of_tile ht
  rw [hc]
  exact .inl ⟨_, Navigator.mem_mounted_of_top htop, rfl⟩

/-- **Privileges have authors.** An account that says 'admin' or 'manager' and did not at first was
chosen for it in the role menu, by a session that had signed in an account which said 'admin' or
'manager' then. -/
theorem privileges_have_authors {es : List AppsEvent} {s : Apps}
    (hs : s = Machine.run Apps.step (Apps.start users accounts accepts currentUsers) es)
    {uid role : String} (hrole : role = "admin" ∨ role = "manager")
    (hstored : s.admin.StoredRole uid role)
    (hnew : ∀ doc, users.get uid = some doc → doc.lookup "role" ≠ some (.str role)) :
    ∃ pre page mid e mid' e' post c before before',
      before = pre ++ .admin (.login c.session page (some c.user)) :: mid ∧
      before' = before ++ e :: mid' ∧ es = before' ++ e' :: post ∧
      (Machine.run Apps.step (Apps.start users accounts accepts currentUsers)
        pre).admin.StoredRole c.user c.role ∧ (c.role = "admin" ∨ c.role = "manager") ∧
      (Machine.run Apps.step (Apps.start users accounts accepts currentUsers) before).Picks e c ∧
      (Machine.run Apps.step (Apps.start users accounts accepts currentUsers) before').Chooses e' uid
        role c := by
  have huser : role ≠ "user" := by
    rintro rfl
    exact absurd hrole (by decide)
  have hstart : ¬ (Apps.start users accounts accepts currentUsers).admin.db.HasRole uid role := by
    rintro (⟨doc, hdoc, h⟩ | ⟨p, w, hw, -⟩)
    · exact hnew doc hdoc h
    · cases hw
  rw [hs] at hstored
  -- backwards: the answer to its `get`, the choice, and the login
  obtain ⟨before', e', post, hes, c, hchooses⟩ := Machine.exists_split_of_run
    (fun s : Apps => s.admin.db.HasRole uid role) (fun s e h => Apps.hasRole_step h huser) hstart
    (.inl hstored)
  obtain ⟨p, texts, -, hjob, -⟩ := id hchooses
  obtain ⟨before, e, mid', hbefore', hpicks⟩ := Apps.exists_picks hjob
  obtain ⟨pre, page, mid, hbefore, hlogin, hin⟩ := Apps.exists_login hpicks.holds
  exact ⟨pre, page, mid, e, mid', e', post, c, before, before', hbefore, hbefore', hes, hlogin, hin,
    hpicks, hchooses⟩

end

/-- Ann registers, and the admin makes her a manager. -/
def annIsChosen : List AppsEvent :=
  registering 0 "ann" "ann@mail.com" ++
    [.admin (.login 0 0 (some "root")), .admin (.load 0 1), .admin (.chooseRole 0 0 0 .manager),
      .admin (.get 0 ⟨"", "", ""⟩), .admin (.update 0)]

theorem privileges_have_authors_ann :
    ∃ pre page mid e mid' e' post c before before',
      before = pre ++ .admin (.login c.session page (some c.user)) :: mid ∧
      before' = before ++ e :: mid' ∧ annIsChosen = before' ++ e' :: post ∧
      (Machine.run Apps.step adminAndGuests pre).admin.StoredRole c.user c.role ∧
      (c.role = "admin" ∨ c.role = "manager") ∧
      (Machine.run Apps.step adminAndGuests before).Picks e c ∧
      (Machine.run Apps.step adminAndGuests before').Chooses e' "ann" "manager" c :=
  privileges_have_authors rfl (.inr rfl)
    ⟨[("role", .str "manager"), ("name", .str ""), ("NFT", .list [])], rfl, rfl⟩
    fun _ hdoc => by cases hdoc

end FlutterThree
