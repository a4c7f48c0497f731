import FlutterThree.Privileges

/-!
# What a deletion leaves behind

`deleted_user_stays_deleted`: nothing but a registration brings a document into being. A handler that
had read the document before it was deleted sends its `update` to an absent document, and that fails.

`admin_remains`: the delete button refuses the account's own document and asks nothing else. As long
as the account behind each deletion still has its document, that document is one the deletion
leaves; two admins who delete each other leave none.
-/

namespace FlutterThree

open Dart Firestore Flutter

/-! ## Late writes -/

/-- The step sends a write to the document of `uid`. -/
def Event.WritesDoc (uid : String) (s : Db) : Event → Prop
  | .update p => ∃ w, s.writes p = some w ∧ w.uid = uid
  | .upload u _ => u = uid
  | _ => False

/-- The write of the step fails: it changes no document and is not in the history. -/
structure Db.Fails (s : Db) (e : Event) : Prop where
  users : (s.step e).users = s.users
  log : (s.step e).log = s.log

theorem Db.committed_of_none {s : Db} {uid : String} (h : s.users.get uid = none) (op : Op) :
    s.committed uid op = [] := by
  rw [committed, h]
  rfl

/-- A write to an absent document fails. -/
theorem Db.fails_of_none {s : Db} {uid : String} (h : s.users.get uid = none) {e : Event}
    (he : e.WritesDoc uid s) : s.Fails e := by
  cases e with
  | update p =>
    obtain ⟨w, hw, rfl⟩ := he
    refine ⟨?_, ?_⟩
    · simp only [step, hw, Collection.update_of_none h]
    · simp only [step, hw, committed_of_none h, List.append_nil]
  | upload u nft =>
    obtain rfl : u = uid := he
    refine ⟨Collection.update_of_none h _, ?_⟩
    simp only [step, committed_of_none h, List.append_nil]
  | get p u hd => exact absurd he id
  | register u name => exact absurd he id
  | deleteUser u => exact absurd he id

/-- Only a registration makes an absent document exist. -/
theorem Db.get_step_of_none {s : Db} {uid : String} (h : s.users.get uid = none) {e : Event}
    (he : ∀ name, e ≠ .register uid name) : (s.step e).users.get uid = none := by
  have hstep := s.docStep e uid
  generalize (s.step e).users.get uid = after at hstep
  generalize (s.step e).log = log at hstep
  cases hstep with
  | keep => exact h
  | other c hc => exact h
  | update p w doc he' hw huid hdoc => exact absurd (hdoc.symm.trans h) (by simp)
  | upload nft doc he' hdoc => exact absurd (hdoc.symm.trans h) (by simp)
  | register name he' => exact absurd he' (he name)
  | delete he' => rfl

/-- **A deleted user stays deleted**, and every later write to the document fails. -/
theorem deleted_user_stays_deleted {users : Users} {pre post : List Event} {uid : String}
    (hpost : ∀ name, Event.register uid name ∉ post) :
    (Machine.run Db.step (Db.start users) (pre ++ .deleteUser uid :: post)).users.get uid = none ∧
      ∀ e : Event,
        e.WritesDoc uid (Machine.run Db.step (Db.start users) (pre ++ .deleteUser uid :: post)) →
        (Machine.run Db.step (Db.start users) (pre ++ .deleteUser uid :: post)).Fails e := by
  have hdeleted : ((Machine.run Db.step (Db.start users) pre).step (.deleteUser uid)).users.get uid =
      none := by
    change ((Machine.run Db.step (Db.start users) pre).users.delete uid).get uid = none
    rw [Collection.get_delete, if_pos rfl]
  have hend : (Machine.run Db.step (Db.start users)
      (pre ++ .deleteUser uid :: post)).users.get uid = none := by
    have hstep : ∀ s : Db, ∀ e ∈ post, s.users.get uid = none →
        (s.step e).users.get uid = none := fun s e he h =>
      Db.get_step_of_none h fun name heq => hpost name (heq ▸ he)
    rw [Machine.run_append, Machine.run_cons]
    exact Machine.run_invariant_of_mem Db.step hstep hdeleted
  exact ⟨hend, fun e he => Db.fails_of_none hend he⟩

/-- Bob's document is read by an Add, deleted, and written to by an upload and by the Add. -/
theorem deleted_user_stays_deleted_bob :
    (Machine.run Db.step (Db.start annAndBob)
        ([.get 0 "bob" (.addNft ⟨"a", "i", "d"⟩)] ++ .deleteUser "bob" ::
          [.upload "bob" ⟨"b", "i", "d"⟩])).users.get "bob" = none ∧
      (Machine.run Db.step (Db.start annAndBob)
        ([.get 0 "bob" (.addNft ⟨"a", "i", "d"⟩)] ++ .deleteUser "bob" ::
          [.upload "bob" ⟨"b", "i", "d"⟩])).Fails (.update 0) := by
  obtain ⟨hnone, hlate⟩ := @deleted_user_stays_deleted annAndBob
    [.get 0 "bob" (.addNft ⟨"a", "i", "d"⟩)] [.upload "bob" ⟨"b", "i", "d"⟩] "bob" (by simp)
  exact ⟨hnone, hlate (.update 0) ⟨_, rfl, rfl⟩⟩

/-! ## Admins -/

/-- The event chooses an item of a role menu. -/
def AdminEvent.choosesRole : AdminEvent → Bool
  | .chooseRole _ _ _ _ => true
  | _ => false

/-- A deletion that reaches the store was issued for an account whose document is there. -/
def IssuerExists (s : AdminApp) (e : AdminEvent) : Prop :=
  ∀ p d, e = .delete p → s.jobs p = some (.deleting d) → (s.db.users.get d.user).isSome

/-- The role of a document is what it was in the collection `users`, and so is the role of every map
that will be written; accounts act as admins, and delete others, only if their document said so. -/
structure AdminApp.RolesFixed (users : Users) (s : AdminApp) : Prop where
  stored : ∀ uid doc, s.db.users.get uid = some doc →
    ∃ doc₀, users.get uid = some doc₀ ∧ doc.lookup "role" = doc₀.lookup "role"
  carried : ∀ p w, s.db.writes p = some w →
    ∃ doc₀, users.get w.uid = some doc₀ ∧ w.data.lookup "role" = doc₀.lookup "role"
  unchosen : ∀ p c, s.jobs p ≠ some (.chosen c)
  held : ∀ k user, s.Holds k user "admin" → (AdminApp.start users).StoredRole user "admin"
  deleting : ∀ p d, s.jobs p = some (.deleting d) →
    (AdminApp.start users).StoredRole d.user "admin" ∧ d.user ≠ d.id

theorem AdminApp.RolesFixed.start (users : Users) : (AdminApp.start users).RolesFixed users where
  stored uid doc hdoc := ⟨doc, hdoc, rfl⟩
  carried p w hw := by cases hw
  unchosen p c hc := by cases hc
  held k user := by
    rintro (⟨p, hp, hc⟩ | ⟨p, j, c, hj, -⟩)
    · rw [Navigator.mem_mounted_home hp] at hc
      cases hc
    · cases hj
  deleting p d hd := by cases hd

/-- An account whose document is there acts in the role it has. -/
theorem AdminApp.RolesFixed.storedRole {users : Users} {s : AdminApp} (h : s.RolesFixed users)
    {uid role : String} (hrole : (AdminApp.start users).StoredRole uid role)
    (hsome : (s.db.users.get uid).isSome) : s.StoredRole uid role := by
  obtain ⟨doc, hdoc⟩ := Option.isSome_iff_exists.mp hsome
  obtain ⟨doc₀, hdoc₀, hsame⟩ := h.stored uid doc hdoc
  obtain ⟨doc₁, hdoc₁, hrole⟩ := hrole
  obtain rfl := Option.some.inj (hdoc₀.symm.trans hdoc₁)
  exact ⟨doc, hdoc, hsame.trans hrole⟩

theorem AdminApp.RolesFixed.start_of_storedRole {users : Users} {s : AdminApp}
    (h : s.RolesFixed users) {uid role : String} (hrole : s.StoredRole uid role) :
    (AdminApp.start users).StoredRole uid role := by
  obtain ⟨doc, hdoc, hrole⟩ := hrole
  obtain ⟨doc₀, hdoc₀, hsame⟩ := h.stored uid doc hdoc
  exact ⟨doc₀, hdoc₀, hsame.symm.trans hrole⟩

theorem AdminApp.RolesFixed.step {users : Users} {s : AdminApp} (h : s.RolesFixed users)
    {e : AdminEvent} (he : e.choosesRole = false) : (s.step e).RolesFixed users where
  stored uid doc hdoc := by
    rcases s.users_step e with husers | ⟨p, -, husers⟩ | ⟨p, d, -, -, husers⟩
    · rw [husers] at hdoc
      exact h.stored uid doc hdoc
    · rw [husers] at hdoc
      cases hw : s.db.writes p with
      | none =>
        simp only [Db.step, hw] at hdoc
        exact h.stored uid doc hdoc
      | some w =>
        obtain ⟨old, hold⟩ : ∃ old, s.db.users.get uid = some old := by
          rw [← Option.isSome_iff_exists, ← Db.isSome_step_update s.db p, hdoc]
          rfl
        obtain ⟨doc', hdoc', hrole'⟩ := Db.lookup_role_step_update hw hold
        obtain rfl := Option.some.inj (hdoc.symm.trans hdoc')
        obtain ⟨doc₀, hdoc₀, hsame⟩ := h.stored uid old hold
        refine ⟨doc₀, hdoc₀, ?_⟩
        rw [hrole']
        split
        · rename_i hid
          -- the map that is written carries the role the document has anyway
          obtain ⟨doc₁, hdoc₁, hcarried⟩ := h.carried p w hw
          obtain rfl := Option.some.inj (hdoc₀.symm.trans (hid ▸ hdoc₁))
          rw [hcarried, hsame, Option.or_self]
        · exact hsame
    · rw [husers, Collection.get_delete] at hdoc
      split at hdoc
      · cases hdoc
      · exact h.stored uid doc hdoc
  carried p w hw := by
    rcases s.db_step e with hdb | ⟨e', hsends, hdb⟩
    · rw [hdb] at hw
      exact h.carried p w hw
    · rw [hdb] at hw
      rcases Db.writes_step hw with hold | ⟨-, rfl, hseen⟩
      · exact h.carried p w hold
      · obtain ⟨seen, hs, hok⟩ := w.exists_seen
        obtain ⟨doc₀, hdoc₀, hsame⟩ := h.stored w.uid seen (hseen.symm.trans hs)
        have hnft : w.handler.roleChoice = none := by
          rcases hsends.get_cases with ⟨c, hc, -⟩ | hnone
          · exact absurd hc (h.unchosen p c)
          · exact hnone
        refine ⟨doc₀, hdoc₀, ?_⟩
        rw [← hsame]
        exact w.handler.lookup_of_ok hok (by decide) fun hne => absurd hnft hne
  unchosen p c hc := by
    cases nextJob hc with
    | keep j hj => exact h.unchosen p c hj
    | begin j hj =>
      cases hj with
      | chosen k i newValue t he' ht =>
        rw [he'] at he
        cases he
  held k user hholds := by
    rcases holds_step hholds with hold | ⟨-, hrole⟩
    · exact h.held k user hold
    · exact h.start_of_storedRole hrole
  deleting p d hd := by
    rcases deleting_step hd with hold | ⟨hacts, hself⟩
    · exact h.deleting p d hold
    · exact ⟨h.held d.session d.user (.inl hacts), hself⟩

/-- A document is gone after a step only if the step deleted it. -/
theorem AdminApp.isSome_step {s : AdminApp} {e : AdminEvent} {uid : String}
    (hsome : (s.db.users.get uid).isSome)
    (hdel : ∀ p d, e = .delete p → s.jobs p = some (.deleting d) → d.id ≠ uid) :
    ((s.step e).db.users.get uid).isSome := by
  rcases s.users_step e with husers | ⟨p, -, husers⟩ | ⟨p, d, he, hd, husers⟩
  · rw [husers]
    exact hsome
  · rw [husers, Db.isSome_step_update]
    exact hsome
  · rw [husers, Collection.get_delete, if_neg fun h => hdel p d he hd h.symm]
    exact hsome

/-- The step leaves an admin: the one there was, or the one that deleted it. -/
theorem AdminApp.RolesFixed.admin_step {users : Users} {s : AdminApp} (h : s.RolesFixed users)
    {e : AdminEvent} (he : e.choosesRole = false) (hissuer : IssuerExists s e)
    (hadmin : ∃ uid, s.StoredRole uid "admin") : ∃ uid, (s.step e).StoredRole uid "admin" := by
  obtain ⟨uid, hrole⟩ := hadmin
  have hnext := h.step he
  by_cases hdel : ∃ p d, e = .delete p ∧ s.jobs p = some (.deleting d) ∧ d.id = uid
  · obtain ⟨p, d, rfl, hd, rfl⟩ := hdel
    obtain ⟨hissued, hself⟩ := h.deleting p d hd
    refine ⟨d.user, hnext.storedRole hissued ?_⟩
    refine isSome_step (hissuer p d rfl hd) fun p' d' he' hd' => ?_
    obtain rfl := AdminEvent.delete.inj he'
    obtain rfl := Job.deleting.inj (Option.some.inj (hd.symm.trans hd'))
    exact fun hid => hself hid.symm
  · obtain ⟨doc, hdoc, -⟩ := id hrole
    refine ⟨uid, hnext.storedRole (h.start_of_storedRole hrole) ?_⟩
    refine isSome_step (by rw [hdoc]; rfl) fun p d he' hd' hid => ?_
    exact hdel ⟨p, d, he', hd', hid⟩

/-- **An admin remains** through every run without role choices in which each deletion is issued for
an account that still has its document when it is deleted. -/
theorem admin_remains {users : Users} {es : List AdminEvent}
    (hadmin : ∃ uid, (AdminApp.start users).StoredRole uid "admin")
    (hroles : ∀ e ∈ es, e.choosesRole = false)
    (hissuer : Machine.Along AdminApp.step IssuerExists (AdminApp.start users) es) :
    ∃ uid, (Machine.run AdminApp.step (AdminApp.start users) es).StoredRole uid "admin" := by
  have hstart : (AdminApp.start users).RolesFixed users ∧
      ∃ uid, (AdminApp.start users).StoredRole uid "admin" := ⟨.start users, hadmin⟩
  have hstep : ∀ (s : AdminApp) e, (s.RolesFixed users ∧ ∃ uid, s.StoredRole uid "admin") →
      IssuerExists s e ∧ e.choosesRole = false →
      (s.step e).RolesFixed users ∧ ∃ uid, (s.step e).StoredRole uid "admin" := fun s e h hP =>
    ⟨h.1.step hP.2, h.1.admin_step hP.2 hP.1 h.2⟩
  exact ((hissuer.and_mem hroles).invariant hstep hstart).2

/-- Two admins. -/
def twoAdmins : Users :=
  Collection.set (Collection.set ∅ "ann" [("name", .str "Ann"), ("role", .str "admin"),
    ("NFT", .list [])]) "bob" [("name", .str "Bob"), ("role", .str "admin"), ("NFT", .list [])]

/-- Both log in, and Ann deletes Bob. -/
def annDeletesBob : List AdminEvent :=
  [.login 0 0 (some "ann"), .login 1 0 (some "bob"), .load 0 1, .load 1 1, .pressDelete 0 0 0,
    .delete 0]

theorem admin_remains_ann :
    ∃ uid, (Machine.run AdminApp.step (AdminApp.start twoAdmins) annDeletesBob).StoredRole uid
      "admin" := by
  refine admin_remains ⟨"ann", _, rfl, rfl⟩ (by decide) ⟨?_, ?_, ?_, ?_, ?_, ?_, trivial⟩
  · intro p d he
    cases he
  · intro p d he
    cases he
  · intro p d he
    cases he
  · intro p d he
    cases he
  · intro p d he
    cases he
  · intro p d he hd
    obtain rfl := AdminEvent.delete.inj he
    obtain rfl := Job.deleting.inj (Option.some.inj hd)
    rfl

/-- Both delete buttons are pressed before either deletion reaches the store. -/
def mutualDeletion : List AdminEvent :=
  [.login 0 0 (some "ann"), .login 1 0 (some "bob"), .load 0 1, .load 1 1, .pressDelete 0 0 0,
    .pressDelete 1 1 1, .delete 0, .delete 1]

/-- No admin is left. -/
theorem mutualDeletion_no_admin :
    (∃ uid, (AdminApp.start twoAdmins).StoredRole uid "admin") ∧
      ¬ ∃ uid, (Machine.run AdminApp.step (AdminApp.start twoAdmins) mutualDeletion).StoredRole uid
        "admin" := by
  refine ⟨⟨"ann", _, rfl, rfl⟩, ?_⟩
  rintro ⟨uid, doc, hdoc, -⟩
  have hempty : (Machine.run AdminApp.step (AdminApp.start twoAdmins) mutualDeletion).db.users.docs =
      [] := rfl
  have hmem := Collection.mem_docs.mpr hdoc
  rw [hempty] at hmem
  exact absurd hmem List.not_mem_nil

end FlutterThree
