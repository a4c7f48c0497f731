import FlutterThree.Deletion

/-!
# The admin's user list

One session that deletes users and chooses roles, with nobody else writing. A deletion that is done
refreshes the list of the page it was pressed on; a role choice that is written replaces the page on
top by a new one, which loads the list again. Between its write and its refresh a job owes the list
an update about one user, and about every other user the list agrees with the store
(`AdminApp.ListSound`).

`user_list_settles`: when no refresh goes to a page that is gone or covered, the list settles on the
store and no deletion that is done is reported as an error. Otherwise it need not: the page of a
deletion can be replaced by a role choice meanwhile, and the other way round.
-/

namespace FlutterThree

open Dart Firestore Flutter

/-! ## Ids and roles -/

/-- The ids and roles a list shows. -/
def shownRows (z : List NftUser) : List (String × Value) := z.map fun u => (u.id, .str u.role)

/-- The ids and roles of the documents. -/
def storedRows (users : Users) : List (String × Value) :=
  users.docs.map fun d => (d.1, d.2.index "role")

/-- About one user, the list shows what is stored. -/
def AgreesAt (z : List NftUser) (users : Users) (id : String) : Prop :=
  ∀ v, (id, v) ∈ shownRows z ↔ (id, v) ∈ storedRows users

theorem mem_storedRows {users : Users} {id : String} {v : Value} :
    (id, v) ∈ storedRows users ↔ ∃ doc, users.get id = some doc ∧ doc.index "role" = v := by
  unfold storedRows
  rw [List.mem_map]
  constructor
  · rintro ⟨d, hd, heq⟩
    obtain ⟨rfl, rfl⟩ := Prod.mk.inj heq
    exact ⟨d.2, Collection.mem_docs.mp hd, rfl⟩
  · rintro ⟨doc, hdoc, rfl⟩
    exact ⟨(id, doc), Collection.mem_docs.mpr hdoc, rfl⟩

/-- What is stored about one user depends on its document alone. -/
theorem AgreesAt.of_get_eq {z : List NftUser} {users users' : Users} {id : String}
    (h : AgreesAt z users id) (hget : users'.get id = users.get id) : AgreesAt z users' id := by
  intro v
  rw [h v, mem_storedRows, mem_storedRows, hget]

theorem NftUser.fromJson_eq_ok {json : Fields} {id : String} {u : NftUser}
    (h : NftUser.fromJson json id = .ok u) : u.id = id ∧ json.index "role" = .str u.role := by
  unfold fromJson at h
  obtain ⟨nfts, -, h⟩ := bind_eq_ok.mp h
  obtain ⟨name, -, h⟩ := bind_eq_ok.mp h
  obtain ⟨role, hrole, h⟩ := bind_eq_ok.mp h
  obtain rfl := Except.ok.inj h
  refine ⟨rfl, ?_⟩
  cases hvalue : json.index "role" with
  | str s =>
    rw [hvalue] at hrole
    rw [Except.ok.inj hrole]
  | _ =>
    rw [hvalue] at hrole
    cases hrole

theorem rows_of_checkUsers {docs : List (String × Fields)} {z : List NftUser}
    (h : checkUsers docs = .ok z) :
    shownRows z = docs.map fun d => (d.1, d.2.index "role") := by
  induction docs generalizing z with
  | nil =>
    obtain rfl := Except.ok.inj h
    rfl
  | cons d docs ih =>
    have hcons : checkUsers (d :: docs) =
        NftUser.fromJson d.2 d.1 >>= fun u => checkUsers docs >>= fun z => pure (u :: z) :=
      List.mapM_cons
    rw [hcons] at h
    obtain ⟨u, hu, h⟩ := bind_eq_ok.mp h
    obtain ⟨us, hus, h⟩ := bind_eq_ok.mp h
    obtain rfl := Except.ok.inj h
    obtain ⟨hid, hrole⟩ := NftUser.fromJson_eq_ok hu
    have htail := ih hus
    unfold shownRows at htail ⊢
    rw [List.map_cons, List.map_cons, htail, hid, hrole]

theorem nodup_ids_storedRows (users : Users) : ((storedRows users).map Prod.fst).Nodup := by
  have hkeys : (storedRows users).map Prod.fst = users.keys := by
    unfold storedRows Collection.docs AList.keys List.keys
    rw [List.map_map, List.map_map]
    rfl
  rw [hkeys]
  exact users.nodupKeys

/-- A list that is loaded shows what is stored. -/
theorem agreesAt_of_checkUsers {users : Users} {z : List NftUser}
    (h : checkUsers users.docs = .ok z) :
    ((shownRows z).map Prod.fst).Nodup ∧ ∀ id, AgreesAt z users id := by
  have hrows : shownRows z = storedRows users := rows_of_checkUsers h
  refine ⟨hrows ▸ nodup_ids_storedRows users, fun id v => ?_⟩
  rw [hrows]

theorem perm_of_agreesAt {users : Users} {z : List NftUser}
    (hnodup : ((shownRows z).map Prod.fst).Nodup) (h : ∀ id, AgreesAt z users id) :
    (shownRows z).Perm (storedRows users) := by
  refine (List.perm_ext_iff_of_nodup hnodup.of_map (nodup_ids_storedRows users).of_map).mpr ?_
  exact fun row => h row.1 row.2

/-! ## What a job owes the list -/

/-- The user about whom a job that has written has yet to update the list. -/
def Job.owes : Job → Option String
  | .written c => some c.id
  | .deleted d => some d.id
  | _ => none

def Owes (jobs : ℕ → Option Job) (id : String) : Prop :=
  ∃ p j, jobs p = some j ∧ j.owes = some id

/-- A role choice or a deletion of session `k`. -/
def Job.IsOf (k : ℕ) : Job → Prop
  | .chosen c => c.session = k
  | .writing c => c.session = k
  | .written c => c.session = k
  | .pressed _ => False
  | .deleting d => d.session = k
  | .deleted d => d.session = k

/-- A job that takes the place of one that owes nothing leaves what the others owe. -/
theorem Owes.setJob {s : AdminApp} {id : String} (h : Owes s.jobs id) {p : ℕ}
    (hp : ∀ j, s.jobs p = some j → j.owes ≠ some id) (j : Option Job) :
    Owes (s.setJob p j).jobs id := by
  obtain ⟨q, x, hx, howes⟩ := h
  have hq : q ≠ p := by
    rintro rfl
    exact hp x hx howes
  exact ⟨q, x, (Function.update_of_ne hq _ _).trans hx, howes⟩

theorem owes_setJob {s : AdminApp} {id : String} {p : ℕ} {j : Job} (h : j.owes = some id) :
    Owes (s.setJob p (some j)).jobs id :=
  ⟨p, j, Function.update_self _ _ _, h⟩

/-! ## The list follows the store -/

/-- A page without a loaded list, or whose list is right about every user that no job owes it. -/
def AdminRoute.Lists (users : Users) (jobs : ℕ → Option Job) : AdminRoute → Prop
  | .login _ => True
  | .main _ _ .waiting => True
  | .main _ _ (.answered _) => True
  | .main _ _ (.done r) => ∃ z, r = .ok z ∧ ((shownRows z).map Prod.fst).Nodup ∧
      ∀ id, AgreesAt z users id ∨ Owes jobs id
  | _ => False

theorem AdminRoute.Lists.imp {users users' : Users} {jobs jobs' : ℕ → Option Job} {r : AdminRoute}
    (h : r.Lists users jobs)
    (himp : ∀ z id, AgreesAt z users id ∨ Owes jobs id → AgreesAt z users' id ∨ Owes jobs' id) :
    r.Lists users' jobs' := by
  match r, h with
  | .login _, _ => trivial
  | .main _ _ .waiting, _ => trivial
  | .main _ _ (.answered _), _ => trivial
  | .main _ _ (.done r), ⟨z, hz, hnodup, hall⟩ => exact ⟨z, hz, hnodup, fun id => himp z id (hall id)⟩

/-- Session `k` shows one page. Its jobs are choices and deletions; a pending `update` is that of a
role choice, and what a deletion that is done deleted is gone. -/
structure AdminApp.ListSound (k : ℕ) (s : AdminApp) : Prop where
  page : ∃ page, (s.sessions k).stack = [page] ∧ page.route.Lists s.db.users s.jobs
  jobs : ∀ p j, s.jobs p = some j → j.IsOf k
  writes : ∀ p w, s.db.writes p = some w → ∃ c, s.jobs p = some (.writing c) ∧ c.id = w.uid
  gone : ∀ p d, s.jobs p = some (.deleted d) → s.db.users.get d.id = none

theorem AdminApp.ListSound.start (k : ℕ) (users : Users) : (AdminApp.start users).ListSound k where
  page := ⟨⟨0, .login ""⟩, rfl, trivial⟩
  jobs p j hj := by cases hj
  writes p w hw := by cases hw
  gone p d hd := by cases hd

/-- A step that only changes pages. -/
theorem AdminApp.ListSound.onSession {k : ℕ} {s : AdminApp} (h : s.ListSound k)
    {f : Navigator AdminRoute → Navigator AdminRoute}
    (hf : ∀ page, (s.sessions k).stack = [page] → page.route.Lists s.db.users s.jobs →
      ∃ page', (f (s.sessions k)).stack = [page'] ∧ page'.route.Lists s.db.users s.jobs) :
    (s.onSession k f).ListSound k where
  page := by
    obtain ⟨page, hstack, hlists⟩ := h.page
    obtain ⟨page', hstack', hlists'⟩ := hf page hstack hlists
    refine ⟨page', ?_, hlists'⟩
    rw [sessions_onSession_self]
    exact hstack'
  jobs := h.jobs
  writes := h.writes
  gone := h.gone

/-- A step that changes one job, and pages and the store with it. -/
theorem AdminApp.ListSound.setJob {k : ℕ} {s : AdminApp} (h : s.ListSound k) {p : ℕ}
    {j : Option Job} {db : Db} {sessions : ℕ → Navigator AdminRoute} {queue : ℕ → List ℕ}
    (hpage : ∃ page, (sessions k).stack = [page] ∧
      page.route.Lists db.users (s.setJob p j).jobs)
    (hjob : ∀ x, j = some x → x.IsOf k)
    (hwrites : ∀ q w, db.writes q = some w →
      q ≠ p ∧ s.db.writes q = some w ∨ q = p ∧ ∃ c, j = some (.writing c) ∧ c.id = w.uid)
    (hgone : ∀ id, s.db.users.get id = none → db.users.get id = none)
    (hdeleted : ∀ d, j = some (.deleted d) → db.users.get d.id = none) :
    ((⟨db, sessions, s.jobs, queue⟩ : AdminApp).setJob p j).ListSound k where
  page := hpage
  jobs q x hx := by
    rcases jobs_setJob hx with hx | ⟨-, hj⟩
    · exact h.jobs q x hx
    · exact hjob x hj
  writes q w hw := by
    rcases hwrites q w hw with ⟨hq, hold⟩ | ⟨rfl, c, hj, hc⟩
    · obtain ⟨c, hc, hid⟩ := h.writes q w hold
      exact ⟨c, (Function.update_of_ne hq _ _).trans hc, hid⟩
    · exact ⟨c, (Function.update_self _ _ _).trans hj, hc⟩
  gone q d hd := by
    rcases jobs_setJob hd with hd | ⟨-, hj⟩
    · exact hgone d.id (h.gone q d hd)
    · exact hdeleted d hj

/-- Only a role choice between its `get` and its `update` has a write pending. -/
theorem AdminApp.ListSound.writes_eq_none {k : ℕ} {s : AdminApp} (h : s.ListSound k) {p : ℕ}
    (hp : ∀ c, s.jobs p ≠ some (.writing c)) : s.db.writes p = none := by
  cases hw : s.db.writes p with
  | none => rfl
  | some w =>
    obtain ⟨c, hc, -⟩ := h.writes p w hw
    exact absurd hc (hp c)

theorem AdminApp.ListSound.begin {k : ℕ} {s : AdminApp} (h : s.ListSound k) {p : ℕ} {j : Job}
    (hj : j.IsOf k) (hdeleted : ∀ d, j ≠ .deleted d) : (s.begin p j).ListSound k := by
  unfold AdminApp.begin
  split
  · rename_i hfree
    obtain ⟨page, hstack, hlists⟩ := h.page
    refine h.setJob ⟨page, hstack, ?_⟩ (fun x hx => Option.some.inj hx ▸ hj) (fun q w hw => ?_)
      (fun id hid => hid) fun d hd => absurd (Option.some.inj hd) (hdeleted d)
    · refine hlists.imp fun z id => Or.imp_right fun howes => howes.setJob (fun x hx => ?_) (some j)
      rw [hfree.1] at hx
      cases hx
    · refine .inl ⟨?_, hw⟩
      rintro rfl
      rw [hfree.2] at hw
      cases hw
  · exact h

theorem AdminApp.ListSound.answer {k : ℕ} {s : AdminApp} (h : s.ListSound k) (p : ℕ)
    (texts : NftArt) : (s.answer p texts).ListSound k := by
  unfold AdminApp.answer
  split
  · rename_i c hc
    have hof : c.session = k := h.jobs p _ hc
    obtain ⟨page, hstack, hlists⟩ := h.page
    refine h.setJob ⟨page, hstack, ?_⟩ (fun x hx => ?_) (fun q w hw => ?_) (fun id hid => ?_)
      fun d hd => ?_
    · rw [Db.users_step_get]
      refine hlists.imp fun z id => Or.imp_right fun howes => howes.setJob (fun x hx => ?_) _
      obtain rfl := Option.some.inj (hc.symm.trans hx)
      nofun
    · split at hx
      · obtain rfl := Option.some.inj hx
        exact hof
      · cases hx
    · rcases Db.writes_step hw with hold | ⟨-, hget, -⟩
      · refine .inl ⟨?_, hold⟩
        rintro rfl
        rw [h.writes_eq_none fun c' hc' => by cases hc.symm.trans hc'] at hold
        cases hold
      · injection hget with hp huid
        subst hp
        rw [hw]
        exact .inr ⟨rfl, c, rfl, huid⟩
    · rw [Db.users_step_get]
      exact hid
    · split at hd
      · cases hd
      · cases hd
  · rename_i b hb
    exact absurd (h.jobs p _ hb) id
  · exact h

theorem AdminApp.ListSound.write {k : ℕ} {s : AdminApp} (h : s.ListSound k) (p : ℕ) :
    (s.write p).ListSound k := by
  unfold AdminApp.write
  split
  · rename_i c hc
    have hof : c.session = k := h.jobs p _ hc
    have hother : ∀ id, id ≠ c.id →
        (s.db.step (.update p)).users.get id = s.db.users.get id := fun id hid => by
      refine Db.get_step_update_of_ne fun w hw huid => ?_
      obtain ⟨c', hc', hid'⟩ := h.writes p w hw
      obtain rfl := Job.writing.inj (Option.some.inj (hc.symm.trans hc'))
      exact hid (huid.symm.trans hid'.symm)
    have hnone : ∀ id, s.db.users.get id = none → (s.db.step (.update p)).users.get id = none :=
      fun id hid => by
        rw [← Option.isNone_iff_eq_none, ← Option.not_isSome] at hid ⊢
        rwa [Db.isSome_step_update]
    have howing : ∀ x, s.jobs p = some x → ∀ id, x.owes ≠ some id := fun x hx id => by
      obtain rfl := Option.some.inj (hc.symm.trans hx)
      nofun
    obtain ⟨page, hstack, hlists⟩ := h.page
    refine h.setJob ⟨page, hstack, ?_⟩ (fun x hx => ?_) (fun q w hw => ?_) hnone fun d hd => ?_
    · refine hlists.imp fun z id hid => ?_
      rcases hid with hagrees | howes
      · by_cases hid : id = c.id
        · subst hid
          split
          · exact .inr (owes_setJob rfl)
          · -- the document is gone: nothing is written
            rename_i habsent
            rw [Bool.not_eq_true, Option.isSome_eq_false_iff, Option.isNone_iff_eq_none] at habsent
            exact .inl (hagrees.of_get_eq ((hnone _ habsent).trans habsent.symm))
        · exact .inl (hagrees.of_get_eq (hother id hid))
      · exact .inr (howes.setJob (fun x hx => howing x hx id) _)
    · split at hx
      · obtain rfl := Option.some.inj hx
        exact hof
      · cases hx
    · rcases Db.writes_step hw with hold | ⟨-, hget, -⟩
      · refine .inl ⟨?_, hold⟩
        rintro rfl
        rw [Db.writes_step_update] at hw
        cases hw
      · cases hget
    · split at hd
      · cases hd
      · cases hd
  · rename_i hp
    have hkeep : s.db.step (.update p) = s.db := by
      simp only [Db.step, h.writes_eq_none hp]
    rw [hkeep]
    exact ⟨h.page, h.jobs, h.writes, h.gone⟩

theorem AdminApp.ListSound.delete {k : ℕ} {s : AdminApp} (h : s.ListSound k) {p : ℕ} {d : Deletion}
    (hd : s.jobs p = some (.deleting d)) :
    ({ s with db := s.db.step (.deleteUser d.id) }.setJob p (some (.deleted d))).ListSound k := by
  have hget : ∀ id, (s.db.step (.deleteUser d.id)).users.get id =
      if id = d.id then none else s.db.users.get id := Collection.get_delete s.db.users d.id
  have hof : d.session = k := h.jobs p _ hd
  obtain ⟨page, hstack, hlists⟩ := h.page
  refine h.setJob ⟨page, hstack, ?_⟩ (fun x hx => ?_) (fun q w hw => ?_) (fun id hid => ?_)
    fun d' hd' => ?_
  · refine hlists.imp fun z id hid => ?_
    by_cases heq : id = d.id
    · subst heq
      exact .inr (owes_setJob rfl)
    · refine hid.imp (fun hagrees => hagrees.of_get_eq ?_) fun howes => howes.setJob (fun x hx => ?_) _
      · rw [hget, if_neg heq]
      · obtain rfl := Option.some.inj (hd.symm.trans hx)
        nofun
  · obtain rfl := Option.some.inj hx
    exact hof
  · refine .inl ⟨?_, hw⟩
    rintro rfl
    have hnone : s.db.writes q = none := h.writes_eq_none fun c hc => by cases hd.symm.trans hc
    cases hnone.symm.trans hw
  · rw [hget]
    split
    · rfl
    · exact hid
  · obtain rfl := Job.deleted.inj (Option.some.inj hd')
    rw [hget, if_pos rfl]

/-- A job that owes nothing any more ends. -/
theorem AdminApp.ListSound.finish {k : ℕ} {s : AdminApp} (h : s.ListSound k) {p : ℕ} {x : Job}
    {id : String} (hx : s.jobs p = some x) (howes : x.owes = some id)
    {f : Navigator AdminRoute → Navigator AdminRoute}
    (hf : ∀ page, (s.sessions k).stack = [page] → page.route.Lists s.db.users s.jobs →
      ∃ page', (f (s.sessions k)).stack = [page'] ∧
        page'.route.Lists s.db.users (s.setJob p none).jobs) :
    ((s.setJob p none).onSession k f).ListSound k := by
  obtain ⟨page, hstack, hlists⟩ := h.page
  obtain ⟨page', hstack', hlists'⟩ := hf page hstack hlists
  refine h.setJob ⟨page', ?_, hlists'⟩ (fun y hy => by cases hy) (fun q w hw => .inl ⟨?_, hw⟩)
    (fun id hid => hid) fun d hd => by cases hd
  · change (Function.update s.sessions k _ k).stack = [page']
    rw [Function.update_self]
    exact hstack'
  · rintro rfl
    obtain ⟨c, hc, -⟩ := h.writes q w hw
    obtain rfl := Option.some.inj (hx.symm.trans hc)
    cases howes

/-- A list that is right about what a job owed it needs nothing from the job. -/
theorem AdminRoute.Lists.ended {s : AdminApp} {r : AdminRoute} (h : r.Lists s.db.users s.jobs)
    {p : ℕ} {x : Job} {id : String} (hx : s.jobs p = some x) (howes : x.owes = some id)
    (hup : ∀ user role z, r = .main user role (.done (.ok z)) → AgreesAt z s.db.users id) :
    r.Lists s.db.users (s.setJob p none).jobs := by
  match r, h with
  | .login _, _ => trivial
  | .main _ _ .waiting, _ => trivial
  | .main _ _ (.answered _), _ => trivial
  | .main user role (.done r), ⟨z, hz, hnodup, hall⟩ =>
    subst hz
    refine ⟨z, rfl, hnodup, fun id' => ?_⟩
    by_cases hid : id' = id
    · subst hid
      exact .inl (hup user role z rfl)
    · refine (hall id').imp_right fun hother => hother.setJob (fun y hy => ?_) none
      obtain rfl := Option.some.inj (hx.symm.trans hy)
      rw [howes]
      exact fun heq => hid (Option.some.inj heq).symm

/-- A page of a stack of one that changes its state. -/
theorem lists_modifyAt {users : Users} {jobs : ℕ → Option Job} {n : Navigator AdminRoute}
    {page : Page AdminRoute} (hstack : n.stack = [page]) (hlists : page.route.Lists users jobs)
    (i : ℕ) {f : AdminRoute → AdminRoute} (hf : (f page.route).Lists users jobs) :
    ∃ page', (n.modifyAt i f).stack = [page'] ∧ page'.route.Lists users jobs := by
  refine ⟨⟨page.id, if page.id = i then f page.route else page.route⟩, ?_, ?_⟩
  · rw [Navigator.stack_modifyAt, hstack]
    rfl
  · dsimp only
    split
    · exact hf
    · exact hlists

theorem lists_postLogin {users : Users} {jobs : ℕ → Option Job} {n : Navigator AdminRoute}
    {page : Page AdminRoute} (hstack : n.stack = [page]) (hlists : page.route.Lists users jobs)
    (i : ℕ) (user : Option String) (docs : List (String × Fields)) :
    ∃ page', (postLogin i user docs n).stack = [page'] ∧ page'.route.Lists users jobs := by
  have herror : ∀ text, ∃ page', (n.modifyAt i (AdminRoute.setError text)).stack = [page'] ∧
      page'.route.Lists users jobs := fun text => by
    refine lists_modifyAt hstack hlists i ?_
    cases hroute : page.route with
    | login _ => trivial
    | _ =>
      rw [hroute] at hlists
      exact hlists
  unfold postLogin
  split
  · exact herror _
  · split
    · split
      · exact ⟨_, Navigator.stack_pushReplacement hstack _, trivial⟩
      · exact herror _
    · exact herror _

theorem AdminRoute.Lists.loaded {users : Users} {jobs : ℕ → Option Job} {r : AdminRoute}
    (h : r.Lists users jobs) {z : List NftUser} (hz : checkUsers users.docs = .ok z) :
    (r.loaded users.docs).Lists users jobs := by
  match r, h with
  | .login _, _ => trivial
  | .main _ _ .waiting, _ =>
    obtain ⟨hnodup, hall⟩ := agreesAt_of_checkUsers hz
    exact ⟨z, by rw [hz]; rfl, hnodup, fun id => .inl (hall id)⟩
  | .main _ _ (.answered _), _ => trivial
  | .main _ _ (.done _), h => exact h

theorem lists_pressArrow {users : Users} {jobs : ℕ → Option Job} {n : Navigator AdminRoute}
    {page : Page AdminRoute} (hstack : n.stack = [page]) (hlists : page.route.Lists users jobs) :
    (pressArrow n).stack = [page] := by
  unfold pressArrow
  rw [Navigator.top_of_stack hstack]
  match page, hlists with
  | ⟨_, .login _⟩, _ => exact hstack
  | ⟨_, .main _ _ _⟩, _ => exact hstack

/-! ## Runs of the user list -/

/-- The event belongs to deleting users and choosing roles in session `k`. -/
def AdminEvent.ManagesUsers (k : ℕ) : AdminEvent → Prop
  | .login k' _ _ => k' = k
  | .logout k' => k' = k
  | .load k' _ => k' = k
  | .arrow k' => k' = k
  | .back k' => k' = k
  | .settle k' => k' = k
  | .chooseRole k' _ _ _ => k' = k
  | .pressDelete k' _ _ => k' = k
  | .get _ _ => True
  | .update _ => True
  | .replace _ => True
  | .delete _ => True
  | .refreshUsers _ => True
  | _ => False

/-- A list that is loaded can be decoded. -/
def LoadsSucceed (s : AdminApp) (e : AdminEvent) : Prop :=
  ∀ k page, e = .load k page → ∃ z, checkUsers s.db.users.docs = .ok z

/-- The page on top has no loaded list, or one that is right about `id`. -/
def AdminApp.UpToDate (s : AdminApp) (k : ℕ) (id : String) : Prop :=
  ∀ page user role z, (s.sessions k).top = some ⟨page, .main user role (.done (.ok z))⟩ →
    AgreesAt z s.db.users id

/-- A deletion that goes on finds its page mounted, and on top unless the page on top needs no
update. A role choice that goes on finds its page mounted, unless the page on top needs none. -/
structure Timely (s : AdminApp) (e : AdminEvent) : Prop where
  deletion : ∀ p d, e = .refreshUsers p → s.jobs p = some (.deleted d) →
    ((s.sessions d.session).find d.page).isSome ∧
      ((s.sessions d.session).top.map Page.id = some d.page ∨ s.UpToDate d.session d.id)
  choice : ∀ p c, e = .replace p → s.jobs p = some (.written c) →
    ((s.sessions c.session).find c.page).isSome ∨ s.UpToDate c.session c.id

/-- The error handler of a deletion that is done runs: `setState` raised on a disposed page. -/
def ReportsError (s : AdminApp) (e : AdminEvent) : Prop :=
  ∃ p d, e = .refreshUsers p ∧ s.jobs p = some (.deleted d) ∧
    (s.sessions d.session).find d.page = none

/-- Once nothing is pending, the page on top shows the ids and roles of the documents. -/
def AdminApp.Settled (s : AdminApp) (k : ℕ) : Prop :=
  (∀ p, s.jobs p = none) → ∀ page user role r,
    (s.sessions k).top = some ⟨page, .main user role (.done r)⟩ →
      ∃ z, r = .ok z ∧ (shownRows z).Perm (storedRows s.db.users)

theorem AdminApp.ListSound.settled {k : ℕ} {s : AdminApp} (h : s.ListSound k) : s.Settled k := by
  intro hidle page user role r htop
  obtain ⟨page', hstack, hlists⟩ := h.page
  rw [Navigator.top_of_stack hstack] at htop
  obtain rfl := Option.some.inj htop
  obtain ⟨z, rfl, hnodup, hall⟩ := hlists
  refine ⟨z, rfl, perm_of_agreesAt hnodup fun id => (hall id).resolve_right ?_⟩
  rintro ⟨p, j, hj, -⟩
  cases (hidle p).symm.trans hj

/-- What the page on top shows, for the page of a stack of one. -/
theorem AdminApp.UpToDate.agreesAt {s : AdminApp} {k : ℕ} {id : String} (h : s.UpToDate k id)
    {page : Page AdminRoute} (hstack : (s.sessions k).stack = [page]) {user role : String}
    {z : List NftUser} (hroute : page.route = .main user role (.done (.ok z))) :
    AgreesAt z s.db.users id := by
  refine h page.id user role z ?_
  rw [Navigator.top_of_stack hstack, ← hroute]

theorem AdminApp.ListSound.replacePage {k : ℕ} {s : AdminApp} (h : s.ListSound k) {p : ℕ}
    (htimely : Timely s (.replace p)) : (s.replacePage p).ListSound k := by
  unfold AdminApp.replacePage
  split
  · rename_i c hc
    have hof : c.session = k := h.jobs p _ hc
    rw [hof]
    refine h.finish hc rfl fun page hstack hlists => ?_
    split
    · exact ⟨_, Navigator.stack_pushReplacement hstack _, trivial⟩
    · rename_i hgone
      have hup : s.UpToDate k c.id := by
        rw [← hof] at hgone ⊢
        exact (htimely.choice p c rfl hc).resolve_left hgone
      exact ⟨page, hstack, hlists.ended hc rfl fun user role z hroute => hup.agreesAt hstack hroute⟩
  · exact h

theorem AdminApp.ListSound.refreshUsers {k : ℕ} {s : AdminApp} (h : s.ListSound k) {p : ℕ}
    {d : Deletion} (hd : s.jobs p = some (.deleted d)) (htimely : Timely s (.refreshUsers p)) :
    ((s.setJob p none).onSession d.session
      (·.modifyAt d.page AdminRoute.refreshUsers)).ListSound k := by
  have hof : d.session = k := h.jobs p _ hd
  obtain ⟨-, hcase⟩ := htimely.deletion p d rfl hd
  rw [hof] at hcase ⊢
  refine h.finish hd rfl fun page hstack hlists => ?_
  rw [Navigator.stack_modifyAt, hstack]
  refine ⟨_, rfl, ?_⟩
  dsimp only
  split
  · -- the list of this page is asked for again
    match page.route, hlists with
    | .login _, _ => trivial
    | .main _ _ _, _ => trivial
  · rename_i hother
    refine hlists.ended hd rfl fun user role z hroute => ?_
    rcases hcase with htop | hup
    · rw [Navigator.top_of_stack hstack] at htop
      exact absurd (Option.some.inj htop) hother
    · exact hup.agreesAt hstack hroute

theorem AdminApp.ListSound.step {k : ℕ} {s : AdminApp} (h : s.ListSound k) {e : AdminEvent}
    (he : e.ManagesUsers k) (hload : LoadsSucceed s e) (htimely : Timely s e) :
    (s.step e).ListSound k := by
  cases e with
  | login k' page user =>
    obtain rfl : k' = k := he
    simp only [AdminApp.step]
    split
    · exact h.onSession fun page' hstack hlists => lists_postLogin hstack hlists page user _
    · exact h
  | logout k' =>
    obtain rfl : k' = k := he
    simp only [AdminApp.step]
    split
    · exact h.onSession fun page hstack hlists =>
        ⟨_, Navigator.stack_pushReplacement hstack _, trivial⟩
    · exact h
  | load k' page =>
    obtain rfl : k' = k := he
    obtain ⟨z, hz⟩ := hload k' page rfl
    change (s.onSession k' (·.modifyAt page (AdminRoute.loaded s.db.users.docs))).ListSound k'
    exact h.onSession fun page' hstack hlists => lists_modifyAt hstack hlists page (hlists.loaded hz)
  | arrow k' =>
    obtain rfl : k' = k := he
    exact h.onSession fun page hstack hlists => ⟨page, lists_pressArrow hstack hlists, hlists⟩
  | back k' =>
    obtain rfl : k' = k := he
    refine h.onSession fun page hstack hlists => ⟨page, ?_, hlists⟩
    have hfirst : ¬ 2 ≤ (s.sessions k').stack.length := by
      rw [hstack, List.length_singleton]
      omega
    rw [pressBack, if_neg hfirst]
    exact hstack
  | settle k' =>
    obtain rfl : k' = k := he
    exact h.onSession fun page hstack hlists => ⟨page, hstack, hlists⟩
  | chooseRole k' p i newValue =>
    obtain rfl : k' = k := he
    simp only [AdminApp.step]
    split
    · exact h.begin rfl fun d hd => by cases hd
    · exact h
  | pressDelete k' p i =>
    obtain rfl : k' = k := he
    simp only [AdminApp.step, AdminApp.pressDelete]
    split
    · split
      · split
        · exact h
        · exact h.begin rfl fun d hd => by cases hd
      · exact h
    · exact h
  | get p texts => exact h.answer p texts
  | update p => exact h.write p
  | replace p => exact h.replacePage htimely
  | delete p =>
    simp only [AdminApp.step]
    split
    · rename_i d hd
      exact h.delete hd
    · exact h
  | refreshUsers p =>
    simp only [AdminApp.step]
    split
    · rename_i d hd
      exact h.refreshUsers hd htimely
    · exact h
  | openUser k' i => exact absurd he id
  | openNft k' i => exact absurd he id
  | openAdd k' => exact absurd he id
  | pressAdd k' p => exact absurd he id
  | pressEdit k' p => exact absurd he id
  | pressDeleteNft k' p => exact absurd he id
  | respond k' page => exact absurd he id
  | wake k' page => exact absurd he id
  | offline k' page text => exact absurd he id

theorem Timely.not_reportsError {s : AdminApp} {e : AdminEvent} (h : Timely s e) :
    ¬ ReportsError s e := by
  rintro ⟨p, d, he, hd, hnone⟩
  have hsome := (h.deletion p d he hd).1
  rw [hnone] at hsome
  cases hsome

/-- **The user list settles on the store**, and no deletion that is done is reported as an error, in
every run whose deletions and role choices go on in time. -/
theorem user_list_settles {users : Users} {k : ℕ} {es : List AdminEvent}
    (hes : ∀ e ∈ es, e.ManagesUsers k)
    (hloads : Machine.Along AdminApp.step LoadsSucceed (AdminApp.start users) es)
    (htimely : Machine.Along AdminApp.step Timely (AdminApp.start users) es) :
    (Machine.run AdminApp.step (AdminApp.start users) es).Settled k ∧
      Machine.Along AdminApp.step (fun s e => ¬ ReportsError s e) (AdminApp.start users) es := by
  have hstep : ∀ (s : AdminApp) e, s.ListSound k →
      (LoadsSucceed s e ∧ Timely s e) ∧ e.ManagesUsers k → (s.step e).ListSound k :=
    fun s e h hP => h.step hP.2 hP.1.1 hP.1.2
  have hsteps := (hloads.and htimely).and_mem hes
  refine ⟨(hsteps.invariant hstep (.start k users)).settled, ?_⟩
  exact hsteps.imp hstep (fun s e _ hP => hP.1.2.not_reportsError) (.start k users)

/-- The lists of a collection that began well-formed can be decoded. -/
theorem loadsSucceed_of_wellFormed {users : Users}
    (h : ∀ uid doc, users.get uid = some doc → WellFormed doc) (es : List AdminEvent) :
    Machine.Along AdminApp.step LoadsSucceed (AdminApp.start users) es := by
  refine Machine.along_iff_split.mpr fun pre e post heq k page he => ?_
  obtain ⟨z, hz, -⟩ := AdminApp.checkUsers_run h pre
  exact ⟨z, hz⟩

theorem Timely.of_ne {s : AdminApp} {e : AdminEvent}
    (he : ∀ p, e ≠ .refreshUsers p ∧ e ≠ .replace p) : Timely s e where
  deletion p _ h := absurd h (he p).1
  choice p _ h := absurd h (he p).2

theorem wellFormed_annAndBob (uid : String) (doc : Fields) (h : annAndBob.get uid = some doc) :
    WellFormed doc := by
  rw [annAndBob, Collection.get_set, Collection.get_set] at h
  split at h
  · obtain rfl := Option.some.inj h
    exact (stores_registerDoc "Bob").wellFormed
  · split at h
    · obtain rfl := Option.some.inj h
      exact ⟨⟨_, rfl⟩, ⟨"admin", by decide, rfl⟩, [], rfl, by simp⟩
    · cases h

/-- Ann chooses her own role and deletes Bob meanwhile; the page is replaced last. -/
def deletionDuringChoice : List AdminEvent :=
  [.login 0 0 (some "ann"), .load 0 1, .chooseRole 0 0 1 .admin, .pressDelete 0 1 0,
    .get 0 ⟨"", "", ""⟩, .delete 1, .refreshUsers 1, .update 0, .replace 0, .load 0 2]

theorem user_list_settles_deletionDuringChoice :
    (Machine.run AdminApp.step (AdminApp.start annAndBob) deletionDuringChoice).Settled 0 ∧
      Machine.Along AdminApp.step (fun s e => ¬ ReportsError s e) (AdminApp.start annAndBob)
        deletionDuringChoice := by
  refine user_list_settles (by simp [deletionDuringChoice, AdminEvent.ManagesUsers])
    (loadsSucceed_of_wellFormed wellFormed_annAndBob _) ⟨.of_ne (by simp), .of_ne (by simp),
      .of_ne (by simp), .of_ne (by simp), .of_ne (by simp), .of_ne (by simp), ⟨?_, ?_⟩,
      .of_ne (by simp), ⟨?_, ?_⟩, .of_ne (by simp), trivial⟩
  · intro p d he hd
    obtain rfl := AdminEvent.refreshUsers.inj he
    obtain rfl := Job.deleted.inj (Option.some.inj hd)
    exact ⟨rfl, .inl rfl⟩
  · intro p c he
    cases he
  · intro p d he
    cases he
  · intro p c he hc
    obtain rfl := AdminEvent.replace.inj he
    obtain rfl := Job.written.inj (Option.some.inj hc)
    exact .inl rfl

/-- Ann deletes Bob and chooses her own role meanwhile; the page is replaced, and gone, before the
deletion reaches the store. -/
def choiceDuringDeletion : List AdminEvent :=
  [.login 0 0 (some "ann"), .load 0 1, .pressDelete 0 1 0, .chooseRole 0 0 1 .admin,
    .get 0 ⟨"", "", ""⟩, .update 0, .replace 0, .settle 0, .load 0 2, .delete 1, .refreshUsers 1]

/-- Bob is deleted, but still listed, and an error is reported. -/
theorem choiceDuringDeletion_not_settled :
    (∀ e ∈ choiceDuringDeletion, e.ManagesUsers 0) ∧
      Machine.Along AdminApp.step LoadsSucceed (AdminApp.start annAndBob) choiceDuringDeletion ∧
      ¬ (Machine.run AdminApp.step (AdminApp.start annAndBob) choiceDuringDeletion).Settled 0 ∧
      ¬ Machine.Along AdminApp.step (fun s e => ¬ ReportsError s e) (AdminApp.start annAndBob)
        choiceDuringDeletion := by
  refine ⟨by simp [choiceDuringDeletion, AdminEvent.ManagesUsers],
    loadsSucceed_of_wellFormed wellFormed_annAndBob _, fun h => ?_, ?_⟩
  · have hidle : ∀ p, (Machine.run AdminApp.step (AdminApp.start annAndBob)
        choiceDuringDeletion).jobs p = none := fun p => by
      match p with
      | 0 => rfl
      | 1 => rfl
      | p + 2 => rfl
    obtain ⟨z, hz, hperm⟩ := h hidle 2 "ann" "admin" _ rfl
    obtain rfl := Except.ok.inj hz
    have hlen := hperm.length_eq
    exact absurd hlen (by decide)
  · rintro ⟨-, -, -, -, -, -, -, -, -, -, hlast, -⟩
    exact hlast ⟨1, _, rfl, rfl, rfl⟩

end FlutterThree
