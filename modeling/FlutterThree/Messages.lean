import FlutterThree.AdminAccess
import FlutterThree.Reads

/-!
# What the pages say when something goes wrong

Both apps have a text for a fetch that fails, and one page of each shows it for whatever else was
raised while a document was decoded. From well-formed documents nothing else is raised.

`admin_pages_render`: an error on a page of the admin app is one of a sign-in, or that of a call of
the page that has raised, and each role on a tile is an item of its menu.
`profile_errors_have_causes`: an error on a `ProfilePage` means that its first fetch failed, or that
the wallet was empty when it was read.
-/

namespace FlutterThree

open Dart Async Firestore Flutter

/-! ## The admin app -/

/-- The page shows no error but those of a sign-in, and each role it shows is an item of the menu. -/
def AdminRoute.Renders : AdminRoute → Prop
  | .login text => text = "" ∨ text ∈ signInErrors
  | .main _ _ (.done result) => ∃ users, result = .ok users ∧ ∀ u ∈ users, u.role ∈ roleItems
  | .nft _ (.done result) => ∃ nfts, result = .ok nfts
  | _ => True

/-- The page shows the error of a call that has raised `text`. -/
def AdminRoute.ShowsFailure (text : String) : AdminRoute → Prop
  | .login shown => shown = "Internet error"
  | .main _ _ (.done result) => result = .error (.remote text)
  -- what the refresh falls back on is not of the type it has to return
  | .nft _ (.done result) => result = .error (.dart .typeError)
  | _ => False

theorem checkUsers_renders {docs : List (String × Fields)}
    (h : ∀ element ∈ docs, ∃ p, Stores ShowsTexts element.2 p) :
    ∃ users, checkUsers docs = .ok users ∧ ∀ u ∈ users, u.role ∈ roleItems := by
  induction docs with
  | nil => exact ⟨[], rfl, fun u hu => by cases hu⟩
  | cons element docs ih =>
    obtain ⟨p, hp⟩ := h element List.mem_cons_self
    obtain ⟨users, husers, hroles⟩ := ih fun x hx => h x (List.mem_cons_of_mem element hx)
    have hcons : checkUsers (element :: docs) =
        NftUser.fromJson element.2 element.1 >>= fun u => checkUsers docs >>= fun z =>
          pure (u :: z) := List.mapM_cons
    rw [hcons, NftUser.fromJson_of_stores hp, husers]
    refine ⟨_, rfl, fun u hu => ?_⟩
    rcases List.mem_cons.mp hu with rfl | hu
    · exact p.role.value_mem
    · exact hroles u hu

theorem refreshNFTs_renders {uid : String} {docs : List (String × Fields)}
    (h : ∀ element ∈ docs, ∃ p, Stores ShowsTexts element.2 p) :
    ∃ userDetails, refreshNFTs uid docs = .ok userDetails := by
  unfold refreshNFTs
  split
  · rename_i element hfind
    obtain ⟨p, hp⟩ := h element (List.mem_of_find?_eq_some hfind)
    rw [NftUser.fromJson_of_stores hp]
    exact ⟨_, rfl⟩
  · exact ⟨_, rfl⟩

theorem adminChecker_eq_ok (uid : String) {docs : List (String × Fields)}
    (h : ∀ element ∈ docs, ∃ p, Stores ShowsTexts element.2 p) :
    ∃ role, adminChecker uid docs = .ok role := by
  unfold adminChecker
  generalize "user" = role
  induction docs generalizing role with
  | nil => exact ⟨role, rfl⟩
  | cons element docs ih =>
    obtain ⟨p, hp⟩ := h element List.mem_cons_self
    have hrest := ih fun x hx => h x (List.mem_cons_of_mem element hx)
    rw [List.foldlM_cons]
    split
    · rw [Fields.index_of_lookup hp.role]
      exact hrest _
    · exact hrest _

section

variable {docs : List (String × Fields)}

theorem AdminRoute.renders_login : (AdminRoute.login "").Renders := .inl rfl

/-! A step of a page leaves it as it is, or leads to one that renders. -/

theorem AdminRoute.refresh_renders (r : AdminRoute) : r.refresh = r ∨ r.refresh.Renders := by
  cases r with
  | nft uid snap => exact .inr trivial
  | _ => exact .inl rfl

theorem AdminRoute.refreshUsers_renders (r : AdminRoute) :
    r.refreshUsers = r ∨ r.refreshUsers.Renders := by
  cases r with
  | main user role snap => exact .inr trivial
  | _ => exact .inl rfl

theorem AdminRoute.changed_renders (texts : NftArt) (button : NftButton) (r : AdminRoute) :
    r.changed texts button = r ∨ (r.changed texts button).Renders := by
  cases r with
  | details uid n shown isChange => cases button <;> exact .inr trivial
  | _ => exact .inl rfl

theorem AdminRoute.loaded_renders (hdocs : ∀ element ∈ docs, ∃ p, Stores ShowsTexts element.2 p)
    (r : AdminRoute) : r.loaded docs = r ∨ (r.loaded docs).Renders := by
  unfold loaded
  split
  · obtain ⟨users, husers, hroles⟩ := checkUsers_renders hdocs
    exact .inr ⟨users, by rw [husers]; rfl, hroles⟩
  · exact .inl rfl

theorem AdminRoute.responded_renders
    (hdocs : ∀ element ∈ docs, ∃ p, Stores ShowsTexts element.2 p) (r : AdminRoute) :
    r.responded docs = r ∨ (r.responded docs).Renders := by
  unfold responded
  split
  · rename_i uid
    obtain ⟨userDetails, hok⟩ : ∃ d, refreshNFTs uid docs = .ok d := refreshNFTs_renders hdocs
    rw [hok]
    cases userDetails with
    | none => exact .inr ⟨none, rfl⟩
    | some userDetails => exact .inr trivial
  · exact .inl rfl

theorem AdminRoute.woken_renders (r : AdminRoute) : r.woken = r ∨ r.woken.Renders := by
  unfold woken
  split
  · exact .inr ⟨_, rfl⟩
  · exact .inl rfl

theorem AdminRoute.setError_renders {text : String} (htext : text ∈ signInErrors)
    (r : AdminRoute) : r.setError text = r ∨ (r.setError text).Renders := by
  cases r with
  | login e => exact .inr (.inr htext)
  | _ => exact .inl rfl

/-- When a call raises the page shows that, if it waited for it. -/
theorem AdminRoute.failed_showsFailure (text : String) (r : AdminRoute) :
    r.failed text = r ∨ (r.failed text).ShowsFailure text := by
  unfold failed
  split
  · exact .inr rfl
  · exact .inr rfl
  · exact .inr rfl
  · exact .inl rfl

/-- A page renders, or shows that a call of its own has raised; `F` says which have. -/
def AdminRoute.RendersBut (F : ℕ → String → Prop) (page : ℕ) (r : AdminRoute) : Prop :=
  r.Renders ∨ ∃ text, F page text ∧ r.ShowsFailure text

section

variable {F : ℕ → String → Prop}

theorem AdminRoute.RendersBut.map {f : AdminRoute → AdminRoute}
    (hf : ∀ r : AdminRoute, f r = r ∨ (f r).Renders) (page : ℕ) (r : AdminRoute)
    (h : r.RendersBut F page) : (f r).RendersBut F page := by
  rcases hf r with hsame | hrenders
  · rw [hsame]
    exact h
  · exact .inl hrenders

theorem AdminRoute.RendersBut.failed {page : ℕ} {text : String} (hF : F page text) (r : AdminRoute)
    (h : r.RendersBut F page) : (r.failed text).RendersBut F page := by
  rcases r.failed_showsFailure text with hsame | hfails
  · rw [hsame]
    exact h
  · exact .inr ⟨text, hF, hfails⟩

theorem allAt_renders_postLogin (hdocs : ∀ element ∈ docs, ∃ p, Stores ShowsTexts element.2 p)
    {n : Navigator AdminRoute} (h : n.AllAt fun i r => r.RendersBut F i) (page : ℕ)
    (user : Option String) : (postLogin page user docs n).AllAt fun i r => r.RendersBut F i := by
  refine allAt_postLogin h page (fun text hcause => ?_) fun _ _ _ _ _ => .inl trivial
  rcases hcause with htext | ⟨uid, x, -, hx⟩
  · exact AdminRoute.RendersBut.map (AdminRoute.setError_renders htext) page
  · obtain ⟨role, hrole⟩ := adminChecker_eq_ok uid hdocs
    cases hrole.symm.trans hx

end

end

/-- The pages of all sessions. -/
def AdminApp.RendersBut (F : ℕ → ℕ → String → Prop) (s : AdminApp) : Prop :=
  ∀ k, (s.sessions k).AllAt fun i r => r.RendersBut (F k) i

section

variable {F : ℕ → ℕ → String → Prop} {s : AdminApp}

theorem AdminApp.RendersBut.onSession (h : s.RendersBut F) (k : ℕ)
    {f : Navigator AdminRoute → Navigator AdminRoute}
    (hf : ((s.sessions k).AllAt fun i r => r.RendersBut (F k) i) →
      (f (s.sessions k)).AllAt fun i r => r.RendersBut (F k) i) :
    (s.onSession k f).RendersBut F := by
  intro k'
  change (Function.update s.sessions k (f (s.sessions k)) k').AllAt fun i r => r.RendersBut (F k') i
  by_cases hk : k' = k
  · subst hk
    rw [Function.update_self]
    exact hf (h k')
  · rw [Function.update_of_ne hk]
    exact h k'

theorem AdminApp.RendersBut.begin (h : s.RendersBut F) (p : ℕ) (j : Job) :
    (s.begin p j).RendersBut F := by
  unfold AdminApp.begin
  split
  · exact h
  · exact h

/-- The documents that a session reads store profiles, like those in the store. -/
theorem AdminApp.stores_of_mem_view (hall : AllStore ShowsTexts s.db) (k : ℕ) :
    ∀ element ∈ (s.view k).docs, ∃ p, Stores ShowsTexts element.2 p := fun _ hmem =>
  (hall.run entryRel_showsTexts _).users _ _ (Collection.mem_docs.mp hmem)

theorem AdminApp.RendersBut.step (h : s.RendersBut F) (hall : AllStore ShowsTexts s.db)
    {e : AdminEvent} (he : ∀ k page text, e = .offline k page text → F k page text) :
    (s.step e).RendersBut F := by
  have hdocs : ∀ element ∈ s.db.users.docs, ∃ p, Stores ShowsTexts element.2 p :=
    fun element hmem => hall.users _ _ (Collection.mem_docs.mp hmem)
  have hrefresh : ∀ {F : ℕ → String → Prop} page (r : AdminRoute), r.RendersBut F page →
      r.refresh.RendersBut F page := AdminRoute.RendersBut.map AdminRoute.refresh_renders
  cases e with
  | login k page user =>
    simp only [AdminApp.step]
    split
    · exact h.onSession k fun hn => allAt_renders_postLogin hdocs hn page user
    · exact h
  | logout k =>
    simp only [AdminApp.step]
    split
    · exact h.onSession k fun hn => hn.pushReplacement (.inl AdminRoute.renders_login)
    · exact h
  | load k page =>
    exact h.onSession k (f := (·.modifyAt page (AdminRoute.loaded s.db.users.docs)))
      fun hn => hn.modifyAt page (AdminRoute.RendersBut.map (AdminRoute.loaded_renders hdocs) page)
  | respond k page =>
    exact h.onSession k (f := (·.modifyAt page (AdminRoute.responded (s.view k).docs)))
      fun hn => hn.modifyAt page (AdminRoute.RendersBut.map
        (AdminRoute.responded_renders (AdminApp.stores_of_mem_view hall k)) page)
  | wake k page =>
    exact h.onSession k (f := (·.modifyAt page AdminRoute.woken))
      fun hn => hn.modifyAt page (AdminRoute.RendersBut.map AdminRoute.woken_renders page)
  | offline k page text =>
    exact h.onSession k (f := (·.modifyAt page (AdminRoute.failed text)))
      fun hn => hn.modifyAt page fun r hr => hr.failed (he k page text rfl) r
  | openUser k i =>
    simp only [AdminApp.step]
    split
    · exact h.onSession k fun hn => hn.push (.inl ⟨_, rfl⟩)
    · exact h
  | openNft k i =>
    simp only [AdminApp.step]
    split
    · split
      · exact h.onSession k fun hn => hn.push (.inl trivial)
      · exact h
    · exact h
  | openAdd k =>
    simp only [AdminApp.step]
    split
    · exact h.onSession k fun hn => hn.push (.inl trivial)
    · exact h
  | arrow k => exact h.onSession k fun hn => allAt_pressArrow hn hrefresh
  | back k => exact h.onSession k allAt_pressBack
  | settle k => exact h.onSession k fun hn => hn.settle
  | chooseRole k p i newValue =>
    simp only [AdminApp.step]
    split
    · exact h.begin p _
    · exact h
  | pressAdd k p =>
    simp only [AdminApp.step]
    split
    · exact h.begin p _
    · exact h
  | pressEdit k p =>
    simp only [AdminApp.step]
    split
    · exact h.begin p _
    · exact h
  | pressDeleteNft k p =>
    simp only [AdminApp.step]
    split
    · exact h.begin p _
    · exact h
  | get p texts =>
    simp only [AdminApp.step, answer]
    split
    · exact h
    · rename_i b hb
      have hsame : AdminApp.RendersBut F ((s.send b.session p
          (s.db.step (.get p b.uid (b.button.handler texts)))).setJob p none) := h
      refine hsame.onSession b.session fun hn => ?_
      split
      · exact allAt_finish hn hrefresh
          (AdminRoute.RendersBut.map (AdminRoute.changed_renders texts b.button)) b.page
      · exact hn
    · exact h
  | update p =>
    simp only [AdminApp.step, write]
    split
    · exact h
    · exact h
  | replace p =>
    simp only [AdminApp.step, replacePage]
    split
    · rename_i c hc
      have hsame : AdminApp.RendersBut F (s.setJob p none) := h
      refine hsame.onSession c.session fun hn => ?_
      split
      · exact hn.pushReplacement (.inl trivial)
      · exact hn
    · exact h
  | pressDelete k p i =>
    simp only [AdminApp.step, pressDelete]
    split
    · split
      · split
        · exact h
        · exact h.begin p _
      · exact h
    · exact h
  | delete p =>
    simp only [AdminApp.step]
    split
    · exact h
    · exact h
  | refreshUsers p =>
    simp only [AdminApp.step]
    split
    · rename_i d hd
      have hsame : AdminApp.RendersBut F (s.setJob p none) := h
      exact hsame.onSession d.session fun hn => hn.modifyAt d.page
        (AdminRoute.RendersBut.map AdminRoute.refreshUsers_renders d.page)
    · exact h

end

theorem AdminApp.rendersBut_start (F : ℕ → ℕ → String → Prop) (users : Users) :
    (AdminApp.start users).RendersBut F := fun _ =>
  Navigator.allAt_home (.inl AdminRoute.renders_login)

section

variable {users : Users} {accounts : List Account} {accepts : String → String → Bool}
  {currentUsers : ℕ → Option String}

/-- **The admin app renders**, from well-formed documents: whatever the apps do, a page shows no error
but those of a sign-in, and no role that is no item of its menu, unless a call of the page has raised,
and then it shows that. -/
theorem admin_pages_render (hwell : ∀ uid doc, users.get uid = some doc → WellFormed doc)
    {es : List AppsEvent} {s : Apps}
    (hs : s = Machine.run Apps.step (Apps.start users accounts accepts currentUsers) es) (k : ℕ) :
    ∀ p ∈ (s.admin.sessions k).mounted,
      p.route.Renders ∨ ∃ text, .admin (.offline k p.id text) ∈ es ∧ p.route.ShowsFailure text := by
  let F : ℕ → ℕ → String → Prop := fun k page text => AppsEvent.admin (.offline k page text) ∈ es
  have hstep : ∀ (s : Apps), ∀ e ∈ es, AllStore ShowsTexts s.admin.db ∧ s.admin.RendersBut F →
      AllStore ShowsTexts (s.step e).admin.db ∧ (s.step e).admin.RendersBut F := by
    rintro s e hmem ⟨hall, hrenders⟩
    refine ⟨?_, ?_⟩
    · rw [s.db_step e]
      exact hall.run entryRel_showsTexts _
    · cases e with
      | admin e =>
        refine hrenders.step hall fun k page text he => ?_
        rw [he] at hmem
        exact hmem
      | client i a => exact hrenders
  have hstart : AllStore ShowsTexts (Apps.start users accounts accepts currentUsers).admin.db ∧
      (Apps.start users accounts accepts currentUsers).admin.RendersBut F :=
    ⟨allStore_start_of_wellFormed hwell, AdminApp.rendersBut_start F users⟩
  rw [hs]
  exact (Machine.run_invariant_of_mem _ hstep hstart).2 k

end

theorem wellFormed_oneAdmin (uid : String) (doc : Fields) (h : oneAdmin.get uid = some doc) :
    WellFormed doc := by
  rw [oneAdmin, Collection.get_set] at h
  split at h
  · obtain rfl := Option.some.inj h
    exact ⟨⟨"Root", rfl⟩, ⟨"admin", by decide, rfl⟩, [], rfl, fun _ hx => by cases hx⟩
  · cases h

/-- A first sign-in raises; then Ann registers while the admin loads the list. -/
def loadingList : List AppsEvent :=
  .admin (.offline 0 0 "offline") :: .admin (.login 0 0 (some "root")) ::
    registering 0 "ann" "ann@mail.com" ++ [.admin (.load 0 1)]

theorem admin_pages_render_registering :
    ∃ p, ((Machine.run Apps.step adminAndGuests loadingList).admin.sessions 0).top = some p ∧
      p.route.Renders := by
  have htop : ((Machine.run Apps.step adminAndGuests loadingList).admin.sessions 0).top =
      some ⟨1, _⟩ := rfl
  refine ⟨_, htop, ?_⟩
  rcases admin_pages_render wellFormed_oneAdmin rfl 0 _ (Navigator.mem_mounted_of_top htop) with
    hrenders | ⟨text, hmem, -⟩
  · exact hrenders
  · simp [loadingList, registering] at hmem

/-! ## The client app -/

/-- On a document that stores a profile, `initNFTs` raises for an empty wallet only. -/
theorem empty_of_initNFTs {users : Users} {uid : String}
    (hall : ∀ doc, users.get uid = some doc → ∃ p, Stores ShowsTexts doc p) {e : Raised}
    (he : initNFTs uid (.ok users.docs) = .error e) :
    e = .exception "Add your first NFT" ∧ users.allNFTs uid = .ok (some ⟨[]⟩) := by
  unfold initNFTs at he
  rw [forUser_docs] at he
  unfold Users.allNFTs
  cases hdoc : users.get uid with
  | none =>
    rw [hdoc] at he
    cases he
  | some doc =>
    obtain ⟨⟨name, role, wallet⟩, hp⟩ := hall doc hdoc
    obtain ⟨xs, hxs, hw⟩ := hp.index_nft
    have hjson := AllNFT.fromJson_of_stores hp
    have hlength : (doc.index "NFT").length = .ok xs.length := by rw [hxs]; rfl
    rw [hdoc] at he
    simp only [hlength, hjson] at he ⊢
    cases hw with
    | nil => exact ⟨(Except.error.inj he).symm, rfl⟩
    | cons hv hw => cases he

/-- The fetch of call `f` of page `k` has failed with a text. -/
def Apps.Failed (s : Apps) (i k f : ℕ) (text : String) : Prop :=
  ∃ page, (s.clients i).profiles k = some page ∧ page.allNFTs.responses f = some (.error text)

theorem Apps.failed_of_step {s : Apps} (h : ∀ i, (s.clients i).Loads) {e : AppsEvent} {i k f : ℕ}
    {text : String} (hf : (s.step e).Failed i k f text) :
    s.Failed i k f text ∨ e = .client i (.offline k f text) := by
  obtain ⟨page', hk', hf'⟩ := hf
  rcases Apps.profile_of_step h hk' with ⟨page, hk, hnext⟩ | ⟨uid, rfl⟩
  · exact (hnext.failed_of_response hf').imp_left fun hf => ⟨page, hk, hf⟩
  · cases hf'

section

variable {users : Users} {accounts : List Account} {accepts : String → String → Bool}
  {currentUsers : ℕ → Option String} {i k : ℕ} {es : List AppsEvent} {page : ProfilePage}

/-- A fetch that failed did so in a step of the run. -/
theorem Apps.offline_mem {f : ℕ} {text : String}
    (hf : (Machine.run Apps.step (Apps.start users accounts accepts currentUsers) es).Failed i k f
      text) : .client i (.offline k f text) ∈ es := by
  have hstart : ¬ (Apps.start users accounts accepts currentUsers).Failed i k f text :=
    fun ⟨_, h, _⟩ => by cases h
  obtain ⟨pre, e, post, rfl, rfl⟩ := Machine.exists_split_of_run_of_invariant
    (fun s : Apps => s.Failed i k f text) (fun _ e h => Apps.loads_step h e)
    (fun _ _ h => Apps.failed_of_step h) Apps.loads_start hstart hf
  exact List.mem_append_right _ List.mem_cons_self

/-- **An error on a profile page has a cause**, from well-formed documents: the wallet was empty
when it was read, since the page was opened, or else its first fetch failed. -/
theorem profile_errors_have_causes
    (hwell : ∀ uid doc, users.get uid = some doc → WellFormed doc) {s : Apps}
    (hs : s = Machine.run Apps.step (Apps.start users accounts accepts currentUsers) es)
    (hk : (s.clients i).profiles k = some page) {e : Raised}
    (hshows : page.snapshot = some (.error e)) :
    (e = .exception "Add your first NFT" ∧ ∃ pre post, es = pre ++ post ∧
      (((Machine.run Apps.step (Apps.start users accounts accepts currentUsers) pre).clients
        i).profiles k).isSome ∧
      (Machine.run Apps.step (Apps.start users accounts accepts currentUsers) pre).users.allNFTs
        page.uid = .ok (some ⟨[]⟩)) ∨
      ∃ text, .client i (.offline k 0 text) ∈ es ∧
        initNFTs page.uid (.error text) = .error e := by
  subst hs
  have hsound := (Apps.loads_run Apps.loads_start es i).sound k page hk
  have hsince := Apps.since_opened es hk
  rcases hsince.opened hsound hshows with ⟨_, v, -, -, hv⟩ | ⟨e', response, he, hresponse, hinit⟩
  · cases hv
  · obtain rfl := Except.error.inj he
    cases response with
    | error text => exact .inr ⟨text, Apps.offline_mem ⟨page, hk, hresponse⟩, hinit⟩
    | ok docs =>
      rcases hsince.served 0 docs (hsound.answers 0 docs hresponse) with
        hold | ⟨pre, post, hsplit, hopen, rfl⟩
      · cases hold
      · obtain ⟨hmessage, hempty⟩ := empty_of_initNFTs
          (fun doc hdoc => (Apps.allStore_run hwell pre).users page.uid doc hdoc) hinit
        exact .inl ⟨hmessage, pre, post, hsplit, hopen, hempty⟩

end

/-- Ann has registered, and has no entry yet. -/
def annRegistered : Apps :=
  .start oneUser [⟨"ann", "ann@mail.com", none⟩] (fun _ _ => true) fun _ => none

theorem profile_errors_have_causes_empty :
    ∃ pre post, signingIn 0 = pre ++ post ∧
      (((Machine.run Apps.step annRegistered pre).clients 0).profiles 1).isSome ∧
      (Machine.run Apps.step annRegistered pre).users.allNFTs "ann" = .ok (some ⟨[]⟩) := by
  have hpage : ((Machine.run Apps.step annRegistered (signingIn 0)).clients 0).profiles 1 = some _ :=
    rfl
  rcases profile_errors_have_causes wellFormed_oneUser rfl hpage rfl with
    ⟨-, hempty⟩ | ⟨text, hmem, -⟩
  · exact hempty
  · simp [signingIn] at hmem

end FlutterThree
