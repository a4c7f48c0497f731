import FlutterThree.ClientView
import FlutterThree.UpToDate

/-!
# What a user can get done

From every state the apps can reach, a handler that is pressed gets to its end when the calls it
makes are answered: no press of the user before, and nothing that the other apps have under way,
stands in its way. The runs here are those of one client app whose calls are answered one after the
other.

`uploads_can_be_completed`: the entry of an `UploadPage` is shown by the page below, and its link
serves the file. `newcomers_can_sign_in`: a registration makes an account and a document that a
sign-in on the page below finds.
-/

namespace FlutterThree

open Dart Firestore Flutter

/-! ## The pages below -/

/-- What the pages of the client app are pushed on. -/
def ClientPage.LiesOn : ClientPage → Option ClientPage → Prop
  | .register _ _ _, below => ∃ email password, below = some (.login email password)
  | .upload uid _ _, below => below = some (.profile uid)
  | .details, below => ∃ uid, below = some (.profile uid)
  | _, _ => True

theorem ClientPage.LiesOn.mapFields {r : ClientPage} {below : Option ClientPage}
    (h : r.LiesOn below) (f g : BlocStream → Field → Field) :
    (r.mapFields f).LiesOn (below.map (.mapFields g)) := by
  cases r with
  | register name email password =>
    obtain ⟨email', password', rfl⟩ := h
    exact ⟨_, _, rfl⟩
  | upload uid name description =>
    obtain rfl : below = some (.profile uid) := h
    rfl
  | details =>
    obtain ⟨uid, rfl⟩ := h
    exact ⟨uid, rfl⟩
  | _ => trivial

def Client.Layered (c : Client) : Prop := c.nav.Rests ClientPage.LiesOn

section

variable {c : Client}

theorem Client.layered_start (currentUser : Option String) :
    (Client.start currentUser).Layered := Navigator.rests_home trivial

/-- Typing changes the fields of the pages only. -/
theorem ClientPage.exists_mapFields (own : Prop) [Decidable own] (x : BlocStream) (text : String) :
    ∃ f, ∀ p : ClientPage, (if own then p.type x text else p).hear x (x.validate text) =
      p.mapFields f := by
  by_cases h : own
  · refine ⟨fun y f => if y = x then ⟨some text, some (x.validate text)⟩ else f, fun p => ?_⟩
    rw [if_pos h]
    cases p <;> simp only [type, hear, mapFields] <;> congr 1 <;> split <;> rfl
  · refine ⟨fun y f => if y = x then { f with snapshot := some (x.validate text) } else f,
      fun p => ?_⟩
    rw [if_neg h]
    rfl

theorem Client.Layered.pushReplacement (h : c.Layered) {r : ClientPage}
    (hr : ∀ below, r.LiesOn below) : (c.nav.pushReplacement r).Rests ClientPage.LiesOn :=
  Navigator.Rests.pushReplacement h hr

theorem Client.Layered.moved (h : c.Layered) (e : ClientEvent) :
    (c.moved e).Rests ClientPage.LiesOn := by
  have hpush : ∀ {p r}, c.nav.top = some p → r.LiesOn (some p.route) →
      (c.nav.push r).Rests ClientPage.LiesOn := by
    intro p r htop hr
    refine Navigator.Rests.push h ?_
    rw [htop]
    exact hr
  cases e with
  | signIn page uid =>
    simp only [Client.moved, ClientApp.step]
    split
    · exact h.pushReplacement fun _ => trivial
    · exact h
  | logout =>
    simp only [Client.moved, ClientApp.step]
    split
    · exact h.pushReplacement fun _ => trivial
    · exact h
  | openRegister =>
    simp only [Client.moved, ClientApp.step]
    split
    · rename_i k email password htop
      exact hpush htop ⟨email, password, rfl⟩
    · exact h
  | openUpload =>
    simp only [Client.moved, ClientApp.step]
    split
    · rename_i k uid htop
      exact hpush htop rfl
    · exact h
  | openDetails =>
    simp only [Client.moved, ClientApp.step]
    split
    · rename_i k uid htop
      exact hpush htop ⟨uid, rfl⟩
    · exact h
  | back =>
    simp only [Client.moved, ClientApp.step]
    split
    · exact Navigator.Rests.pop h
    · exact h
  | settle => exact Navigator.Rests.settle h
  | type x text =>
    simp only [Client.moved, ClientApp.step]
    split
    · rename_i top htop
      split
      · refine Navigator.Rests.modify h fun i j r below hr => ?_
        obtain ⟨f, hf⟩ := ClientPage.exists_mapFields (i = top.id) x text
        obtain ⟨g, hg⟩ := ClientPage.exists_mapFields (j = top.id) x text
        rw [hf, funext hg]
        exact hr.mapFields f g
      · exact h
    · exact h
  | press q =>
    simp only [Client.moved, ClientApp.step]
    split <;> exact h
  | _ => exact h

theorem Client.Layered.step (h : c.Layered) (b : Backend) (a : ClientAction) :
    (c.step b a).2.Layered := by
  have hpop : ∀ page, (popOf page c.nav).Rests ClientPage.LiesOn := by
    intro page
    unfold popOf
    split
    · exact Navigator.Rests.pop h
    · exact h
  have heffect := c.effect b a
  generalize c.step b a = x at heffect
  unfold Client.Layered
  cases heffect with
  | moved e he => exact h.moved e
  | opened e he =>
    rw [nav_goTo]
    exact h.moved e
  | loaded k page e hk he ha =>
    rw [nav_load]
    exact h
  | entered q page uid hacc hpage hstack => exact h.moved (.signIn page uid)
  | finished q page => exact hpop page
  | refreshed q page k =>
    rw [nav_load]
    exact hpop page
  | _ => exact h

end

/-! ## An upload -/

/-- A press of 'Select file and upload' on the page on top, with every call answered. -/
def answeredPost (q : ℕ) (file : PickedFile) (url : String) : List ClientAction :=
  [.press q, .pick q (some file), .put q, .link q url, .update q, .finish q]

/-- The services after an upload. -/
def Backend.posted (b : Backend) (uid : String) (nft : NftArt) (file : PickedFile) : Backend :=
  { b with
    db := b.db.step (.upload uid nft)
    bucket := (b.bucket.put (objectPath file) file.bytes).issue nft.image (objectPath file) }

section

variable {b : Backend} {c : Client} {q k : ℕ}

/-- A call of `postNFT` that is not the last. -/
theorem Client.postNFT_of_stage {stage : UploadStage}
    (hq : c.jobs q = some (.upload ⟨k, stage⟩)) (hstage : ∀ file nft, stage ≠ .update file nft)
    (e : UploadEvent) : c.postNFT b q e = c.withUploads b q e := by
  simp only [postNFT, hq]

theorem Client.step_press {uid : String} {name description : Field}
    (htop : c.nav.top = some ⟨k, .upload uid name description⟩) (hq : c.jobs q = none)
    (hname : (c.uploadPages k).name ≠ "") (hdescription : (c.uploadPages k).description ≠ "") :
    c.step b (.press q) = (b, c.setJob q (some (.upload ⟨k, .pickImage⟩))) := by
  have hfree : (c.uploads b).presses q = none := by
    change (c.jobs q).bind _ = none
    rw [hq]
    rfl
  have hpages : (c.uploads b).pages = c.uploadPages := rfl
  simp only [step, press, hq, htop, withUploads, Uploads.step, hfree, hpages,
    if_neg (not_or.mpr ⟨hname, hdescription⟩), Uploads.setPress, Function.update_self,
    Option.map_some]
  rfl

theorem Client.step_pick (hq : c.jobs q = some (.upload ⟨k, .pickImage⟩)) (file : PickedFile) :
    c.step b (.pick q (some file)) = (b, c.setJob q (some (.upload ⟨k, .put file⟩))) := by
  change c.postNFT b q (.pick q (some file)) = _
  rw [postNFT_of_stage hq fun _ _ h => by cases h]
  simp only [withUploads, Uploads.step, presses_uploads.mpr hq, Uploads.setPress,
    Function.update_self, Option.map_some]
  rfl

theorem Client.step_put {file : PickedFile} (hq : c.jobs q = some (.upload ⟨k, .put file⟩)) :
    c.step b (.put q) = ({ b with bucket := b.bucket.put (objectPath file) file.bytes },
      c.setJob q (some (.upload ⟨k, .getDownloadURL file⟩))) := by
  change c.postNFT b q (.put q) = _
  rw [postNFT_of_stage hq fun _ _ h => by cases h]
  simp only [withUploads, Uploads.step, presses_uploads.mpr hq, Uploads.setPress,
    Function.update_self, Option.map_some]
  rfl

theorem Client.step_link {file : PickedFile} {url : String}
    (hq : c.jobs q = some (.upload ⟨k, .getDownloadURL file⟩))
    (hurl : b.bucket.CanIssue url (objectPath file)) :
    c.step b (.link q url) = ({ b with bucket := b.bucket.issue url (objectPath file) },
      c.setJob q (some (.upload
        ⟨k, .update file ⟨(c.uploadPages k).name, url, (c.uploadPages k).description⟩⟩))) := by
  change c.postNFT b q (.link q url) = _
  rw [postNFT_of_stage hq fun _ _ h => by cases h]
  have hbucket : (c.uploads b).bucket = b.bucket := rfl
  simp only [withUploads, Uploads.step, presses_uploads.mpr hq, hbucket, if_pos hurl,
    Uploads.setPress, Function.update_self, Option.map_some]
  rfl

theorem Client.step_update {file : PickedFile} {nft : NftArt}
    (hq : c.jobs q = some (.upload ⟨k, .update file nft⟩))
    (hdoc : (b.db.users.get (c.uploadPages k).uid).isSome) :
    c.step b (.update q) = ({ b with db := b.db.step (.upload (c.uploadPages k).uid nft) },
      c.setJob q (some (.closing k true))) := by
  simp only [step, postNFT, hq, withUploads_update hq, if_pos hdoc, setJob_setJob]

/-- The `pop` of a `postNFT` whose page is on top, and the refresh of the page below. -/
theorem Client.step_finish {uid : String} {name description : Field} {below : Page ClientPage}
    (hq : c.jobs q = some (.closing k true))
    (htop : c.nav.top = some ⟨k, .upload uid name description⟩)
    (hbelow : c.nav.pop.top = some below) :
    c.step b (.finish q) =
      (b, ({ c with nav := c.nav.pop }.setJob q none).load below.id .refresh) := by
  have hfind : (c.nav.find k).isSome := by
    rw [Navigator.find_of_mem (Navigator.mem_mounted_of_top htop)]
    rfl
  have hpop : popOf k c.nav = c.nav.pop := if_pos hfind
  simp only [step, hq, finish, hfind, and_self, if_true, htop, hbelow, hpop]

theorem Client.run_answeredPost {uid : String} {name description : Field}
    (htop : c.nav.top = some ⟨k, .upload uid name description⟩)
    (hpage : c.uploadPages k = ⟨uid, name.text, description.text⟩) (hname : name.text ≠ "")
    (hdescription : description.text ≠ "") (hq : c.jobs q = none)
    (hdoc : (b.db.users.get uid).isSome) (file : PickedFile) {url : String}
    (hurl : b.bucket.CanIssue url (objectPath file)) {below : Page ClientPage}
    (hbelow : c.nav.pop.top = some below) :
    Client.run (b, c) (answeredPost q file url) =
      (b.posted uid ⟨name.text, url, description.text⟩ file,
        ({ c with nav := c.nav.pop }.setJob q none).load below.id .refresh) := by
  have hjob : ∀ job, (c.setJob q job).jobs q = job := fun job => Function.update_self _ _ _
  have hpages : ∀ job, (c.setJob q job).uploadPages k = ⟨uid, name.text, description.text⟩ :=
    fun _ => hpage
  have hlink := fun job hq => Client.step_link (q := q) (k := k)
    (b := { b with bucket := b.bucket.put (objectPath file) file.bytes }) (c := c.setJob q job) hq
    hurl
  rw [answeredPost, run_cons, step_press htop hq (by rw [hpage]; exact hname)
      (by rw [hpage]; exact hdescription), run_cons, step_pick (hjob _), setJob_setJob,
    run_cons, step_put (hjob _), setJob_setJob, run_cons, hlink _ (hjob _), setJob_setJob, hpages,
    run_cons, step_update (hjob _) (by rw [hpages]; exact hdoc), setJob_setJob, hpages, run_cons,
    step_finish (hjob _) htop hbelow]
  simp only [setJob, Function.update_idem]
  rfl

end

/-- A call that is answered changes the profile pages only. -/
theorem Apps.exists_finishing (s : Apps) (i k f : ℕ) : ∃ profiles,
    (Machine.run Apps.step s (finishing i k f)).clients i =
      { s.clients i with profiles := profiles } := by
  have hload : ∀ (c : Client) e, ∃ profiles, c.load k e = { c with profiles := profiles } := by
    intro c e
    unfold Client.load
    split
    · exact ⟨_, rfl⟩
    · exact ⟨_, rfl⟩
  have hserve : ∀ (c : Client) b, ∃ profiles, c.serve b k f = { c with profiles := profiles } := by
    intro c b
    unfold Client.serve
    split
    · split
      · exact ⟨_, rfl⟩
      · exact ⟨_, rfl⟩
    · exact ⟨_, rfl⟩
  have hanswer : ∀ c : Client, ∃ profiles, c.answer k f = { c with profiles := profiles } := by
    intro c
    unfold Client.answer
    split
    · exact hload c _
    · exact ⟨_, rfl⟩
  simp only [finishing, Machine.run, List.foldl, Apps.step, Apps.clients_setClient, Client.step]
  obtain ⟨served, hserved⟩ := hserve (s.clients i) s.backend
  obtain ⟨answered, hanswered⟩ := hanswer { s.clients i with profiles := served }
  obtain ⟨woken, hwoken⟩ := hload { s.clients i with profiles := answered } (.wake f)
  exact ⟨woken, by rw [hserved, hanswered, hwoken]⟩

theorem Apps.nav_finishing (s : Apps) (i k f : ℕ) :
    ((Machine.run Apps.step s (finishing i k f)).clients i).nav = (s.clients i).nav := by
  obtain ⟨profiles, h⟩ := s.exists_finishing i k f
  rw [h]

section

variable {users : Users} {accounts : List Account} {accepts : String → String → Bool}
  {currentUsers : ℕ → Option String} {es : List AppsEvent} {s : Apps} {i q k : ℕ}

theorem Apps.layered_run
    (hs : s = Machine.run Apps.step (Apps.start users accounts accepts currentUsers) es) (i : ℕ) :
    (s.clients i).Layered := by
  rw [hs]
  exact Apps.run_clients (fun c b a h => h.step b a) (Client.layered_start _) es

theorem Apps.typed_run
    (hs : s = Machine.run Apps.step (Apps.start users accounts accepts currentUsers) es) (i : ℕ) :
    (s.clients i).Typed := by
  rw [hs]
  exact Apps.run_clients (fun c b a h => h.step b a) (Client.typed_start _) es

/-- **An upload can be completed** from every state, whatever else is under way: when the calls of
the press are answered, and those of the refresh that follows, the page below shows the entry, and
the link in it serves the file. -/
theorem uploads_can_be_completed
    (hwell : ∀ uid doc, users.get uid = some doc → WellFormed doc)
    (hs : s = Machine.run Apps.step (Apps.start users accounts accepts currentUsers) es)
    {uid : String} {name description : Field}
    (htop : (s.clients i).nav.top = some ⟨k, .upload uid name description⟩)
    (hname : name.text ≠ "") (hdescription : description.text ≠ "")
    (hq : (s.clients i).jobs q = none) (hdoc : (s.users.get uid).isSome) (file : PickedFile)
    {url : String} (hurl : s.bucket.CanIssue url (objectPath file)) :
    ∃ k' f s' page shown, s' = Machine.run Apps.step s
        ((answeredPost q file url).map (.client i) ++ finishing i k' f) ∧
      (s'.clients i).nav.top = some ⟨k', .profile uid⟩ ∧
      (s'.clients i).profiles k' = some page ∧ page.snapshot = some (.ok (some shown)) ∧
      ⟨name.text, url, description.text⟩ ∈ shown.all.map NFT.entry ∧
      s'.bucket.serve url = some file.bytes := by
  obtain ⟨hloads, hbacked⟩ := Apps.backed_run hs i
  have hpage := Apps.typed_run hs i _ (Navigator.mem_mounted_of_top htop) uid name description rfl
  -- the page below is the one the `UploadPage` was opened on
  have hbelow : (s.clients i).nav.pop.top.map Page.route = some (.profile uid) :=
    (Apps.layered_run hs i).top htop
  obtain ⟨⟨k', route⟩, hbelow, rfl⟩ := Option.map_eq_some_iff.mp hbelow
  have hmounted := Navigator.mem_mounted_pop.mp (Navigator.mem_mounted_of_top hbelow)
  obtain ⟨page, hk, rfl⟩ := hbacked _ hmounted uid rfl
  have hrun := Client.run_answeredPost (b := s.backend) htop hpage hname hdescription hq hdoc file
    hurl hbelow
  have hposted := (Apps.run_client s i (answeredPost q file url)).trans
    (congrArg (s.setClient i) hrun)
  obtain ⟨t, ht⟩ : ∃ t, t = Machine.run Apps.step s ((answeredPost q file url).map (.client i)) :=
    ⟨_, rfl⟩
  rw [← ht] at hposted
  have hclient : t.clients i =
      ({ s.clients i with nav := (s.clients i).nav.pop }.setJob q none).load k' .refresh := by
    rw [hposted, Apps.clients_setClient]
  have hk' : (t.clients i).profiles k' = some page.refresh := by
    rw [hclient]
    exact Client.profiles_load (c := { s.clients i with nav := _ }.setJob q none) hk .refresh
  have hnav : (t.clients i).nav = (s.clients i).nav.pop := by
    rw [hclient, Client.nav_load]
    rfl
  -- the refresh reads the store after the upload
  have hstore : AllStore ShowsTexts s.admin.db := by
    rw [hs]
    exact Apps.allStore_run hwell es
  have hhas : t.users.Has page.uid ⟨name.text, url, description.text⟩ := by
    obtain ⟨doc, hget⟩ := Option.isSome_iff_exists.mp hdoc
    obtain ⟨p, hp⟩ := hstore.users _ doc hget
    rw [hposted]
    exact Db.has_upload hget hp.wellFormed ⟨name.text, url, description.text⟩
  obtain ⟨shown, hshown, hmem⟩ := hhas.allNFTs
  have hsnapshot := (hloads.sound k' page hk).snapshot_refresh
    ((ProfilePage.tried_docs page.uid t.users).trans hshown)
  refine ⟨k', page.allNFTs.current + 1, Machine.run Apps.step t (finishing i k' _), _, shown, ?_,
    ?_, Apps.profile_finishing hk' _, hsnapshot, hmem, ?_⟩
  · rw [Machine.run_append, ← ht]
  · rw [Apps.nav_finishing, hnav]
    exact hbelow
  · have hbucket : (Machine.run Apps.step t (finishing i k' (page.allNFTs.current + 1))).bucket =
      (s.bucket.put (objectPath file) file.bytes).issue url (objectPath file) := by
        have hkeep : ∀ f, (Machine.run Apps.step t (finishing i k' f)).bucket = t.bucket :=
          fun f => rfl
        rw [hkeep, hposted]
        rfl
    rw [hbucket, Storage.Bucket.serve, Storage.Bucket.issued_issue_self, Option.bind_some]
    exact Function.update_self _ _ _

end

/-- The first press of Ann is about to write; she presses again, and picks another file. -/
theorem uploads_can_be_completed_hill :
    ∃ k' f s' page shown, s' = Machine.run Apps.step picked
        ((answeredPost 2 ⟨"top.png", []⟩ "top").map (.client 1) ++ finishing 1 k' f) ∧
      (s'.clients 1).nav.top = some ⟨k', .profile "ann"⟩ ∧
      (s'.clients 1).profiles k' = some page ∧ page.snapshot = some (.ok (some shown)) ∧
      ⟨"Hill", "top", "On a hill"⟩ ∈ shown.all.map NFT.entry ∧
      s'.bucket.serve "top" = some [] := by
  have htop : (picked.clients 1).nav.top = some ⟨2, .upload "ann" _ _⟩ := rfl
  have hname : "Hill" ≠ "" := by decide
  have hdescription : "On a hill" ≠ "" := by decide
  exact uploads_can_be_completed wellFormed_seaUsers rfl htop hname hdescription rfl rfl
    ⟨"top.png", []⟩ (.inl rfl)

/-! ## A registration -/

/-- A press of 'Register' on the page on top, with every call answered. -/
def answeredRegister (q : ℕ) (uid : String) : List ClientAction :=
  [.press q, .createUser q uid .user, .updateProfile q true, .reload q, .readCurrentUser q,
    .set q true, .finish q]

/-- A press on page `k` with these texts. -/
def RegisterPage.pressed (texts : RegisterPage) (k : ℕ) (stage : RegisterStage) : RegisterPress :=
  ⟨k, texts.email, texts.password, texts.name, stage⟩

/-- `uid` gets a display name. -/
def named (accounts : List Account) (uid name : String) : List Account :=
  accounts.map fun a => if a.uid = uid then { a with displayName := some name } else a

/-- The services after a registration. -/
def Backend.registered (b : Backend) (uid : String) (texts : RegisterPage) : Backend :=
  { b with
    accounts := named (b.accounts ++ [⟨uid, texts.email, none⟩]) uid texts.name
    db := b.db.step (.register uid texts.name) }

section

variable {b : Backend} {c : Client} {q k : ℕ} {texts : RegisterPage} {user : String}

/-- A call of `postRegister` that is not the last. -/
theorem Client.postRegister_of_stage {stage : RegisterStage}
    (hq : c.jobs q = some (.register (texts.pressed k stage)))
    (hstage : ∀ user name account clean, stage ≠ .set user name account clean)
    (e : RegisterEvent) : c.postRegister b q e = c.withRegistration b q e := by
  simp only [postRegister, hq, RegisterPage.pressed]

theorem Client.step_pressRegister {name email password : Field}
    (htop : c.nav.top = some ⟨k, .register name email password⟩) (hq : c.jobs q = none) :
    c.step b (.press q) =
      (b, c.setJob q (some (.register ((c.registerPages k).pressed k .createUser)))) := by
  have hfree : (c.registration b).presses q = none := by
    change (c.jobs q).bind _ = none
    rw [hq]
    rfl
  simp only [step, Client.press, hq, htop, withRegistration, Registration.step, hfree,
    Registration.presses_setPress_self, Option.map_some]
  rfl

theorem Client.step_createUser
    (hq : c.jobs q = some (.register (texts.pressed k .createUser)))
    (huid : user ∉ b.accounts.map Account.uid)
    (hemail : texts.email ∉ b.accounts.map Account.email)
    (haccepts : b.accepts texts.email texts.password = true) :
    c.step b (.createUser q user .user) =
      ({ b with accounts := b.accounts ++ [⟨user, texts.email, none⟩] },
        { c with currentUser := some user }.setJob q
          (some (.register (texts.pressed k (.updateProfile user))))) := by
  change c.postRegister b q (.createUser q user .user) = _
  rw [postRegister_of_stage hq fun _ _ _ _ h => by cases h]
  have hnew : ¬ ((c.registration b).HasAccount texts.email ∨
      (c.registration b).accepts texts.email texts.password = false) := by
    rintro (⟨a, ha, hmail⟩ | hno)
    · exact hemail (List.mem_map.mpr ⟨a, ha, hmail⟩)
    · cases haccepts.symm.trans hno
  have hfresh : user ∉ (c.registration b).accounts.map Account.uid := huid
  simp only [withRegistration, Registration.step, presses_registration.mpr hq, Registration.resume,
    RegisterPage.pressed, Registration.create, if_neg hnew, if_neg hfresh,
    Registration.presses_setPress_self, Option.map_some]
  rfl

theorem Client.step_updateProfile
    (hq : c.jobs q = some (.register (texts.pressed k (.updateProfile user)))) :
    c.step b (.updateProfile q true) =
      ({ b with accounts := named b.accounts user texts.name },
        c.setJob q (some (.register (texts.pressed k (.reload user))))) := by
  change c.postRegister b q (.updateProfile q true) = _
  rw [postRegister_of_stage hq fun _ _ _ _ h => by cases h]
  simp only [withRegistration, Registration.step, presses_registration.mpr hq, Registration.resume,
    RegisterPage.pressed, if_true, Registration.presses_setPress_self, Option.map_some]
  rfl

theorem Client.step_reload (hq : c.jobs q = some (.register (texts.pressed k (.reload user)))) :
    c.step b (.reload q) =
      (b, c.setJob q (some (.register (texts.pressed k (.currentUser user))))) := by
  change c.postRegister b q (.reload q) = _
  rw [postRegister_of_stage hq fun _ _ _ _ h => by cases h]
  simp only [withRegistration, Registration.step, presses_registration.mpr hq, Registration.resume,
    RegisterPage.pressed, Registration.presses_setPress_self, Option.map_some]
  rfl

theorem Client.step_readCurrentUser {account : String}
    (hq : c.jobs q = some (.register (texts.pressed k (.currentUser account))))
    (huser : c.currentUser = some user) :
    c.step b (.readCurrentUser q) = (b, c.setJob q (some (.register
      (texts.pressed k (.set user (c.registerPages k).name account true))))) := by
  change c.postRegister b q (.currentUser q) = _
  rw [postRegister_of_stage hq fun _ _ _ _ h => by cases h]
  have hcurrent : (c.registration b).currentUser = some user := huser
  simp only [withRegistration, Registration.step, presses_registration.mpr hq, Registration.resume,
    RegisterPage.pressed, hcurrent, Registration.postRegister, Registration.presses_setPress_self,
    Option.map_some]
  rfl

theorem Client.step_set {name account : String} {clean : Bool}
    (hq : c.jobs q = some (.register (texts.pressed k (.set user name account clean)))) :
    c.step b (.set q true) = ({ b with db := b.db.step (.register user name) },
      c.setJob q (some (.closing k false))) := by
  simp only [step, postRegister, hq, RegisterPage.pressed, withRegistration_set hq rfl,
    setJob_setJob]

/-- The `pop` of a `postRegister` whose page is on top. -/
theorem Client.step_finishRegister {name email password : Field}
    (hq : c.jobs q = some (.closing k false))
    (htop : c.nav.top = some ⟨k, .register name email password⟩) :
    c.step b (.finish q) = (b, { c with nav := c.nav.pop }.setJob q none) := by
  have hpop : popOf k c.nav = c.nav.pop := if_pos (by
    rw [Navigator.find_of_mem (Navigator.mem_mounted_of_top htop)]
    rfl)
  simp only [step, hq, finish, hpop, Bool.false_eq_true, and_false, if_false]

/-- From the answer of `createUserWithEmailAndPassword` on. -/
theorem Client.run_created {name email password : Field}
    (hq : c.jobs q = some (.register (texts.pressed k (.updateProfile user))))
    (htop : c.nav.top = some ⟨k, .register name email password⟩)
    (htexts : c.registerPages k = texts) (huser : c.currentUser = some user) :
    Client.run (b, c) [.updateProfile q true, .reload q, .readCurrentUser q, .set q true,
        .finish q] =
      ({ b with
          accounts := named b.accounts user texts.name
          db := b.db.step (.register user texts.name) },
        { c with nav := c.nav.pop }.setJob q none) := by
  have hjob : ∀ job, (c.setJob q job).jobs q = job := fun job => Function.update_self _ _ _
  have hpages : ∀ job, (c.setJob q job).registerPages k = texts := fun _ => htexts
  have huser' : ∀ job, (c.setJob q job).currentUser = some user := fun _ => huser
  rw [run_cons, step_updateProfile hq, run_cons, step_reload (hjob _), setJob_setJob, run_cons,
    step_readCurrentUser (hjob _) (huser' _), setJob_setJob, hpages, run_cons, step_set (hjob _),
    setJob_setJob, run_cons, step_finishRegister (hjob _) htop]
  simp only [setJob, Function.update_idem]
  rfl

theorem Client.run_answeredRegister {name email password : Field}
    (htop : c.nav.top = some ⟨k, .register name email password⟩) (hq : c.jobs q = none)
    (htexts : c.registerPages k = texts) (huid : user ∉ b.accounts.map Account.uid)
    (hemail : texts.email ∉ b.accounts.map Account.email)
    (haccepts : b.accepts texts.email texts.password = true) :
    Client.run (b, c) (answeredRegister q user) =
      (b.registered user texts,
        { c with nav := c.nav.pop, currentUser := some user }.setJob q none) := by
  have hjob : ∀ (c : Client) job, (c.setJob q job).jobs q = job :=
    fun c job => Function.update_self _ _ _
  rw [answeredRegister, run_cons, step_pressRegister htop hq, htexts, run_cons,
    step_createUser (hjob c _) huid hemail haccepts]
  have hcreated := Client.run_created
    (b := { b with accounts := b.accounts ++ [⟨user, texts.email, none⟩] })
    (c := { c with currentUser := some user }.setJob q
      (some (.register (texts.pressed k (.updateProfile user))))) (hjob _ _) htop htexts rfl
  simp only [setJob, Function.update_idem] at hcreated ⊢
  exact hcreated

end

/-! ## A sign-in -/

/-- `email` is typed on the login page on top, and a press of 'Sign In' is answered. -/
def answeredSignIn (q : ℕ) (email uid : String) : List ClientAction :=
  [.type .email email, .press q, .signIn q uid]

section

variable {b : Backend} {c : Client} {q k : ℕ} {mail user : String} {email password : Field}

theorem Client.step_type_email (htop : c.nav.top = some ⟨k, .login email password⟩) (b : Backend)
    (mail : String) : ∃ nav email' password',
      c.step b (.type .email mail) = (b, { c with nav := nav }) ∧
      nav.top = some ⟨k, .login email' password'⟩ ∧ email'.text = mail := by
  obtain ⟨nav, hnav⟩ : ∃ nav, nav = c.moved (.type .email mail) := ⟨_, rfl⟩
  have htyped : nav.top =
      some ⟨k, .login ⟨some mail, some (BlocStream.email.validate mail)⟩ password⟩ := by
    rw [hnav]
    simp only [moved, ClientApp.step, htop, ClientPage.field, Option.isSome_some, if_true,
      Navigator.top_modify, Option.map_some]
    rfl
  refine ⟨nav, _, _, ?_, htyped, rfl⟩
  simp only [step, ← hnav, goTo, htyped]

theorem Client.step_pressSignIn (htop : c.nav.top = some ⟨k, .login email password⟩)
    (hq : c.jobs q = none) :
    c.step b (.press q) = (b, c.setJob q (some (.signIn k email.text))) := by
  simp only [step, press, hq, htop]

theorem Client.step_signIn (hq : c.jobs q = some (.signIn k mail))
    (htop : c.nav.top = some ⟨k, .login email password⟩)
    (huser : ∃ a ∈ b.accounts, a.uid = user ∧ a.email = mail) :
    c.step b (.signIn q user) =
      (b, { c.setJob q none with
        nav := c.nav.pushReplacement (.profile user)
        currentUser := some user
        profiles := Function.update c.profiles c.nav.next (some (.initState user)) }) := by
  have hfind := Navigator.find_of_mem (Navigator.mem_mounted_of_top htop)
  have haccount : (b.accounts.any fun a => a.uid = user ∧ a.email = mail) = true := by
    simpa using huser
  have hmoved : c.moved (.signIn k user) = c.nav.pushReplacement (.profile user) := by
    simp only [moved, ClientApp.step, hfind]
  cases hstack : c.nav.stack with
  | nil =>
    rw [Navigator.top, hstack] at htop
    cases htop
  | cons p ps =>
    simp only [step, postLogin, hq, if_pos haccount, hfind, hstack, hmoved]
    rfl

theorem Client.run_answeredSignIn (htop : c.nav.top = some ⟨k, .login email password⟩)
    (hq : c.jobs q = none) (huser : ∃ a ∈ b.accounts, a.uid = user ∧ a.email = mail) :
    ∃ k' c', Client.run (b, c) (answeredSignIn q mail user) = (b, c') ∧
      c'.nav.top = some ⟨k', .profile user⟩ ∧ c'.currentUser = some user ∧
      c'.profiles k' = some (.initState user) := by
  obtain ⟨nav, email', password', htype, htyped, htext⟩ := Client.step_type_email htop b mail
  have hpress := Client.step_pressSignIn (b := b) (c := { c with nav := nav }) htyped hq
  rw [htext] at hpress
  have hsign := Client.step_signIn (b := b)
    (c := { c with nav := nav }.setJob q (some (.signIn k mail))) (Function.update_self _ _ _) htyped huser
  have htop' : (nav.pushReplacement (.profile user)).top = some ⟨nav.next, .profile user⟩ := by
    cases hstack : nav.stack with
    | nil =>
      rw [Navigator.top, hstack] at htyped
      cases htyped
    | cons p ps => exact Navigator.top_of_stack (Navigator.stack_pushReplacement hstack _)
  rw [answeredSignIn, run_cons, htype, run_cons, hpress, run_cons, hsign]
  exact ⟨nav.next, _, rfl, htop', rfl, Function.update_self _ _ _⟩

end

/-- The document of a registration holds no entry. -/
theorem initNFTs_registerDoc {users : Users} {uid name : String}
    (h : users.get uid = some (registerDoc name)) :
    initNFTs uid (.ok users.docs) = .error (.exception "Add your first NFT") := by
  unfold initNFTs
  rw [forUser_docs, h]
  rfl

section

variable {users : Users} {accounts : List Account} {accepts : String → String → Bool}
  {currentUsers : ℕ → Option String} {es : List AppsEvent} {s : Apps} {i q k : ℕ}

/-- **A newcomer can sign in** from every state with a `RegisterPage` on top, whatever else is under
way: when the calls of the press are answered, the account and the document are there, and a sign-in
on the page below opens a `ProfilePage` that asks for the first entry. -/
theorem newcomers_can_sign_in
    (hs : s = Machine.run Apps.step (Apps.start users accounts accepts currentUsers) es)
    {name email password : Field}
    (htop : (s.clients i).nav.top = some ⟨k, .register name email password⟩)
    {texts : RegisterPage} (htexts : (s.clients i).registerPages k = texts)
    (hq : (s.clients i).jobs q = none) {user : String}
    (huser : user ∉ s.accounts.map Account.uid)
    (hemail : texts.email ∉ s.accounts.map Account.email)
    (haccepts : s.accepts texts.email texts.password = true) :
    ∃ k' s' page, s' = Machine.run Apps.step s
        ((answeredRegister q user ++ answeredSignIn q texts.email user).map (.client i) ++
          finishing i k' 0) ∧
      s'.users.get user = some (registerDoc texts.name) ∧
      ⟨user, texts.email, some texts.name⟩ ∈ s'.accounts ∧
      (s'.clients i).nav.top = some ⟨k', .profile user⟩ ∧
      (s'.clients i).currentUser = some user ∧ (s'.clients i).profiles k' = some page ∧
      page.snapshot = some (.error (.exception "Add your first NFT")) := by
  -- the `RegisterPage` was opened on a login page
  obtain ⟨email', password', hbelow⟩ := (Apps.layered_run hs i).top htop
  obtain ⟨⟨k₀, route⟩, hbelow, rfl⟩ := Option.map_eq_some_iff.mp hbelow
  have hregister := Client.run_answeredRegister (b := s.backend) htop hq htexts huser hemail
    haccepts
  have hmem : ⟨user, texts.email, some texts.name⟩ ∈
      named (s.accounts ++ [⟨user, texts.email, none⟩]) user texts.name := by
    have hlast : (⟨user, texts.email, none⟩ : Account) ∈ s.accounts ++ [⟨user, texts.email, none⟩] :=
      List.mem_append_right _ List.mem_cons_self
    exact List.mem_map.mpr ⟨_, hlast, if_pos rfl⟩
  obtain ⟨k', c', hsign, htop', hcurrent, hprofile⟩ := Client.run_answeredSignIn
    (b := s.backend.registered user texts)
    (c := { s.clients i with nav := (s.clients i).nav.pop, currentUser := some user }.setJob q none)
    hbelow (Function.update_self _ _ _) ⟨_, hmem, rfl, rfl⟩
  have hrun : Client.run (s.backend, s.clients i)
      (answeredRegister q user ++ answeredSignIn q texts.email user) = (_, c') :=
    (Machine.run_append _ _ _ _).trans ((congrArg (Client.run · _) hregister).trans hsign)
  obtain ⟨t, ht⟩ : ∃ t, t = s.setClient i (s.backend.registered user texts, c') := ⟨_, rfl⟩
  have hclient : t.clients i = c' := by rw [ht, Apps.clients_setClient]
  have hdoc : t.users.get user = some (registerDoc texts.name) := by
    rw [ht]
    exact (Collection.get_set _ _ _ _).trans (if_pos rfl)
  obtain ⟨profiles, hfinish⟩ := t.exists_finishing i k' 0
  refine ⟨k', Machine.run Apps.step t (finishing i k' 0), _, ?_, hdoc, ?_, ?_, ?_,
    Apps.profile_finishing (hclient ▸ hprofile) 0, ?_⟩
  · rw [Machine.run_append, Apps.run_client, hrun, ht]
  · rw [ht]
    exact hmem
  · rw [hfinish, hclient]
    exact htop'
  · rw [hfinish, hclient]
    exact hcurrent
  · rw [ProfilePage.snapshot_initState, initNFTs_registerDoc hdoc]

end

/-- Bob has filled in the form, with a press of Ann on another device under way. -/
def filledIn : Apps :=
  Machine.run Apps.step picked
    [.client 0 .logout, .client 0 .openRegister, .client 0 (.type .email "bob@mail.com"),
      .client 0 (.type .name "Bob"), .client 0 (.type .password "secret")]

theorem newcomers_can_sign_in_bob :
    ∃ k' s' page, s' = Machine.run Apps.step filledIn
        ((answeredRegister 0 "bob" ++ answeredSignIn 0 "bob@mail.com" "bob").map (.client 0) ++
          finishing 0 k' 0) ∧
      s'.users.get "bob" = some (registerDoc "Bob") ∧
      ⟨"bob", "bob@mail.com", some "Bob"⟩ ∈ s'.accounts ∧
      (s'.clients 0).nav.top = some ⟨k', .profile "bob"⟩ ∧
      (s'.clients 0).currentUser = some "bob" ∧ (s'.clients 0).profiles k' = some page ∧
      page.snapshot = some (.error (.exception "Add your first NFT")) := by
  have hs : filledIn = Machine.run Apps.step annsDevices _ := (Machine.run_append _ _ _ _).symm
  have htop : (filledIn.clients 0).nav.top = some ⟨3, .register _ _ _⟩ := rfl
  have htexts : (filledIn.clients 0).registerPages 3 = ⟨"bob@mail.com", "Bob", "secret"⟩ := rfl
  have huser : "bob" ∉ filledIn.accounts.map Account.uid := by decide
  have hemail : "bob@mail.com" ∉ filledIn.accounts.map Account.email := by decide
  exact newcomers_can_sign_in hs htop htexts rfl huser hemail rfl

end FlutterThree
