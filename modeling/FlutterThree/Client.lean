import FlutterThree.ClientApp
import FlutterThree.Refresh
import FlutterThree.Upload
import FlutterThree.Register

/-!
# A running client app

`FlutterThree.ClientApp`, `FlutterThree.Refresh`, `FlutterThree.Upload` and `FlutterThree.Register`
each look at one side of the client app. Here they make up one app: its pages, the account that is
signed in, the wallets its `ProfilePage`s hold, and the handlers that wait for an answer. A `Client`
runs against a `Backend`, which other apps use as well.

The remote calls are those of the four modules, on a view of the app: `Client.withUploads` and
`Client.withRegistration`. New here are `postLogin`, the `pop` with a result at the end of a
`postNFT`, and that a `get` is processed before its answer arrives.
-/

namespace FlutterThree

open Dart Firestore Storage Flutter

/-! ## State -/

/-- The services that all apps share. -/
structure Backend where
  db : Db
  bucket : Bucket String String Bytes
  accounts : List Account
  /-- Which credentials the auth service accepts for a new account. -/
  accepts : String → String → Bool

/-- `_ProfilePageState`. -/
structure ProfilePage where
  /-- The id of `_currentUser`. -/
  uid : String
  /-- The calls behind `_allNFTs`. -/
  allNFTs : Loader AllNFT
  /-- The answers to `get()` that are on their way. -/
  served : ℕ → Option (List (String × Fields))

/-- `initState`. -/
def ProfilePage.initState (uid : String) : ProfilePage :=
  ⟨uid, Loader.start (ProfilePage.fetch uid), fun _ => none⟩

/-- What the `FutureBuilder` shows, once `_allNFTs` is complete. -/
def ProfilePage.snapshot (page : ProfilePage) : Option (Except Raised (Option AllNFT)) :=
  page.allNFTs.futures.result page.allNFTs.current

/-- A handler that waits for a remote call. -/
inductive ClientJob where
  | upload (press : UploadPress)
  | register (press : RegisterPress)
  /-- `postLogin` of a login page, with the email it was given. -/
  | signIn (page : ℕ) (email : String)
  /-- The last call of a handler was processed; with the answer the handler pops, with `true` for
  its result or without one. -/
  | closing (page : ℕ) (result : Bool)

def ClientJob.upload? : ClientJob → Option UploadPress
  | .upload press => some press
  | _ => none

def ClientJob.register? : ClientJob → Option RegisterPress
  | .register press => some press
  | _ => none

structure Client where
  nav : Navigator ClientPage
  currentUser : Option String
  /-- The texts in the controllers of the pages; the handlers read them after the page is gone. -/
  uploadPages : ℕ → UploadPage
  registerPages : ℕ → RegisterPage
  profiles : ℕ → Option ProfilePage
  jobs : ℕ → Option ClientJob

/-- The app is started, with the account it has kept. -/
def Client.start (currentUser : Option String) : Client where
  nav := .home (.login .empty .empty)
  currentUser := currentUser
  uploadPages := fun _ => ⟨"", "", ""⟩
  registerPages := fun _ => ⟨"", "", ""⟩
  profiles := fun _ => none
  jobs := fun _ => none

inductive ClientAction where
  | openRegister
  | openUpload
  /-- Card `i` of the grid on top. -/
  | openDetails (i : ℕ)
  | logout
  | back
  | settle
  | type (x : BlocStream) (text : String)
  /-- The refresh button, or the grid is pulled down. -/
  | refresh
  /-- The store processes the `get` of call `f` of `ProfilePage` `k`. -/
  | serve (k f : ℕ)
  /-- Its answer arrives. -/
  | answer (k f : ℕ)
  /-- It raises. -/
  | offline (k f : ℕ) (text : String)
  /-- Its sleep ends. -/
  | wake (k f : ℕ)
  /-- 'Sign In', 'Register' or 'Select file and upload' on the page on top. -/
  | press (q : ℕ)
  /-- `signInWithEmailAndPassword` signs `uid` in. -/
  | signIn (q : ℕ) (uid : String)
  | pick (q : ℕ) (file : Option PickedFile)
  | put (q : ℕ)
  | link (q : ℕ) (url : String)
  | update (q : ℕ)
  | createUser (q : ℕ) (uid : String) (answer : CreateAnswer)
  | updateProfile (q : ℕ) (answered : Bool)
  | reload (q : ℕ)
  | readCurrentUser (q : ℕ)
  | set (q : ℕ) (answered : Bool)
  /-- The last call of a handler is answered. -/
  | finish (q : ℕ)
  /-- The call the handler waits for raises. -/
  | fail (q : ℕ)
  /-- The app loses its user. -/
  | signOut

/-! ## Handlers -/

def Client.setJob (c : Client) (q : ℕ) (job : Option ClientJob) : Client :=
  { c with jobs := Function.update c.jobs q job }

/-- The pages after an event of `ClientApp`. -/
def Client.moved (c : Client) (e : ClientEvent) : Navigator ClientPage :=
  (ClientApp.step ⟨c.nav, fun _ => none⟩ e).nav

/-- The pages become `n`, and the texts in the fields of the one on top are in its controllers. -/
def Client.goTo (c : Client) (n : Navigator ClientPage) : Client :=
  match n.top with
  | some ⟨k, .register name email password⟩ =>
    { c with
      nav := n
      registerPages := Function.update c.registerPages k ⟨email.text, name.text, password.text⟩ }
  | some ⟨k, .upload uid name description⟩ =>
    { c with
      nav := n
      uploadPages := Function.update c.uploadPages k ⟨uid, name.text, description.text⟩ }
  | _ => { c with nav := n }

/-- The uploads of the app. -/
def Client.uploads (c : Client) (b : Backend) : Uploads :=
  ⟨b.db, b.bucket, c.uploadPages, fun q => (c.jobs q).bind ClientJob.upload?, []⟩

/-- The registrations of the app. -/
def Client.registration (c : Client) (b : Backend) : Registration :=
  ⟨b.accounts, b.accepts, c.currentUser, b.db, c.registerPages,
    fun q => (c.jobs q).bind ClientJob.register?, []⟩

/-- Job `q` takes a step of `FlutterThree.Upload`. -/
def Client.withUploads (c : Client) (b : Backend) (q : ℕ) (e : UploadEvent) : Backend × Client :=
  let s := (c.uploads b).step e
  ({ b with db := s.db, bucket := s.bucket }, c.setJob q ((s.presses q).map .upload))

/-- Job `q` takes a step of `FlutterThree.Register`. -/
def Client.withRegistration (c : Client) (b : Backend) (q : ℕ) (e : RegisterEvent) :
    Backend × Client :=
  let s := (c.registration b).step e
  ({ b with db := s.db, accounts := s.accounts },
    { c with currentUser := s.currentUser }.setJob q ((s.presses q).map .register))

/-- The button of the page on top. -/
def Client.press (c : Client) (b : Backend) (q : ℕ) : Backend × Client :=
  match c.jobs q, c.nav.top with
  | none, some ⟨k, .login email _⟩ => (b, c.setJob q (some (.signIn k email.text)))
  | none, some ⟨k, .register _ _ _⟩ => c.withRegistration b q (.press k q)
  | none, some ⟨k, .upload _ _ _⟩ => c.withUploads b q (.press k q)
  | _, _ => (b, c)

/-- A `postNFT` goes on. -/
def Client.postNFT (c : Client) (b : Backend) (q : ℕ) (e : UploadEvent) : Backend × Client :=
  match c.jobs q with
  | some (.upload press) =>
    let s := c.withUploads b q e
    match press.stage with
    | .update _ _ =>
      match e with
      -- the `pop` comes after an `update` that did not raise
      | .update _ =>
        if (b.db.users.get (c.uploadPages press.page).uid).isSome then
          (s.1, s.2.setJob q (some (.closing press.page true)))
        else s
      | _ => s
    | _ => s
  | _ => (b, c)

/-- A `postRegister` goes on. -/
def Client.postRegister (c : Client) (b : Backend) (q : ℕ) (e : RegisterEvent) :
    Backend × Client :=
  match c.jobs q with
  | some (.register press) =>
    let s := c.withRegistration b q e
    match press.stage with
    | .set _ _ _ _ =>
      match e with
      | .set _ true => (s.1, s.2.setJob q (some (.closing press.page false)))
      | _ => s
    | _ => s
  | _ => (b, c)

/-- `postLogin` with the account that signed in. -/
def Client.postLogin (c : Client) (b : Backend) (q : ℕ) (uid : String) : Client :=
  match c.jobs q with
  | some (.signIn page email) =>
    if (b.accounts.any fun a => a.uid = uid ∧ a.email = email) then
      let c' := { c with currentUser := some uid }.setJob q none
      match c.nav.find page, c.nav.stack with
      | some (.login _ _), _ :: _ =>
        { c' with
          nav := c.moved (.signIn page uid)
          profiles := Function.update c.profiles c.nav.next (some (.initState uid)) }
      | _, _ => c'
    else c
  | _ => c

/-- An event of the calls of `ProfilePage` `k`. -/
def Client.load (c : Client) (k : ℕ) (e : LoaderEvent) : Client :=
  match c.profiles k with
  | some page =>
    { c with
      profiles := Function.update c.profiles k
        (some { page with allNFTs := page.allNFTs.step (ProfilePage.fetch page.uid) e }) }
  | none => c

/-- The `get` of call `f` is processed. -/
def Client.serve (c : Client) (b : Backend) (k f : ℕ) : Client :=
  match c.profiles k with
  | some page =>
    match page.allNFTs.calls f, page.served f with
    | some (.fetching _), none =>
      { c with
        profiles := Function.update c.profiles k
          (some { page with served := Function.update page.served f (some b.db.users.docs) }) }
    | _, _ => c
  | none => c

/-- The answer to the `get` of call `f` arrives, if it is on its way. -/
def Client.answer (c : Client) (k f : ℕ) : Client :=
  match (c.profiles k).bind fun page => page.served f with
  | some docs => c.load k (.respond f (.ok docs))
  | none => c

/-- `Navigator.of(context).pop(..)` of a handler that was started on `page`. The `.then` of the page
below an `UploadPage` refreshes it when the result is true. -/
def Client.finish (c : Client) (q page : ℕ) (result : Bool) : Client :=
  let c' := { c with nav := popOf page c.nav }.setJob q none
  if (c.nav.find page).isSome ∧ result then
    match c.nav.top, c.nav.pop.top with
    -- the page below pushed the one on top
    | some ⟨_, .upload _ _ _⟩, some below => c'.load below.id .refresh
    | _, _ => c'
  else c'

/-- The entry on card `i` of the `ProfilePage` on top. -/
def Client.card (c : Client) (i : ℕ) : Option NFT :=
  match c.nav.top with
  | some ⟨k, .profile _⟩ =>
    match (c.profiles k).bind ProfilePage.snapshot with
    | some (.ok (some shown)) => shown.all[i]?
    | _ => none
  | _ => none

@[simp] theorem Client.nav_goTo (c : Client) (n : Navigator ClientPage) : (c.goTo n).nav = n := by
  unfold goTo
  split <;> rfl

@[simp] theorem Client.currentUser_goTo (c : Client) (n : Navigator ClientPage) :
    (c.goTo n).currentUser = c.currentUser := by
  unfold goTo
  split <;> rfl

@[simp] theorem Client.profiles_goTo (c : Client) (n : Navigator ClientPage) :
    (c.goTo n).profiles = c.profiles := by
  unfold goTo
  split <;> rfl

@[simp] theorem Client.jobs_goTo (c : Client) (n : Navigator ClientPage) :
    (c.goTo n).jobs = c.jobs := by
  unfold goTo
  split <;> rfl

@[simp] theorem Client.nav_load (c : Client) (k : ℕ) (e : LoaderEvent) :
    (c.load k e).nav = c.nav := by
  unfold load
  split <;> rfl

@[simp] theorem Client.currentUser_load (c : Client) (k : ℕ) (e : LoaderEvent) :
    (c.load k e).currentUser = c.currentUser := by
  unfold load
  split <;> rfl

@[simp] theorem Client.uploadPages_load (c : Client) (k : ℕ) (e : LoaderEvent) :
    (c.load k e).uploadPages = c.uploadPages := by
  unfold load
  split <;> rfl

@[simp] theorem Client.jobs_load (c : Client) (k : ℕ) (e : LoaderEvent) :
    (c.load k e).jobs = c.jobs := by
  unfold load
  split <;> rfl

/-! ## Steps -/

def Client.step (b : Backend) (c : Client) : ClientAction → Backend × Client
  | .openRegister => (b, c.goTo (c.moved .openRegister))
  | .openUpload => (b, c.goTo (c.moved .openUpload))
  | .openDetails i =>
    (b, if (c.card i).isSome then { c with nav := c.moved .openDetails } else c)
  | .logout => (b, { c with nav := c.moved .logout })
  | .back => (b, { c with nav := c.moved .back })
  | .settle => (b, { c with nav := c.moved .settle })
  | .type x text => (b, c.goTo (c.moved (.type x text)))
  | .refresh =>
    match c.nav.top with
    | some ⟨k, .profile _⟩ => (b, c.load k .refresh)
    | _ => (b, c)
  | .serve k f => (b, c.serve b k f)
  | .answer k f => (b, c.answer k f)
  | .offline k f text => (b, c.load k (.respond f (.error text)))
  | .wake k f => (b, c.load k (.wake f))
  | .press q => c.press b q
  | .signIn q uid => (b, c.postLogin b q uid)
  | .pick q file => c.postNFT b q (.pick q file)
  | .put q => c.postNFT b q (.put q)
  | .link q url => c.postNFT b q (.link q url)
  | .update q => c.postNFT b q (.update q)
  | .createUser q uid answer => c.postRegister b q (.createUser q uid answer)
  | .updateProfile q answered => c.postRegister b q (.updateProfile q answered)
  | .reload q => c.postRegister b q (.reload q)
  | .readCurrentUser q => c.postRegister b q (.currentUser q)
  | .set q answered => c.postRegister b q (.set q answered)
  | .finish q =>
    match c.jobs q with
    | some (.closing page result) => (b, c.finish q page result)
    | _ => (b, c)
  | .fail q =>
    match c.jobs q with
    | some (.upload _) => c.postNFT b q (.fail q)
    | some (.register _) => c.postRegister b q (.fail q)
    | _ => (b, c.setJob q none)
  | .signOut => (b, { c with currentUser := none })

/-! ## What a step does -/

/-- The ways in which a step changes the app and the services. -/
inductive Client.Effect (b : Backend) (c : Client) (a : ClientAction) :
    Backend × Client → Prop where
  | keep : Effect b c a (b, c)
  | moved (e : ClientEvent)
      (he : e = .logout ∨ e = .openDetails ∨ e = .back ∨ e = .settle) :
      Effect b c a (b, { c with nav := c.moved e })
  | opened (e : ClientEvent)
      (he : e = .openRegister ∨ e = .openUpload ∨ ∃ x text, e = .type x text) :
      Effect b c a (b, c.goTo (c.moved e))
  | loaded (k : ℕ) (page : ProfilePage) (e : LoaderEvent) (hk : c.profiles k = some page)
      (he : ∀ f docs, e = .respond f (.ok docs) → page.served f = some docs)
      (ha : ∀ f text, e = .respond f (.error text) → a = .offline k f text) :
      Effect b c a (b, c.load k e)
  | served (k f : ℕ) (page : ProfilePage) (given : Option ℕ) (hk : c.profiles k = some page)
      (hf : page.allNFTs.calls f = some (.fetching given)) (hfree : page.served f = none) :
      Effect b c a (b, { c with
        profiles := Function.update c.profiles k
          (some { page with served := Function.update page.served f (some b.db.users.docs) }) })
  | pressed (q k : ℕ) (email : String) : Effect b c a (b, c.setJob q (some (.signIn k email)))
  | uploads (q : ℕ) (e : UploadEvent) (he : ∀ e', e ≠ .other e')
      (hk : ∀ k q', e = .press k q' →
        a = .press q' ∧ ∃ uid name description, c.nav.top = some ⟨k, .upload uid name description⟩)
      (ha : ∀ q' file, e = .pick q' file → a = .pick q' file) :
      Effect b c a (c.withUploads b q e)
  | uploaded (q k : ℕ) (file : PickedFile) (nft : NftArt)
      (hq : c.jobs q = some (.upload ⟨k, .update file nft⟩)) :
      Effect b c a ({ b with db := b.db.step (.upload (c.uploadPages k).uid nft) },
        c.setJob q (some (.closing k true)))
  | registration (q : ℕ) (e : RegisterEvent)
      (hnumber : ∀ q' answered, e = .set q' answered → q' = q)
      (hk : ∀ k q', e = .press k q' → a = .press q')
      (ha : ∀ q', e = .currentUser q' → a = .readCurrentUser q') :
      Effect b c a (c.withRegistration b q e)
  | registered (q : ℕ) (press : RegisterPress) (user name account : String) (clean : Bool)
      (hq : c.jobs q = some (.register press))
      (hstage : press.stage = .set user name account clean) :
      Effect b c a ({ b with db := b.db.step (.register user name) },
        c.setJob q (some (.closing press.page false)))
  | signedIn (q : ℕ) (uid : String) (hacc : uid ∈ b.accounts.map Account.uid) :
      Effect b c a (b, { c with currentUser := some uid }.setJob q none)
  | entered (q page : ℕ) (uid : String) (hacc : uid ∈ b.accounts.map Account.uid)
      (hpage : ∃ email password, c.nav.find page = some (.login email password))
      (hstack : c.nav.stack ≠ []) :
      Effect b c a (b, { c with
        currentUser := some uid
        nav := c.moved (.signIn page uid)
        profiles := Function.update c.profiles c.nav.next (some (.initState uid)) }.setJob q none)
  | finished (q page : ℕ) : Effect b c a (b, { c with nav := popOf page c.nav }.setJob q none)
  | refreshed (q page k : ℕ) :
      Effect b c a (b, ({ c with nav := popOf page c.nav }.setJob q none).load k .refresh)
  | ended (q : ℕ) : Effect b c a (b, c.setJob q none)
  | signedOut : Effect b c a (b, { c with currentUser := none })

section

variable {b : Backend} {c : Client} {a : ClientAction}

theorem Client.presses_uploads {q : ℕ} {press : UploadPress} :
    (c.uploads b).presses q = some press ↔ c.jobs q = some (.upload press) := by
  change (c.jobs q).bind ClientJob.upload? = some press ↔ _
  constructor
  · intro h
    obtain ⟨job, hjob, hpress⟩ := Option.bind_eq_some_iff.mp h
    rw [hjob]
    cases job with
    | upload p => rw [Option.some.inj hpress]
    | register p => cases hpress
    | signIn k email => cases hpress
    | closing k result => cases hpress
  · intro h
    rw [h]
    rfl

theorem Client.presses_registration {q : ℕ} {press : RegisterPress} :
    (c.registration b).presses q = some press ↔ c.jobs q = some (.register press) := by
  change (c.jobs q).bind ClientJob.register? = some press ↔ _
  constructor
  · intro h
    obtain ⟨job, hjob, hpress⟩ := Option.bind_eq_some_iff.mp h
    rw [hjob]
    cases job with
    | upload p => cases hpress
    | register p => rw [Option.some.inj hpress]
    | signIn k email => cases hpress
    | closing k result => cases hpress
  · intro h
    rw [h]
    rfl

theorem Client.setJob_setJob (c : Client) (q : ℕ) (job job' : Option ClientJob) :
    (c.setJob q job).setJob q job' = c.setJob q job' := by
  simp only [setJob, Function.update_idem]

theorem Client.effect_load (k : ℕ) {e : LoaderEvent}
    (he : ∀ f docs, e = .respond f (.ok docs) → ∀ page, c.profiles k = some page →
      page.served f = some docs)
    (ha : ∀ f text, e = .respond f (.error text) → a = .offline k f text) :
    Effect b c a (b, c.load k e) := by
  cases hk : c.profiles k with
  | none =>
    have hkeep : c.load k e = c := by rw [load, hk]
    rw [hkeep]
    exact .keep
  | some page => exact .loaded k page e hk (fun f docs heq => he f docs heq page hk) ha

theorem Client.effect_answer (k f : ℕ) : Effect b c a (b, c.answer k f) := by
  unfold answer
  split
  · rename_i docs hdocs
    refine effect_load k (fun f' docs' heq page hk => ?_) fun f' text heq => ?_
    · obtain ⟨rfl, hresponse⟩ := LoaderEvent.respond.inj heq
      rw [← Except.ok.inj hresponse, ← hdocs, hk, Option.bind_some]
    · cases heq
  · exact .keep

theorem Client.effect_serve (k f : ℕ) : Effect b c a (b, c.serve b k f) := by
  unfold serve
  split
  · rename_i page hk
    split
    · rename_i given hf hfree
      exact .served k f page given hk hf hfree
    · exact .keep
  · exact .keep

theorem Client.effect_press (q : ℕ) : Effect b c (.press q) (c.press b q) := by
  unfold press
  split
  · exact .pressed q _ _
  · exact .registration q _ (fun q' x heq => by cases heq) (fun k' q' heq => by cases heq; rfl)
      fun q' heq => by cases heq
  · rename_i k uid name description _ htop
    refine .uploads q _ (fun e' heq => by cases heq) (fun k' q' heq => ?_) fun _ _ heq => by cases heq
    obtain ⟨rfl, rfl⟩ := UploadEvent.press.inj heq
    exact ⟨rfl, uid, name, description, htop⟩
  · exact .keep

/-- Where an `update` is processed. -/
theorem Client.withUploads_update {q k : ℕ} {file : PickedFile} {nft : NftArt}
    (hq : c.jobs q = some (.upload ⟨k, .update file nft⟩)) :
    c.withUploads b q (.update q) =
      ({ b with db := b.db.step (.upload (c.uploadPages k).uid nft) }, c.setJob q none) := by
  simp only [withUploads, Uploads.step, presses_uploads.mpr hq, Uploads.setPress,
    Function.update_self, Option.map_none]
  rfl

/-- Where a `set` is processed. -/
theorem Client.withRegistration_set {q : ℕ} {press : RegisterPress} {user name account : String}
    {clean : Bool} (hq : c.jobs q = some (.register press))
    (hstage : press.stage = .set user name account clean) (answered : Bool) :
    c.withRegistration b q (.set q answered) =
      ({ b with db := b.db.step (.register user name) }, c.setJob q none) := by
  simp only [withRegistration, Registration.step, presses_registration.mpr hq, Registration.resume,
    hstage, Registration.setPress, Function.update_self, Option.map_none]
  rfl

theorem Client.effect_postNFT (q : ℕ) (e : UploadEvent) (he : ∀ e', e ≠ .other e')
    (hpress : ∀ k q', e ≠ .press k q') (hnumber : ∀ q', e = .update q' → q' = q)
    (ha : ∀ q' file, e = .pick q' file → a = .pick q' file) :
    Effect b c a (c.postNFT b q e) := by
  unfold postNFT
  split
  · rename_i press hq
    have hcall : Effect b c a (c.withUploads b q e) :=
      .uploads q e he (fun k q' heq => absurd heq (hpress k q')) ha
    dsimp only
    split
    · rename_i file nft hstage
      split
      · rename_i q'
        obtain rfl := hnumber q' rfl
        split
        · have hpress : press = ⟨press.page, .update file nft⟩ := by rw [← hstage]
          rw [hpress] at hq
          rw [withUploads_update hq, setJob_setJob]
          exact .uploaded q' press.page file nft hq
        · exact hcall
      · exact hcall
    · exact hcall
  · exact .keep

theorem Client.effect_postRegister (q : ℕ) (e : RegisterEvent)
    (hnumber : ∀ q' answered, e = .set q' answered → q' = q) (hpress : ∀ k q', e ≠ .press k q')
    (ha : ∀ q', e = .currentUser q' → a = .readCurrentUser q') :
    Effect b c a (c.postRegister b q e) := by
  unfold postRegister
  split
  · rename_i press hq
    have hcall : Effect b c a (c.withRegistration b q e) :=
      .registration q e hnumber (fun k q' heq => absurd heq (hpress k q')) ha
    dsimp only
    split
    · rename_i user name account clean hstage
      split
      · rename_i q'
        obtain rfl := hnumber q' true rfl
        rw [withRegistration_set hq hstage, setJob_setJob]
        exact .registered q' press user name account clean hq hstage
      · exact hcall
    · exact hcall
  · exact .keep

theorem Client.effect_postLogin (q : ℕ) (uid : String) :
    Effect b c a (b, c.postLogin b q uid) := by
  unfold postLogin
  split
  · rename_i page email hq
    split
    · rename_i hany
      obtain ⟨x, hx, huid⟩ := List.any_eq_true.mp hany
      have hacc : uid ∈ b.accounts.map Account.uid :=
        List.mem_map.mpr ⟨x, hx, (of_decide_eq_true huid).1⟩
      dsimp only
      split
      · rename_i hfind hstack
        exact .entered q page uid hacc ⟨_, _, hfind⟩ fun hnil => by
          rw [hnil] at hstack
          cases hstack
      · exact .signedIn q uid hacc
    · exact .keep
  · exact .keep

theorem Client.effect_finish (q page : ℕ) (result : Bool) :
    Effect b c a (b, c.finish q page result) := by
  unfold finish
  dsimp only
  split
  · split
    · exact .refreshed q page _
    · exact .finished q page
  · exact .finished q page

/-- Every step is one of these. -/
theorem Client.effect (b : Backend) (c : Client) (a : ClientAction) : Effect b c a (c.step b a) := by
  cases a with
  | openRegister => exact .opened _ (.inl rfl)
  | openUpload => exact .opened _ (.inr (.inl rfl))
  | openDetails i =>
    simp only [step]
    split
    · exact .moved _ (.inr (.inl rfl))
    · exact .keep
  | logout => exact .moved _ (.inl rfl)
  | back => exact .moved _ (.inr (.inr (.inl rfl)))
  | settle => exact .moved _ (.inr (.inr (.inr rfl)))
  | type x text => exact .opened _ (.inr (.inr ⟨x, text, rfl⟩))
  | refresh =>
    simp only [step]
    split
    · exact effect_load _ (fun f docs heq => by cases heq) fun f text heq => by cases heq
    · exact .keep
  | serve k f => exact effect_serve k f
  | answer k f => exact effect_answer k f
  | offline k f text =>
    exact effect_load k (fun f' docs heq => by cases heq) fun f' text' heq => by cases heq; rfl
  | wake k f => exact effect_load k (fun f' docs heq => by cases heq) fun f' text heq => by cases heq
  | press q => exact effect_press q
  | signIn q uid => exact effect_postLogin q uid
  | pick q file =>
    exact effect_postNFT q (.pick q file) (fun _ h => by cases h) (fun _ _ h => by cases h)
      (fun _ h => by cases h) fun _ _ h => by cases h; rfl
  | put q =>
    exact effect_postNFT q (.put q) (fun _ h => by cases h) (fun _ _ h => by cases h)
      (fun _ h => by cases h) fun _ _ h => by cases h
  | link q url =>
    exact effect_postNFT q (.link q url) (fun _ h => by cases h) (fun _ _ h => by cases h)
      (fun _ h => by cases h) fun _ _ h => by cases h
  | update q =>
    exact effect_postNFT q (.update q) (fun _ h => by cases h) (fun _ _ h => by cases h)
      (fun _ h => by cases h; rfl) fun _ _ h => by cases h
  | createUser q uid answer =>
    exact effect_postRegister q (.createUser q uid answer) (fun _ _ h => by cases h)
      (fun _ _ h => by cases h) fun _ h => by cases h
  | updateProfile q answered =>
    exact effect_postRegister q (.updateProfile q answered) (fun _ _ h => by cases h)
      (fun _ _ h => by cases h) fun _ h => by cases h
  | reload q =>
    exact effect_postRegister q (.reload q) (fun _ _ h => by cases h)
      (fun _ _ h => by cases h) fun _ h => by cases h
  | readCurrentUser q =>
    exact effect_postRegister q (.currentUser q) (fun _ _ h => by cases h)
      (fun _ _ h => by cases h) fun _ h => by cases h; rfl
  | set q answered =>
    exact effect_postRegister q (.set q answered) (fun _ _ h => by cases h; rfl)
      (fun _ _ h => by cases h) fun _ h => by cases h
  | finish q =>
    simp only [step]
    split
    · exact effect_finish q _ _
    · exact .keep
  | fail q =>
    simp only [step]
    split
    · exact effect_postNFT q (.fail q) (fun _ h => by cases h) (fun _ _ h => by cases h)
        (fun _ h => by cases h) fun _ _ h => by cases h
    · exact effect_postRegister q (.fail q) (fun _ _ h => by cases h)
        (fun _ _ h => by cases h) fun _ h => by cases h
    · exact .ended q
  | signOut => exact .signedOut

end

/-! ## What is sent to the store -/

/-- The write that a step of the app makes. -/
def Client.sent (c : Client) : ClientAction → Option Event
  | .update q =>
    match c.jobs q with
    | some (.upload ⟨k, .update _ nft⟩) => some (.upload (c.uploadPages k).uid nft)
    | _ => none
  | .set q _ =>
    match c.jobs q with
    | some (.register press) =>
      match press.stage with
      | .set user name _ _ => some (.register user name)
      | _ => none
    | _ => none
  | _ => none

theorem Client.sent_register {c : Client} {a : ClientAction} {uid name : String}
    (h : c.sent a = some (.register uid name)) : ∃ q press account clean,
      c.jobs q = some (.register press) ∧ press.stage = .set uid name account clean := by
  unfold sent at h
  split at h
  · split at h <;> cases h
  · split at h
    · rename_i q answered _ press hq
      split at h
      · rename_i user name' account clean hstage
        obtain ⟨rfl, rfl⟩ := Event.register.inj (Option.some.inj h)
        exact ⟨q, press, account, clean, hq, hstage⟩
      · cases h
    · cases h
  · cases h

theorem Client.sent_upload {c : Client} {a : ClientAction} {uid : String} {nft : NftArt}
    (h : c.sent a = some (.upload uid nft)) : ∃ q k file, a = .update q ∧
      c.jobs q = some (.upload ⟨k, .update file nft⟩) ∧ uid = (c.uploadPages k).uid := by
  unfold sent at h
  split at h
  · split at h
    · rename_i q _ k file nft' hq
      obtain ⟨rfl, rfl⟩ := Event.upload.inj (Option.some.inj h)
      exact ⟨q, k, file, rfl, hq, rfl⟩
    · cases h
  · split at h
    · split at h <;> cases h
    · cases h
  · cases h

/-- The client app makes no other writes. -/
theorem Client.sent_cases {c : Client} {a : ClientAction} {e : Event} (h : c.sent a = some e) :
    (∃ uid nft, e = .upload uid nft) ∨ ∃ uid name, e = .register uid name := by
  unfold sent at h
  split at h
  · split at h
    · exact .inl ⟨_, _, (Option.some.inj h).symm⟩
    · cases h
  · split at h
    · split at h
      · exact .inr ⟨_, _, (Option.some.inj h).symm⟩
      · cases h
    · cases h
  · cases h

theorem Uploads.db_step_of_ne {s : Uploads} {e : UploadEvent} (hother : ∀ e', e ≠ .other e')
    (hupdate : ∀ q, e ≠ .update q) : (s.step e).db = s.db := by
  cases e <;> grind [Uploads.step, Uploads.setPress, Uploads.setPage]

theorem Registration.db_raise (s : Registration) (q : ℕ) (press : RegisterPress) :
    (s.raise q press).db = s.db := by
  unfold raise
  split <;> rfl

theorem Registration.db_create (s : Registration) (q : ℕ) (press : RegisterPress) (uid : String)
    (answer : CreateAnswer) : (s.create q press uid answer).db = s.db := by
  unfold create
  split
  · rfl
  · split
    · rfl
    · cases answer <;> rfl

/-- Nothing of a press but its `set` reaches the store. -/
theorem Registration.db_resume_of_ne (s : Registration) (q : ℕ) (press : RegisterPress)
    {e : RegisterEvent} (hset : ∀ q answered, e ≠ .set q answered) :
    (s.resume q press e).db = s.db := by
  unfold resume
  split
  · split
    · exact s.db_create q press _ _
    · rfl
  · split
    · split
      · rfl
      · exact Registration.db_raise _ q press
    · rfl
  · split <;> rfl
  · split
    · split <;> rfl
    · rfl
  · exact absurd rfl (hset _ _)
  · exact s.db_raise q press
  · rfl

theorem Registration.db_step_of_ne {s : Registration} {e : RegisterEvent}
    (hset : ∀ q answered, e ≠ .set q answered) : (s.step e).db = s.db := by
  unfold step
  split
  · rfl
  · split <;> rfl
  · rfl
  all_goals
    split
    · exact s.db_resume_of_ne _ _ hset
    · rfl

section

variable {b : Backend} {c : Client} {q : ℕ}

theorem Client.fst_postNFT {press : UploadPress} (hq : c.jobs q = some (.upload press))
    (e : UploadEvent) : (c.postNFT b q e).1 = (c.withUploads b q e).1 := by
  simp only [postNFT, hq]
  split
  · split
    · split <;> rfl
    · rfl
  · rfl

theorem Client.postNFT_of_ne (h : ∀ press, c.jobs q ≠ some (.upload press)) (e : UploadEvent) :
    c.postNFT b q e = (b, c) := by
  unfold postNFT
  split
  · rename_i press hq
    exact absurd hq (h press)
  · rfl

theorem Client.fst_postRegister {press : RegisterPress} (hq : c.jobs q = some (.register press))
    (e : RegisterEvent) : (c.postRegister b q e).1 = (c.withRegistration b q e).1 := by
  simp only [postRegister, hq]
  split
  · split <;> rfl
  · rfl

theorem Client.postRegister_of_ne (h : ∀ press, c.jobs q ≠ some (.register press))
    (e : RegisterEvent) : c.postRegister b q e = (b, c) := by
  unfold postRegister
  split
  · rename_i press hq
    exact absurd hq (h press)
  · rfl

theorem Client.db_postNFT_of_ne {e : UploadEvent} (hother : ∀ e', e ≠ .other e')
    (hupdate : ∀ q, e ≠ .update q) : (c.postNFT b q e).1.db = b.db := by
  by_cases h : ∃ press, c.jobs q = some (.upload press)
  · obtain ⟨press, hq⟩ := h
    rw [fst_postNFT hq]
    exact Uploads.db_step_of_ne hother hupdate
  · rw [postNFT_of_ne (not_exists.mp h)]

theorem Client.db_postRegister_of_ne {e : RegisterEvent}
    (hset : ∀ q answered, e ≠ .set q answered) : (c.postRegister b q e).1.db = b.db := by
  by_cases h : ∃ press, c.jobs q = some (.register press)
  · obtain ⟨press, hq⟩ := h
    rw [fst_postRegister hq]
    exact Registration.db_step_of_ne hset
  · rw [postRegister_of_ne (not_exists.mp h)]

theorem Client.db_update : (c.postNFT b q (.update q)).1.db =
    Machine.run Db.step b.db (c.sent (.update q)).toList := by
  cases hq : c.jobs q with
  | none => simp only [postNFT, sent, hq]; rfl
  | some job =>
    cases job with
    | register press => simp only [postNFT, sent, hq]; rfl
    | signIn k email => simp only [postNFT, sent, hq]; rfl
    | closing k result => simp only [postNFT, sent, hq]; rfl
    | upload press =>
      rw [fst_postNFT hq]
      obtain ⟨k, stage⟩ := press
      cases stage with
      | update file nft =>
        rw [withUploads_update hq]
        simp only [sent, hq]
        rfl
      | pickImage =>
        simp only [withUploads, Uploads.step, presses_uploads.mpr hq, sent, hq]
        rfl
      | put file =>
        simp only [withUploads, Uploads.step, presses_uploads.mpr hq, sent, hq]
        rfl
      | getDownloadURL file =>
        simp only [withUploads, Uploads.step, presses_uploads.mpr hq, sent, hq]
        rfl

theorem Client.db_set (answered : Bool) : (c.postRegister b q (.set q answered)).1.db =
    Machine.run Db.step b.db (c.sent (.set q answered)).toList := by
  cases hq : c.jobs q with
  | none => simp only [postRegister, sent, hq]; rfl
  | some job =>
    cases job with
    | upload press => simp only [postRegister, sent, hq]; rfl
    | signIn k email => simp only [postRegister, sent, hq]; rfl
    | closing k result => simp only [postRegister, sent, hq]; rfl
    | register press =>
      rw [fst_postRegister hq]
      cases hstage : press.stage with
      | set user name account clean =>
        rw [withRegistration_set hq hstage]
        simp only [sent, hq, hstage]
        rfl
      | createUser =>
        simp only [withRegistration, Registration.step, presses_registration.mpr hq,
          Registration.resume, sent, hq, hstage]
        rfl
      | updateProfile user =>
        simp only [withRegistration, Registration.step, presses_registration.mpr hq,
          Registration.resume, sent, hq, hstage]
        rfl
      | reload user =>
        simp only [withRegistration, Registration.step, presses_registration.mpr hq,
          Registration.resume, sent, hq, hstage]
        rfl
      | currentUser user =>
        simp only [withRegistration, Registration.step, presses_registration.mpr hq,
          Registration.resume, sent, hq, hstage]
        rfl

/-- What a step does to the store is what it sends. -/
theorem Client.db_step (b : Backend) (c : Client) (a : ClientAction) :
    (c.step b a).1.db = Machine.run Db.step b.db (c.sent a).toList := by
  cases a with
  | refresh =>
    simp only [step]
    split <;> rfl
  | press q =>
    simp only [step, press]
    split
    · rfl
    · exact Registration.db_step_of_ne fun _ _ h => by cases h
    · exact Uploads.db_step_of_ne (fun _ h => by cases h) fun _ h => by cases h
    · rfl
  | pick q file => exact db_postNFT_of_ne (fun _ h => by cases h) fun _ h => by cases h
  | put q => exact db_postNFT_of_ne (fun _ h => by cases h) fun _ h => by cases h
  | link q url => exact db_postNFT_of_ne (fun _ h => by cases h) fun _ h => by cases h
  | update q => exact db_update
  | createUser q uid answer => exact db_postRegister_of_ne fun _ _ h => by cases h
  | updateProfile q answered => exact db_postRegister_of_ne fun _ _ h => by cases h
  | reload q => exact db_postRegister_of_ne fun _ _ h => by cases h
  | readCurrentUser q => exact db_postRegister_of_ne fun _ _ h => by cases h
  | set q answered => exact db_set answered
  | finish q =>
    simp only [step]
    split <;> rfl
  | fail q =>
    simp only [step]
    split
    · exact db_postNFT_of_ne (fun _ h => by cases h) fun _ h => by cases h
    · exact db_postRegister_of_ne fun _ _ h => by cases h
    · rfl
  | _ => rfl

end

end FlutterThree
