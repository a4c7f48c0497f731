import FlutterThree.Accounts

/-!
# Whose documents a client app writes

The `uid` in a `postNFT` comes from the `ProfilePage` below, the one in a `postRegister` from the
account that was created or from `currentUser`. Pages and handlers outlive the session they were
started in, so a client app may still write for somebody who is not signed in any more; but it
writes for nobody who never was (`clients_write_own_documents`).
-/

namespace FlutterThree

open Dart Firestore Flutter

/-! ## The account of a page -/

def ClientPage.uid? : ClientPage → Option String
  | .profile uid => some uid
  | .upload uid _ _ => some uid
  | _ => none

/-- The number of a page to upload on. -/
def IsUpload (p : Page ClientPage) : Prop :=
  ∃ uid name description, p.route = .upload uid name description

theorem ClientPage.uid?_mapFields (f : BlocStream → Field → Field) (p : ClientPage) :
    (p.mapFields f).uid? = p.uid? := by
  cases p <;> rfl

theorem ClientPage.uid?_keystroke (x : BlocStream) (text : String) (event : Except String String)
    (own : Prop) [Decidable own] (p : ClientPage) :
    ((if own then p.type x text else p).hear x event).uid? = p.uid? := by
  unfold hear type
  rw [uid?_mapFields]
  split
  · exact uid?_mapFields _ p
  · rfl

theorem ClientPage.isUpload_keystroke {x : BlocStream} {text : String}
    {event : Except String String} {own : Prop} [Decidable own] {p : ClientPage} {id : ℕ}
    (h : IsUpload ⟨id, (if own then p.type x text else p).hear x event⟩) : IsUpload ⟨id, p⟩ := by
  obtain ⟨uid, name, description, h⟩ := h
  cases p with
  | upload uid' name' description' => exact ⟨uid', name', description', rfl⟩
  | _ =>
    by_cases hown : own
    · simp only [if_pos hown, ClientPage.hear, ClientPage.type, ClientPage.mapFields] at h
      cases h
    · simp only [if_neg hown, ClientPage.hear, ClientPage.mapFields] at h
      cases h

/-! ## What a client app holds -/

/-- The app acts, or will act once a handler goes on, for accounts of `A` only. -/
structure Client.Holds (A : String → Prop) (c : Client) : Prop where
  pages : ∀ p ∈ c.nav.mounted, ∀ uid, p.route.uid? = some uid → A uid
  uploadPages : ∀ p ∈ c.nav.mounted, IsUpload p → A (c.uploadPages p.id).uid
  uploads : ∀ q press, c.jobs q = some (.upload press) → A (c.uploadPages press.page).uid
  registrations : ∀ q press u, c.jobs q = some (.register press) → press.stage.Names u → A u

theorem Client.Holds.mono {A B : String → Prop} {c : Client} (h : c.Holds A)
    (hAB : ∀ u, A u → B u) : c.Holds B :=
  ⟨fun p hp uid hu => hAB uid (h.pages p hp uid hu),
    fun p hp hup => hAB _ (h.uploadPages p hp hup),
    fun q press hq => hAB _ (h.uploads q press hq),
    fun q press u hq hu => hAB u (h.registrations q press u hq hu)⟩

section

variable {A : String → Prop} {c : Client}

theorem IsUpload.uid?_ne_none {p : Page ClientPage} (h : IsUpload p) : p.route.uid? ≠ none := by
  obtain ⟨uid, name, description, hup⟩ := h
  rw [hup]
  exact Option.some_ne_none uid

/-- Pages change, and the new ones are not for uploads. -/
theorem Client.Holds.navigate (h : c.Holds A) {n : Navigator ClientPage}
    (hn : ∀ p ∈ n.mounted, p ∈ c.nav.mounted ∨
      ¬ IsUpload p ∧ ∀ uid, p.route.uid? = some uid → A uid) :
    Client.Holds A { c with nav := n } := by
  refine ⟨fun p hp uid hu => ?_, fun p hp hup => ?_, h.uploads, h.registrations⟩
  · rcases hn p hp with hp | ⟨-, hnew⟩
    · exact h.pages p hp uid hu
    · exact hnew uid hu
  · rcases hn p hp with hp | ⟨hnot, -⟩
    · exact h.uploadPages p hp hup
    · exact absurd hup hnot

/-- A handler goes on. -/
theorem Client.Holds.setJob (h : c.Holds A) (q : ℕ) {job : Option ClientJob}
    (hup : ∀ press, job = some (.upload press) → A (c.uploadPages press.page).uid)
    (hreg : ∀ press u, job = some (.register press) → press.stage.Names u → A u) :
    (c.setJob q job).Holds A := by
  refine ⟨h.pages, h.uploadPages, fun q' press hq' => ?_, fun q' press u hq' hu => ?_⟩
  · rcases Machine.update_eq_some hq' with ⟨-, hnew⟩ | ⟨-, hold⟩
    · exact hup press hnew
    · exact h.uploads q' press hold
  · rcases Machine.update_eq_some hq' with ⟨-, hnew⟩ | ⟨-, hold⟩
    · exact hreg press u hnew hu
    · exact h.registrations q' press u hold hu

/-- A handler ends, or waits for something that is of no account. -/
theorem Client.Holds.setJob_of_ne (h : c.Holds A) (q : ℕ) {job : Option ClientJob}
    (hup : ∀ press, job ≠ some (.upload press)) (hreg : ∀ press, job ≠ some (.register press)) :
    (c.setJob q job).Holds A :=
  h.setJob q (fun press hj => absurd hj (hup press)) fun press _ hj => absurd hj (hreg press)

theorem Client.Holds.load (h : c.Holds A) (k : ℕ) (e : LoaderEvent) : (c.load k e).Holds A := by
  refine ⟨?_, ?_, ?_, ?_⟩
  · rw [Client.nav_load]
    exact h.pages
  · rw [Client.nav_load, Client.uploadPages_load]
    exact h.uploadPages
  · rw [Client.jobs_load, Client.uploadPages_load]
    exact h.uploads
  · rw [Client.jobs_load]
    exact h.registrations

/-- The pages become `n`, on which the accounts are still of `A`. -/
theorem Client.Holds.goTo (h : c.Holds A) {n : Navigator ClientPage}
    (hpages : ∀ p ∈ n.mounted, ∀ uid, p.route.uid? = some uid → A uid)
    (hups : ∀ p ∈ n.mounted, IsUpload p → n.top = some p ∨ A (c.uploadPages p.id).uid) :
    (c.goTo n).Holds A := by
  have huid : ∀ k, A (c.uploadPages k).uid ∨ (∃ p, n.top = some p ∧ p.id = k ∧ IsUpload p) →
      A ((c.goTo n).uploadPages k).uid := by
    intro k hk
    unfold Client.goTo
    split
    · rename_i htop
      rcases hk with hk | ⟨p, hp, -, uid, name, description, hup⟩
      · exact hk
      · rw [htop] at hp
        obtain rfl := Option.some.inj hp
        cases hup
    · rename_i k' uid name description htop
      by_cases hkk : k = k'
      · subst hkk
        simp only [Function.update_self]
        exact hpages _ (Navigator.mem_mounted_of_top htop) uid rfl
      · simp only [Function.update_of_ne hkk]
        rcases hk with hk | ⟨p, hp, rfl, -⟩
        · exact hk
        · rw [htop] at hp
          exact absurd (congrArg Page.id (Option.some.inj hp)).symm hkk
    · rename_i hnot
      rcases hk with hk | ⟨p, hp, -, uid, name, description, hup⟩
      · exact hk
      · obtain ⟨id, route⟩ := p
        obtain rfl : route = .upload uid name description := hup
        exact absurd hp (hnot id uid name description)
  refine ⟨?_, ?_, ?_, ?_⟩
  · rw [Client.nav_goTo]
    exact hpages
  · rw [Client.nav_goTo]
    intro p hp hup
    rcases hups p hp hup with htop | hold
    · exact huid p.id (.inr ⟨p, htop, rfl, hup⟩)
    · exact huid p.id (.inl hold)
  · rw [Client.jobs_goTo]
    exact fun q press hq => huid press.page (.inl (h.uploads q press hq))
  · rw [Client.jobs_goTo]
    exact h.registrations

/-- Going back, logging out or looking at an entry brings up no page that acts for anybody. -/
theorem Client.mem_mounted_moved {e : ClientEvent}
    (he : e = .logout ∨ e = .openDetails ∨ e = .back ∨ e = .settle) {p : Page ClientPage}
    (hp : p ∈ (c.moved e).mounted) : p ∈ c.nav.mounted ∨ p.route.uid? = none := by
  rcases he with rfl | rfl | rfl | rfl
  · simp only [moved, ClientApp.step] at hp
    split at hp
    · rcases Navigator.mem_mounted_pushReplacement hp with rfl | hp
      · exact .inr rfl
      · exact .inl hp
    · exact .inl hp
  · simp only [moved, ClientApp.step] at hp
    split at hp
    · rcases Navigator.mem_mounted_push.mp hp with rfl | hp
      · exact .inr rfl
      · exact .inl hp
    · exact .inl hp
  · simp only [moved, ClientApp.step] at hp
    split at hp
    · exact .inl (Navigator.mem_mounted_pop.mp hp)
    · exact .inl hp
  · exact .inl (Navigator.mem_mounted_of_settle hp)

/-- Signing in brings up a page for the account that signed in. -/
theorem Client.mem_mounted_signIn {page : ℕ} {uid : String} {p : Page ClientPage}
    (hp : p ∈ (c.moved (.signIn page uid)).mounted) :
    p ∈ c.nav.mounted ∨ p.route = .profile uid := by
  simp only [moved, ClientApp.step] at hp
  split at hp
  · rcases Navigator.mem_mounted_pushReplacement hp with rfl | hp
    · exact .inr rfl
    · exact .inl hp
  · exact .inl hp

/-- A page that is opened or typed into acts for the account of a page there was. -/
theorem Client.Holds.opened (h : c.Holds A) {e : ClientEvent}
    (he : e = .openRegister ∨ e = .openUpload ∨ ∃ x text, e = .type x text) :
    (c.goTo (c.moved e)).Holds A := by
  have hstay : (c.goTo c.nav).Holds A :=
    h.goTo h.pages fun p hp hup => .inr (h.uploadPages p hp hup)
  rcases he with rfl | rfl | ⟨x, text, rfl⟩
  · simp only [Client.moved, ClientApp.step]
    split
    · refine h.goTo (fun p hp uid hu => ?_) fun p hp hup => ?_
      · rcases Navigator.mem_mounted_push.mp hp with rfl | hp
        · cases hu
        · exact h.pages p hp uid hu
      · rcases Navigator.mem_mounted_push.mp hp with rfl | hp
        · exact .inl rfl
        · exact .inr (h.uploadPages p hp hup)
    · exact hstay
  · simp only [Client.moved, ClientApp.step]
    split
    · rename_i k uid htop
      refine h.goTo (fun p hp uid' hu => ?_) fun p hp hup => ?_
      · rcases Navigator.mem_mounted_push.mp hp with rfl | hp
        · obtain rfl := Option.some.inj hu
          exact h.pages _ (Navigator.mem_mounted_of_top htop) uid rfl
        · exact h.pages p hp uid' hu
      · rcases Navigator.mem_mounted_push.mp hp with rfl | hp
        · exact .inl rfl
        · exact .inr (h.uploadPages p hp hup)
    · exact hstay
  · simp only [Client.moved, ClientApp.step]
    split
    · rename_i top htop
      split
      · refine h.goTo (fun p hp uid hu => ?_) fun p hp hup => ?_
        · obtain ⟨p', hp', rfl⟩ := Navigator.mem_mounted_modify.mp hp
          rw [ClientPage.uid?_keystroke] at hu
          exact h.pages p' hp' uid hu
        · obtain ⟨p', hp', rfl⟩ := Navigator.mem_mounted_modify.mp hp
          exact .inr (h.uploadPages p' hp' (ClientPage.isUpload_keystroke hup))
      · exact hstay
    · exact hstay

/-- A step of the uploads leaves a press on its page. -/
theorem Uploads.page_step {s : Uploads} {e : UploadEvent} {q : ℕ} {press : UploadPress}
    (h : (s.step e).presses q = some press) :
    (∃ p, s.presses q = some p ∧ p.page = press.page) ∨ e = .press press.page q := by
  have heffect := s.effect e
  generalize s.step e = t at h heffect
  have hset : ∀ {q' k stage p}, s.presses q' = some p → p.page = k →
      Function.update s.presses q' (some ⟨k, stage⟩) q = some press →
      ∃ p, s.presses q = some p ∧ p.page = press.page := by
    intro q' k stage p hp hk h
    rcases Machine.update_eq_some h with ⟨rfl, hnew⟩ | ⟨-, hold⟩
    · obtain rfl := Option.some.inj hnew
      exact ⟨p, hp, hk⟩
    · exact ⟨press, hold, rfl⟩
  have hend : ∀ {q'}, Function.update s.presses q' none q = some press →
      ∃ p, s.presses q = some p ∧ p.page = press.page := by
    intro q' h
    rcases Machine.update_eq_some h with ⟨-, hnew⟩ | ⟨-, hold⟩
    · cases hnew
    · exact ⟨press, hold, rfl⟩
  cases heffect with
  | keep => exact .inl ⟨press, h, rfl⟩
  | other e' => exact .inl ⟨press, h, rfl⟩
  | type k page => exact .inl ⟨press, h, rfl⟩
  | press k q' he hq' hname hdesc =>
    rcases Machine.update_eq_some h with ⟨rfl, hnew⟩ | ⟨-, hold⟩
    · obtain rfl := Option.some.inj hnew
      exact .inr he
    · exact .inl ⟨press, hold, rfl⟩
  | pick q' k file hq' => exact .inl (hset hq' rfl h)
  | put q' k file he hq' => exact .inl (hset hq' rfl h)
  | link q' k file url he hq' hcan => exact .inl (hset hq' rfl h)
  | update q' k file nft he hq' => exact .inl (hend h)
  | ended q' => exact .inl (hend h)

/-- A step takes up only accounts that the app acted for before, or that are its `currentUser`
now. -/
theorem Client.Holds.step {b : Backend} {a : ClientAction} (h : c.Holds A)
    (hbefore : ∀ u, c.currentUser = some u → A u)
    (hafter : ∀ u, (c.step b a).2.currentUser = some u → A u) : (c.step b a).2.Holds A := by
  have heffect := c.effect b a
  generalize c.step b a = x at hafter heffect
  cases heffect with
  | keep => exact h
  | moved e he =>
    refine h.navigate fun p hp => (Client.mem_mounted_moved he hp).imp_right fun hnone => ?_
    exact ⟨fun hup => hup.uid?_ne_none hnone, fun uid hu => by rw [hnone] at hu; cases hu⟩
  | opened e he => exact h.opened he
  | loaded k page e hk he ha => exact h.load k e
  | served k f page given hk hf hfree => exact ⟨h.pages, h.uploadPages, h.uploads, h.registrations⟩
  | pressed q k email => exact h.setJob_of_ne q (fun _ hj => by cases hj) fun _ hj => by cases hj
  | uploads q e he hk ha =>
    refine h.setJob q (fun press hj => ?_) fun press _ hj => ?_
    · obtain ⟨p, hp, hpress⟩ := Option.map_eq_some_iff.mp hj
      obtain rfl := ClientJob.upload.inj hpress
      rcases Uploads.page_step hp with ⟨p', hp', hpage⟩ | hpress
      · rw [← hpage]
        exact h.uploads q p' (Client.presses_uploads.mp hp')
      · obtain ⟨-, uid, name, description, htop⟩ := hk _ _ hpress
        exact h.uploadPages _ (Navigator.mem_mounted_of_top htop) ⟨uid, name, description, rfl⟩
    · obtain ⟨p, -, hpress⟩ := Option.map_eq_some_iff.mp hj
      cases hpress
  | uploaded q k file nft hq =>
    exact h.setJob_of_ne q (fun _ hj => by cases hj) fun _ hj => by cases hj
  | registration q e hnumber hk ha =>
    have hholds : Client.Holds A
        { c with currentUser := ((c.registration b).step e).currentUser } :=
      ⟨h.pages, h.uploadPages, h.uploads, h.registrations⟩
    refine hholds.setJob q (fun press hj => ?_) fun press u hj hu => ?_
    · obtain ⟨p, -, hpress⟩ := Option.map_eq_some_iff.mp hj
      cases hpress
    · obtain ⟨p, hp, hpress⟩ := Option.map_eq_some_iff.mp hj
      obtain rfl := ClientJob.register.inj hpress
      have hold : ∀ {p'}, (c.registration b).presses q = some p' → p'.stage.Names u → A u :=
        fun hp' hu => h.registrations q _ u (Client.presses_registration.mp hp') hu
      cases Registration.next hp with
      | keep p' hp' => exact hold hp' hu
      | fresh p' hstage =>
        rw [hstage] at hu
        cases hu
      | created p' uid hfresh huid hcurrent =>
        obtain rfl : uid = u := hu
        exact hafter uid hcurrent
      | own p' p'' account hp' hacc hacc' hown =>
        have haccount := RegisterStage.account_of_names hown hu
        rw [hacc'] at haccount
        rw [haccount] at hacc
        exact hold hp' (RegisterStage.names_of_account hacc)
      | read p' user name account he hp' hstage huser =>
        rcases hu with rfl | rfl
        · exact hbefore user huser
        · exact hold hp' (by rw [hstage]; rfl)
  | registered q press user name account clean hq hstage =>
    exact h.setJob_of_ne q (fun _ hj => by cases hj) fun _ hj => by cases hj
  | signedIn q uid hacc =>
    have hholds : Client.Holds A { c with currentUser := some uid } :=
      ⟨h.pages, h.uploadPages, h.uploads, h.registrations⟩
    exact hholds.setJob_of_ne q (fun _ hj => by cases hj) fun _ hj => by cases hj
  | entered q page uid hacc hpage hstack =>
    have hholds : Client.Holds A { c with
        currentUser := some uid
        nav := c.moved (.signIn page uid)
        profiles := Function.update c.profiles c.nav.next (some (.initState uid)) } := by
      have hnav := h.navigate (n := c.moved (.signIn page uid)) fun p hp => by
        rcases Client.mem_mounted_signIn hp with hold | hnew
        · exact .inl hold
        · refine .inr ⟨fun ⟨_, _, _, hup⟩ => ?_, fun uid' hu => ?_⟩
          · rw [hnew] at hup
            cases hup
          · rw [hnew] at hu
            obtain rfl := Option.some.inj hu
            exact hafter uid rfl
      exact ⟨hnav.pages, hnav.uploadPages, hnav.uploads, hnav.registrations⟩
    exact hholds.setJob_of_ne q (fun _ hj => by cases hj) fun _ hj => by cases hj
  | finished q page =>
    have hholds := h.navigate (n := popOf page c.nav) fun p hp => .inl (mem_mounted_popOf hp)
    exact hholds.setJob_of_ne q (fun _ hj => by cases hj) fun _ hj => by cases hj
  | refreshed q page k =>
    have hholds := h.navigate (n := popOf page c.nav) fun p hp => .inl (mem_mounted_popOf hp)
    exact (hholds.setJob_of_ne q (fun _ hj => by cases hj) fun _ hj => by cases hj).load k .refresh
  | ended q => exact h.setJob_of_ne q (fun _ hj => by cases hj) fun _ hj => by cases hj
  | signedOut => exact ⟨h.pages, h.uploadPages, h.uploads, h.registrations⟩

end

/-! ## What it writes -/

theorem Client.holds_start (A : String → Prop) (currentUser : Option String) :
    (Client.start currentUser).Holds A := by
  refine ⟨fun p hp uid hu => ?_, fun p hp hup => ?_, fun _ _ hq => (by cases hq),
    fun _ _ _ hq => (by cases hq)⟩
  · rw [Navigator.mem_mounted_home hp] at hu
    cases hu
  · rw [Navigator.mem_mounted_home hp] at hup
    exact absurd rfl hup.uid?_ne_none

/-- A document that a step of the app changes is that of an account it acts for. -/
theorem Client.Holds.of_change {A : String → Prop} {b : Backend} {c : Client} {a : ClientAction}
    (h : c.Holds A) {uid : String}
    (hchange : (c.step b a).1.db.users.get uid ≠ b.db.users.get uid) : A uid := by
  rw [c.db_step b a] at hchange
  cases hsent : c.sent a with
  | none =>
    rw [hsent] at hchange
    exact absurd rfl hchange
  | some e =>
    rw [hsent] at hchange
    rcases Client.sent_cases hsent with ⟨user, nft, rfl⟩ | ⟨user, name, rfl⟩
    · obtain ⟨q, k, file, -, hq, rfl⟩ := Client.sent_upload hsent
      by_cases huid : uid = (c.uploadPages k).uid
      · rw [huid]
        exact h.uploads q _ hq
      · refine absurd ?_ hchange
        change (b.db.users.update _ (FlutterThree.postNFT nft)).get uid = _
        rw [Collection.get_update, if_neg huid]
    · obtain ⟨q, press, account, clean, hq, hstage⟩ := Client.sent_register hsent
      by_cases huid : uid = user
      · rw [huid]
        exact h.registrations q press user hq (by rw [hstage]; exact .inl rfl)
      · refine absurd ?_ hchange
        change (b.db.users.set user (registerDoc name)).get uid = _
        rw [Collection.get_set, if_neg huid]

/-- The users that client app `i` has had, in a run of the apps. -/
abbrev Apps.SignedIn (i : ℕ) (s : Apps) (es : List AppsEvent) (uid : String) : Prop :=
  Machine.Seen Apps.step (fun s uid => (s.clients i).currentUser = some uid) s es uid

theorem Apps.holds_run (users : Users) (accounts : List Account)
    (accepts : String → String → Bool) (currentUsers : ℕ → Option String) (es : List AppsEvent)
    (i : ℕ) :
    ((Machine.run Apps.step (Apps.start users accounts accepts currentUsers) es).clients i).Holds
      (Apps.SignedIn i (Apps.start users accounts accepts currentUsers) es) := by
  have hstep : ∀ A (s : Apps) e, (s.clients i).Holds A →
      (∀ u, (s.clients i).currentUser = some u → A u) →
      (∀ u, ((s.step e).clients i).currentUser = some u → A u) →
      ((s.step e).clients i).Holds A := by
    intro A s e h hbefore hafter
    rcases s.client_step e i with hkeep | ⟨a, rfl, hclient⟩
    · rw [hkeep]
      exact h
    · rw [hclient, Apps.clients_setClient] at hafter ⊢
      exact h.step hbefore hafter
  have hstart : ∀ A, ((Apps.start users accounts accepts currentUsers).clients i).Holds A :=
    fun A => Client.holds_start A (currentUsers i)
  exact Machine.run_seen (I := fun A (s : Apps) => (s.clients i).Holds A)
    (fun A B s hAB h => h.mono hAB) hstep (hstart _) es

/-- **A client app writes own documents only**: if a step of it changes a document, then that of an
account that it had for its `currentUser` at some time. -/
theorem clients_write_own_documents {users : Users} {accounts : List Account}
    {accepts : String → String → Bool} {currentUsers : ℕ → Option String} {es : List AppsEvent}
    {s : Apps} (hs : s = Machine.run Apps.step (Apps.start users accounts accepts currentUsers) es)
    {i : ℕ} {a : ClientAction} {uid : String}
    (hchange : (s.step (.client i a)).users.get uid ≠ s.users.get uid) :
    ∃ pre post, es = pre ++ post ∧ ((Machine.run Apps.step
      (Apps.start users accounts accepts currentUsers) pre).clients i).currentUser = some uid := by
  have hholds := Apps.holds_run users accounts accepts currentUsers es i
  rw [← hs] at hholds
  exact hholds.of_change hchange

/-- Ann registers: when the document is set, she has been the `currentUser`. -/
theorem clients_write_own_documents_ann :
    ∃ pre post, annBesideBob = pre ++ post ∧
      ((Machine.run Apps.step adminAndGuests pre).clients 0).currentUser = some "ann" := by
  refine clients_write_own_documents (a := .set 0 true) rfl fun h => ?_
  have hnone : (none : Option Fields) = some (registerDoc "") := h.symm
  cases hnone

end FlutterThree
