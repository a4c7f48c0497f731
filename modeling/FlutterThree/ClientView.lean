import FlutterThree.Ownership

/-!
# A running client app is a `ClientApp`

`FlutterThree.ClientApp` has the pages and the presses of one client app, and lets every call be
answered or raise at any time. Here it is related to `FlutterThree.Client`, where the answers come
from services that other apps use as well: in any run of the apps, what each client app shows and
has under way is what some run of `ClientApp` leads to (`client_runs_are_app_runs`).

A step of the app is at most one event there. The processing of a call is none, and neither is
anything that has to do with wallets.
-/

namespace FlutterThree

open Dart Firestore Flutter

/-! ## The view -/

/-- The call a `postNFT` waits for. -/
def UploadStage.call : UploadStage → RemoteCall
  | .pickImage => .pickImage
  | .put _ => .put
  | .getDownloadURL _ => .getDownloadURL
  | .update _ _ => .update

/-- The call a `postRegister` waits for; `currentUser` is read when the `reload` is answered. -/
def RegisterStage.call : RegisterStage → RemoteCall
  | .createUser => .createUser
  | .updateProfile _ => .updateProfile
  | .reload _ => .reload
  | .currentUser _ => .reload
  | .set _ _ _ _ => .set

def UploadPress.view (press : UploadPress) : ClientPress := ⟨press.page, press.stage.call⟩

def RegisterPress.view (press : RegisterPress) : ClientPress := ⟨press.page, press.stage.call⟩

/-- The press that a job belongs to. -/
def ClientJob.press? : ClientJob → Option ClientPress
  | .upload press => some press.view
  | .register press => some press.view
  | .closing page true => some ⟨page, .update⟩
  | .closing page false => some ⟨page, .set⟩
  | .signIn _ _ => none

def Client.view (c : Client) : ClientApp := ⟨c.nav, fun q => (c.jobs q).bind ClientJob.press?⟩

theorem Client.view_setJob (c : Client) (q : ℕ) (job : Option ClientJob) :
    (c.setJob q job).view = c.view.setPress q (job.bind ClientJob.press?) := by
  unfold view setJob ClientApp.setPress
  congr 1
  funext q'
  dsimp only
  by_cases hq : q' = q
  · rw [hq, Function.update_self, Function.update_self]
  · rw [Function.update_of_ne hq, Function.update_of_ne hq]

theorem Client.view_goTo (c : Client) (n : Navigator ClientPage) :
    (c.goTo n).view = { c.view with nav := n } := by
  unfold view
  rw [nav_goTo, jobs_goTo]

theorem Client.view_load (c : Client) (k : ℕ) (e : LoaderEvent) : (c.load k e).view = c.view := by
  unfold view
  rw [nav_load, jobs_load]

theorem ClientApp.setPress_self {s : ClientApp} {q : ℕ} {press : Option ClientPress}
    (h : s.presses q = press) : s.setPress q press = s := by
  unfold setPress
  rw [← h, Function.update_eq_self]

theorem ClientApp.setPress_setPress (s : ClientApp) (q : ℕ) (press press' : Option ClientPress) :
    (s.setPress q press).setPress q press' = s.setPress q press' := by
  simp only [setPress, Function.update_idem]

/-! ## How a press goes on -/

/-- What can become of a press. -/
inductive ClientPress.Goes (p : ClientPress) : Option ClientPress → Prop where
  | keep : Goes p (some p)
  | answered (call : RemoteCall) (h : p.call.next = some call) : Goes p (some ⟨p.page, call⟩)
  | raised : Goes p (p.call.afterRaise.map fun call => ⟨p.page, call⟩)
  | noUser (h : p.call = .reload) : Goes p none

/-- `ClientApp` follows. -/
theorem ClientPress.Goes.run {s : ClientApp} {q : ℕ} {p : ClientPress} {p' : Option ClientPress}
    (h : p.Goes p') (hq : s.presses q = some p) :
    ∃ es, s.setPress q p' = Machine.run ClientApp.step s es := by
  obtain ⟨page, call⟩ := p
  cases h with
  | keep => exact ⟨[], ClientApp.setPress_self hq⟩
  | answered next hnext =>
    refine ⟨[.answer q], ?_⟩
    rw [Machine.run_cons, Machine.run_nil]
    simp only [ClientApp.step, hq]
    rw [hnext]
    rfl
  | raised =>
    refine ⟨[.raise q], ?_⟩
    rw [Machine.run_cons, Machine.run_nil]
    simp only [ClientApp.step, hq]
    rfl
  | noUser hcall =>
    obtain rfl : call = .reload := hcall
    refine ⟨[.noUser q], ?_⟩
    rw [Machine.run_cons, Machine.run_nil]
    simp only [ClientApp.step, hq]
    rfl

theorem Uploads.goes {s : Uploads} {q : ℕ} {press : UploadPress} (hq : s.presses q = some press)
    (e : UploadEvent) : press.view.Goes (((s.step e).presses q).map UploadPress.view) := by
  have hkeep : ∀ {presses : ℕ → Option UploadPress}, presses q = s.presses q →
      press.view.Goes ((presses q).map UploadPress.view) := by
    intro presses h
    rw [h, hq]
    exact .keep
  have hset : ∀ {q' k stage p}, s.presses q' = some ⟨k, stage⟩ →
      (⟨k, stage.call⟩ : ClientPress).Goes (Option.map UploadPress.view p) →
      press.view.Goes ((Function.update s.presses q' p q).map UploadPress.view) := by
    intro q' k stage p hq' hgoes
    by_cases hqq : q = q'
    · subst hqq
      obtain rfl := Option.some.inj (hq.symm.trans hq')
      rw [Function.update_self]
      exact hgoes
    · exact hkeep (Function.update_of_ne hqq _ _)
  have heffect := s.effect e
  generalize s.step e = t at heffect
  cases heffect with
  | keep => exact hkeep rfl
  | other e' => exact hkeep rfl
  | type k page => exact hkeep rfl
  | press k q' he hq' hname hdesc =>
    have hqq : q ≠ q' := fun heq => by
      rw [heq, hq'] at hq
      cases hq
    exact hkeep (Function.update_of_ne hqq _ _)
  | pick q' k file hq' => exact hset hq' (.answered _ rfl)
  | put q' k file he hq' => exact hset hq' (.answered _ rfl)
  | link q' k file url he hq' hcan => exact hset hq' (.answered _ rfl)
  | update q' k file nft he hq' => exact hset hq' .raised
  | ended q' =>
    by_cases hqq : q = q'
    · subst hqq
      obtain ⟨k, stage⟩ := press
      change ClientPress.Goes _ ((Function.update s.presses q none q).map UploadPress.view)
      rw [Function.update_self]
      cases stage <;> exact .raised
    · exact hkeep (Function.update_of_ne hqq _ _)

theorem Registration.create_goes {s : Registration} {q : ℕ} {press : RegisterPress}
    (hq : s.presses q = some press) (hstage : press.stage = .createUser) (uid : String)
    (answer : CreateAnswer) :
    press.view.Goes (((s.create q press uid answer).presses q).map RegisterPress.view) := by
  have hcall : press.view.call = .createUser := by rw [RegisterPress.view, hstage]; rfl
  have hended : press.view.Goes none := by
    have h := ClientPress.Goes.raised (p := press.view)
    rwa [hcall] at h
  unfold create
  split
  · rw [presses_setPress_self]
    exact hended
  · split
    · rw [hq]
      exact .keep
    · cases answer with
      | user =>
        dsimp only
        rw [presses_setPress_self]
        exact .answered _ (by rw [hcall]; rfl)
      | noUser =>
        dsimp only
        rw [presses_setPress_self]
        exact hended
      | lost =>
        dsimp only
        rw [presses_setPress_self]
        exact hended

theorem Registration.raise_goes (s : Registration) (q : ℕ) (press : RegisterPress) :
    press.view.Goes (((s.raise q press).presses q).map RegisterPress.view) := by
  obtain ⟨page, email, password, name, stage⟩ := press
  cases stage with
  | createUser =>
    simp only [raise, presses_setPress_self]
    exact .raised
  | set user name account clean =>
    simp only [raise, presses_setPress_self]
    exact .raised
  | updateProfile user =>
    simp only [raise, postRegister, presses_setPress_self]
    exact .raised
  | reload user =>
    simp only [raise, postRegister, presses_setPress_self]
    exact .raised
  | currentUser user =>
    simp only [raise, postRegister, presses_setPress_self]
    exact .raised

theorem Registration.resume_goes {s : Registration} {q : ℕ} {press : RegisterPress}
    (hq : s.presses q = some press) (e : RegisterEvent) :
    press.view.Goes (((s.resume q press e).presses q).map RegisterPress.view) := by
  have hkeep : press.view.Goes ((s.presses q).map RegisterPress.view) := by
    rw [hq]
    exact .keep
  unfold resume
  split
  · split
    · rename_i hstage
      exact create_goes hq hstage _ _
    · exact hkeep
  · split
    · rename_i user hstage
      split
      · rw [presses_setPress_self]
        refine .answered _ ?_
        rw [RegisterPress.view, hstage]
        rfl
      · exact raise_goes _ q press
    · exact hkeep
  · split
    · rename_i user hstage
      rw [presses_setPress_self]
      have hsame : press.view = RegisterPress.view { press with stage := .currentUser user } := by
        simp only [RegisterPress.view, hstage, RegisterStage.call]
      rw [Option.map_some, ← hsame]
      exact .keep
    · exact hkeep
  · split
    · rename_i account hstage
      have hcall : press.view.call = .reload := by rw [RegisterPress.view, hstage]; rfl
      split
      · simp only [postRegister, presses_setPress_self]
        exact .answered _ (by rw [hcall]; rfl)
      · rw [presses_setPress_self]
        exact .noUser hcall
    · exact hkeep
  · split
    · rename_i user name account clean hstage
      rw [presses_setPress_self]
      have h := ClientPress.Goes.raised (p := press.view)
      have hcall : press.view.call = .set := by rw [RegisterPress.view, hstage]; rfl
      rwa [hcall] at h
    · exact hkeep
  · exact raise_goes s q press
  · exact hkeep

/-- Nothing happens to the other presses. -/
theorem Registration.presses_resume_of_ne (s : Registration) {q q' : ℕ} (hne : q ≠ q')
    (press : RegisterPress) (e : RegisterEvent) :
    (s.resume q' press e).presses q = s.presses q := by
  have hset : ∀ (t : Registration) p, t.presses = s.presses →
      (t.setPress q' p).presses q = s.presses q := by
    intro t p ht
    change Function.update t.presses q' p q = _
    rw [Function.update_of_ne hne, ht]
  have hraise : ∀ t : Registration, t.presses = s.presses →
      (t.raise q' press).presses q = s.presses q := by
    intro t ht
    unfold raise
    split <;> exact hset t _ ht
  unfold resume
  split
  · split
    · unfold create
      split
      · exact hset s _ rfl
      · split
        · rfl
        · split <;> exact hset _ _ rfl
    · rfl
  · split
    · split
      · exact hset _ _ rfl
      · exact hraise _ rfl
    · rfl
  · split
    · exact hset s _ rfl
    · rfl
  · split
    · split
      · exact hset s _ rfl
      · exact hset _ _ rfl
    · rfl
  · split
    · exact hset _ _ rfl
    · rfl
  · exact hraise s rfl
  · rfl

theorem Registration.goes {s : Registration} {q : ℕ} {press : RegisterPress}
    (hq : s.presses q = some press) (e : RegisterEvent) :
    press.view.Goes (((s.step e).presses q).map RegisterPress.view) := by
  have hkeep : press.view.Goes ((s.presses q).map RegisterPress.view) := by
    rw [hq]
    exact .keep
  have hresume : ∀ {q' press'}, s.presses q' = some press' →
      press.view.Goes (((s.resume q' press' e).presses q).map RegisterPress.view) := by
    intro q' press' hq'
    by_cases hqq : q = q'
    · subst hqq
      obtain rfl := Option.some.inj (hq.symm.trans hq')
      exact resume_goes hq e
    · rw [s.presses_resume_of_ne hqq]
      exact hkeep
  unfold step
  split
  · exact hkeep
  · rename_i k q'
    split
    · rename_i hq'
      have hqq : q ≠ q' := fun heq => by
        rw [heq, hq'] at hq
        cases hq
      change press.view.Goes ((Function.update s.presses q' _ q).map RegisterPress.view)
      rw [Function.update_of_ne hqq]
      exact hkeep
    · exact hkeep
  · exact hkeep
  all_goals
    split
    · rename_i hq'
      exact hresume hq'
    · exact hkeep

/-! ## The controllers -/

/-- The controllers of a mounted `UploadPage` hold the texts of its fields. -/
def Client.Typed (c : Client) : Prop :=
  ∀ p ∈ c.nav.mounted, ∀ uid name description, p.route = .upload uid name description →
    c.uploadPages p.id = ⟨uid, name.text, description.text⟩

/-- A page that hears of a keystroke elsewhere keeps its texts. -/
theorem ClientPage.texts_hear {x : BlocStream} {event : Except String String} {p : ClientPage}
    {uid : String} {name description : Field} (h : p.hear x event = .upload uid name description) :
    ∃ name' description', p = .upload uid name' description' ∧ name.text = name'.text ∧
      description.text = description'.text := by
  have htext : ∀ y (f : Field), (if y = x then { f with snapshot := some event } else f).text =
      f.text := fun y f => by split <;> rfl
  cases p with
  | upload uid' name' description' =>
    obtain ⟨rfl, rfl, rfl⟩ := ClientPage.upload.inj h
    exact ⟨name', description', rfl, htext _ _, htext _ _⟩
  | _ => cases h

section

variable {b : Backend} {c : Client} {a : ClientAction}

theorem Client.Typed.navigate (h : c.Typed) {n : Navigator ClientPage}
    (hn : ∀ p ∈ n.mounted, p ∈ c.nav.mounted ∨ p.route.uid? = none ∨ ∃ uid, p.route = .profile uid) :
    Client.Typed { c with nav := n } := by
  intro p hp uid name description hroute
  rcases hn p hp with hold | hnone | ⟨uid', hprofile⟩
  · exact h p hold uid name description hroute
  · rw [hroute] at hnone
    cases hnone
  · cases hroute.symm.trans hprofile

theorem Client.typed_goTo {n : Navigator ClientPage}
    (hn : ∀ p ∈ n.mounted, n.top = some p ∨ ∀ uid name description,
      p.route = .upload uid name description →
        c.uploadPages p.id = ⟨uid, name.text, description.text⟩) : (c.goTo n).Typed := by
  intro p hp uid name description hroute
  rw [nav_goTo] at hp
  obtain ⟨id, route⟩ := p
  obtain rfl : route = .upload uid name description := hroute
  unfold goTo
  split
  · rename_i htop
    rcases hn _ hp with hp' | hold
    · cases htop.symm.trans hp'
    · exact hold uid name description rfl
  · rename_i k uid' name' description' htop
    by_cases hk : id = k
    · subst hk
      have heq := Navigator.eq_of_id_eq hp (Navigator.mem_mounted_of_top htop) rfl
      obtain ⟨rfl, rfl, rfl⟩ := ClientPage.upload.inj (congrArg Page.route heq)
      exact Function.update_self _ _ _
    · refine (Function.update_of_ne hk _ _).trans ?_
      rcases hn _ hp with hp' | hold
      · exact absurd (congrArg Page.id (Option.some.inj (htop.symm.trans hp'))).symm hk
      · exact hold uid name description rfl
  · rename_i hnot
    rcases hn _ hp with hp' | hold
    · exact absurd hp' (hnot id uid name description)
    · exact hold uid name description rfl

theorem Client.Typed.opened (h : c.Typed) {e : ClientEvent}
    (he : e = .openRegister ∨ e = .openUpload ∨ ∃ x text, e = .type x text) :
    (c.goTo (c.moved e)).Typed := by
  have hstay : (c.goTo c.nav).Typed := typed_goTo fun p hp => .inr (h p hp)
  have hpush : ∀ r, (c.goTo (c.nav.push r)).Typed := by
    refine fun r => typed_goTo fun p hp => ?_
    rcases Navigator.mem_mounted_push.mp hp with rfl | hp
    · exact .inl rfl
    · exact .inr (h p hp)
  rcases he with rfl | rfl | ⟨x, text, rfl⟩
  · simp only [moved, ClientApp.step]
    split
    · exact hpush _
    · exact hstay
  · simp only [moved, ClientApp.step]
    split
    · exact hpush _
    · exact hstay
  · simp only [moved, ClientApp.step]
    split
    · rename_i top htop
      split
      · refine typed_goTo fun p hp => ?_
        obtain ⟨q, hq, rfl⟩ := Navigator.mem_mounted_modify.mp hp
        by_cases hid : q.id = top.id
        · left
          rw [Navigator.eq_of_id_eq hq (Navigator.mem_mounted_of_top htop) hid,
            Navigator.top_modify, htop, Option.map_some]
        · right
          intro uid name description hroute
          rw [if_neg hid] at hroute
          obtain ⟨name', description', hold, hname, hdescription⟩ := ClientPage.texts_hear hroute
          rw [hname, hdescription]
          exact h q hq uid name' description' hold
      · exact hstay
    · exact hstay

theorem Client.Typed.step (h : c.Typed) (b : Backend) (a : ClientAction) : (c.step b a).2.Typed := by
  have heffect := c.effect b a
  generalize c.step b a = x at heffect
  have hload : ∀ {c' : Client} k e, c'.Typed → (c'.load k e).Typed := by
    intro c' k e hc'
    unfold Typed
    rw [nav_load, uploadPages_load]
    exact hc'
  have hpop : ∀ page q, Client.Typed ({ c with nav := popOf page c.nav }.setJob q none) :=
    fun page q => h.navigate (n := popOf page c.nav) fun p hp => .inl (mem_mounted_popOf hp)
  cases heffect with
  | moved e he => exact h.navigate fun p hp => (mem_mounted_moved he hp).imp_right .inl
  | opened e he => exact h.opened he
  | loaded k page e hk he ha => exact hload k e h
  | entered q page uid hacc hpage hstack =>
    have hentered := h.navigate (n := c.moved (.signIn page uid)) fun p hp =>
      (mem_mounted_signIn hp).imp_right fun hp => .inr ⟨uid, hp⟩
    exact hentered
  | finished q page => exact hpop page q
  | refreshed q page k => exact hload k .refresh (hpop page q)
  | _ => exact h

end

theorem Client.typed_start (currentUser : Option String) : (Client.start currentUser).Typed := by
  intro p hp uid name description hroute
  rw [Navigator.mem_mounted_home hp] at hroute
  cases hroute

/-! ## The steps -/

/-- The event is none of a press. -/
def ClientEvent.Navigates : ClientEvent → Prop
  | .press _ => False
  | .answer _ => False
  | .raise _ => False
  | .noUser _ => False
  | _ => True

section

variable {b : Backend} {c : Client} {a : ClientAction} {q : ℕ}

theorem Client.view_moved (c : Client) {e : ClientEvent} (he : e.Navigates) :
    c.view.step e = { c.view with nav := c.moved e } := by
  unfold moved view
  cases e with
  | signIn page uid => simp only [ClientApp.step]; split <;> rfl
  | logout => simp only [ClientApp.step]; split <;> rfl
  | openRegister => simp only [ClientApp.step]; split <;> rfl
  | openUpload => simp only [ClientApp.step]; split <;> rfl
  | openDetails => simp only [ClientApp.step]; split <;> rfl
  | back => rfl
  | settle => rfl
  | type x text =>
    simp only [ClientApp.step]
    split
    · split <;> rfl
    · rfl
  | press q => cases he
  | answer q => cases he
  | raise q => cases he
  | noUser q => cases he

theorem Client.exists_run_moved (c : Client) {e : ClientEvent} (he : e.Navigates) :
    ∃ es, { c.view with nav := c.moved e } = Machine.run ClientApp.step c.view es :=
  ⟨[e], (c.view_moved he).symm⟩

theorem Client.presses_view {job : ClientJob} (hq : c.jobs q = some job) :
    c.view.presses q = job.press? := by
  change (c.jobs q).bind ClientJob.press? = _
  rw [hq, Option.bind_some]

theorem Client.presses_view_of_none (hq : c.jobs q = none) : c.view.presses q = none := by
  change (c.jobs q).bind ClientJob.press? = _
  rw [hq, Option.bind_none]

theorem Client.view_withUploads (b : Backend) (c : Client) (q : ℕ) (e : UploadEvent) :
    (c.withUploads b q e).2.view =
      c.view.setPress q ((((c.uploads b).step e).presses q).map UploadPress.view) := by
  refine (c.view_setJob q _).trans ?_
  congr 1
  cases ((c.uploads b).step e).presses q <;> rfl

theorem Client.view_withRegistration (b : Backend) (c : Client) (q : ℕ) (e : RegisterEvent) :
    (c.withRegistration b q e).2.view =
      c.view.setPress q ((((c.registration b).step e).presses q).map RegisterPress.view) := by
  refine (view_setJob _ q _).trans ?_
  change c.view.setPress q _ = _
  congr 1
  cases ((c.registration b).step e).presses q <;> rfl

theorem Client.exists_run_postNFT (b : Backend) (c : Client) (q : ℕ) (e : UploadEvent) :
    ∃ es, (c.postNFT b q e).2.view = Machine.run ClientApp.step c.view es := by
  unfold postNFT
  split
  · rename_i press hq
    have hview : c.view.presses q = some press.view := presses_view hq
    have hcall : ∃ es, (c.withUploads b q e).2.view = Machine.run ClientApp.step c.view es := by
      rw [view_withUploads]
      exact (Uploads.goes (presses_uploads.mpr hq) e).run hview
    dsimp only
    split
    · rename_i file nft hstage
      split
      · split
        · refine ⟨[], ?_⟩
          rw [Machine.run_nil, view_setJob, view_withUploads, ClientApp.setPress_setPress]
          refine ClientApp.setPress_self (hview.trans ?_)
          rw [UploadPress.view, hstage]
          rfl
        · exact hcall
      · exact hcall
    · exact hcall
  · exact ⟨[], rfl⟩

theorem Client.exists_run_postRegister (b : Backend) (c : Client) (q : ℕ) (e : RegisterEvent) :
    ∃ es, (c.postRegister b q e).2.view = Machine.run ClientApp.step c.view es := by
  unfold postRegister
  split
  · rename_i press hq
    have hview : c.view.presses q = some press.view := presses_view hq
    have hcall : ∃ es, (c.withRegistration b q e).2.view =
        Machine.run ClientApp.step c.view es := by
      rw [view_withRegistration]
      exact (Registration.goes (presses_registration.mpr hq) e).run hview
    dsimp only
    split
    · rename_i user name account clean hstage
      split
      · refine ⟨[], ?_⟩
        rw [Machine.run_nil, view_setJob, view_withRegistration, ClientApp.setPress_setPress]
        refine ClientApp.setPress_self (hview.trans ?_)
        rw [RegisterPress.view, hstage]
        rfl
      · exact hcall
    · exact hcall
  · exact ⟨[], rfl⟩

/-- The button of the page on top: the controllers hold what its fields show. -/
theorem Client.Typed.exists_run_press (h : c.Typed) (b : Backend) (q : ℕ) :
    ∃ es, (c.press b q).2.view = Machine.run ClientApp.step c.view es := by
  unfold Client.press
  split
  · rename_i hq htop
    refine ⟨[], ?_⟩
    rw [Machine.run_nil, view_setJob]
    exact ClientApp.setPress_self (presses_view_of_none hq)
  · rename_i k name email password hq htop
    refine ⟨[.press q], ?_⟩
    have hfree : (c.registration b).presses q = none := by
      change (c.jobs q).bind _ = _
      rw [hq]
      rfl
    have htop' : c.view.nav.top = some ⟨k, .register name email password⟩ := htop
    rw [Machine.run_cons, Machine.run_nil, view_withRegistration]
    simp only [Registration.step, hfree, Registration.presses_setPress_self, ClientApp.step,
      presses_view_of_none hq, htop']
    rfl
  · rename_i k uid name description hq htop
    refine ⟨[.press q], ?_⟩
    have hfree : (c.uploads b).presses q = none := by
      change (c.jobs q).bind _ = _
      rw [hq]
      rfl
    have htop' : c.view.nav.top = some ⟨k, .upload uid name description⟩ := htop
    have htexts : (c.uploads b).pages k = ⟨uid, name.text, description.text⟩ :=
      h _ (Navigator.mem_mounted_of_top htop) uid name description rfl
    rw [Machine.run_cons, Machine.run_nil, view_withUploads]
    simp only [Uploads.step, hfree, htexts, ClientApp.step, presses_view_of_none hq, htop',
      ClientPage.pressed]
    split
    · rw [hfree]
      rfl
    · simp only [Uploads.setPress, Function.update_self]
      rfl
  · exact ⟨[], rfl⟩

theorem Client.exists_run_finish {page : ℕ} {result : Bool}
    (hq : c.jobs q = some (.closing page result)) :
    ∃ es, (c.finish q page result).view = Machine.run ClientApp.step c.view es := by
  refine ⟨[.answer q], ?_⟩
  have hclosed : ({ c with nav := popOf page c.nav }.setJob q none).view =
      Machine.run ClientApp.step c.view [.answer q] := by
    have hview := presses_view hq
    rw [view_setJob, Machine.run_cons, Machine.run_nil]
    cases result with
    | true =>
      simp only [ClientApp.step, hview, ClientJob.press?, RemoteCall.next]
      rfl
    | false =>
      simp only [ClientApp.step, hview, ClientJob.press?, RemoteCall.next]
      rfl
  unfold finish
  dsimp only
  split
  · split
    · rw [view_load]
      exact hclosed
    · exact hclosed
  · exact hclosed

/-- `ClientApp` follows every step. -/
theorem Client.Typed.exists_run (h : c.Typed) (b : Backend) (a : ClientAction) :
    ∃ es, (c.step b a).2.view = Machine.run ClientApp.step c.view es := by
  cases a with
  | openRegister =>
    simp only [Client.step, view_goTo]
    exact c.exists_run_moved trivial
  | openUpload =>
    simp only [Client.step, view_goTo]
    exact c.exists_run_moved trivial
  | openDetails i =>
    simp only [Client.step]
    split
    · exact c.exists_run_moved (e := .openDetails) trivial
    · exact ⟨[], rfl⟩
  | logout => exact c.exists_run_moved (e := .logout) trivial
  | back => exact c.exists_run_moved (e := .back) trivial
  | settle => exact c.exists_run_moved (e := .settle) trivial
  | type x text =>
    simp only [Client.step, view_goTo]
    exact c.exists_run_moved trivial
  | refresh =>
    simp only [Client.step]
    split
    · rw [view_load]
      exact ⟨[], rfl⟩
    · exact ⟨[], rfl⟩
  | serve k f =>
    refine ⟨[], ?_⟩
    simp only [Client.step, Client.serve]
    split
    · split <;> rfl
    · rfl
  | answer k f =>
    refine ⟨[], ?_⟩
    simp only [Client.step, Client.answer]
    split
    · exact c.view_load k _
    · rfl
  | offline k f text => exact ⟨[], c.view_load k _⟩
  | wake k f => exact ⟨[], c.view_load k _⟩
  | press q => exact h.exists_run_press b q
  | signIn q uid =>
    simp only [Client.step, Client.postLogin]
    split
    · rename_i page email hq
      have hfree : c.view.presses q = none := presses_view hq
      split
      · split
        · refine ⟨[.signIn page uid], ?_⟩
          rw [Machine.run_cons, Machine.run_nil, c.view_moved (e := .signIn page uid) trivial]
          refine congrArg (ClientApp.mk _) ?_
          exact congrArg ClientApp.presses
            ((view_setJob _ q none).trans (ClientApp.setPress_self (s := c.view) hfree))
        · refine ⟨[], ?_⟩
          exact (view_setJob _ q none).trans (ClientApp.setPress_self (s := c.view) hfree)
      · exact ⟨[], rfl⟩
    · exact ⟨[], rfl⟩
  | pick q file => exact exists_run_postNFT b c q _
  | put q => exact exists_run_postNFT b c q _
  | link q url => exact exists_run_postNFT b c q _
  | update q => exact exists_run_postNFT b c q _
  | createUser q uid answer => exact exists_run_postRegister b c q _
  | updateProfile q answered => exact exists_run_postRegister b c q _
  | reload q => exact exists_run_postRegister b c q _
  | readCurrentUser q => exact exists_run_postRegister b c q _
  | set q answered => exact exists_run_postRegister b c q _
  | finish q =>
    simp only [Client.step]
    split
    · rename_i page result hq
      exact exists_run_finish hq
    · exact ⟨[], rfl⟩
  | fail q =>
    simp only [Client.step]
    split
    · exact exists_run_postNFT b c q _
    · exact exists_run_postRegister b c q _
    · rename_i hup hreg
      have hend : ∀ p : ClientPress, p.call.afterRaise = none → c.view.presses q = some p →
          ∃ es, c.view.setPress q none = Machine.run ClientApp.step c.view es := by
        intro p hp hview
        have hraised := ClientPress.Goes.raised (p := p)
        rw [hp] at hraised
        exact hraised.run hview
      rw [view_setJob]
      cases hq : c.jobs q with
      | none => exact ⟨[], ClientApp.setPress_self (presses_view_of_none hq)⟩
      | some job =>
        have hview := presses_view hq
        cases job with
        | upload press => exact absurd hq (hup press)
        | register press => exact absurd hq (hreg press)
        | signIn page email => exact ⟨[], ClientApp.setPress_self hview⟩
        | closing page result => cases result <;> exact hend _ rfl hview
  | signOut => exact ⟨[], rfl⟩

end

/-- **Each client app is a `ClientApp`**: what it shows and has under way, in any run of the apps,
is what a run of `ClientApp` leads to. -/
theorem client_runs_are_app_runs {users : Users} {accounts : List Account}
    {accepts : String → String → Bool} {currentUsers : ℕ → Option String} (es : List AppsEvent)
    (i : ℕ) : ∃ es', ((Machine.run Apps.step
      (Apps.start users accounts accepts currentUsers) es).clients i).view =
        Machine.run ClientApp.step .start es' := by
  have hinv : ∀ (s : Apps) e, (s.clients i).Typed → ((s.step e).clients i).Typed := by
    intro s e h
    rcases s.client_step e i with hkeep | ⟨a, rfl, hstep⟩
    · rw [hkeep]
      exact h
    · rw [hstep, Apps.clients_setClient]
      exact h.step s.backend a
  have hstep : ∀ (s : Apps) e, (s.clients i).Typed → ∃ es', ((s.step e).clients i).view =
      Machine.run ClientApp.step (s.clients i).view es' := by
    intro s e h
    rcases s.client_step e i with hkeep | ⟨a, rfl, hstep⟩
    · rw [hkeep]
      exact ⟨[], rfl⟩
    · rw [hstep, Apps.clients_setClient]
      exact h.exists_run s.backend a
  have hstart : ((Apps.start users accounts accepts currentUsers).clients i).Typed :=
    Client.typed_start (currentUsers i)
  exact Machine.exists_run_of_invariant (f := fun s : Apps => (s.clients i).view)
    (I := fun s : Apps => (s.clients i).Typed) hinv hstep hstart es

end FlutterThree
