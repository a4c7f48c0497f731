import FlutterThree.Presses
import FlutterThree.Privileges
import FlutterThree.ClientApp

/-!
# Which page a handler closes

The handlers of `NftaddPage`, `UploadPage` and `RegisterPage` end with a `pop` of whatever page is on
top by then. Nothing is pushed on these pages, so a handler whose page is still on the stack closes
that page, and one whose page is disposed closes none. In between, while the page is in its exit
transition, the handler closes the page below.

`pages_close_only_themselves`: in both apps and in every run, handlers close only their own pages just
when none of them comes to its `pop` during the exit transition of its page.
-/

namespace FlutterThree

open Dart Firestore Flutter

/-! ## The add page -/

/-- The step of an 'Add an NFT' handler closes its own page or none. -/
def AddClosesItself (s : AdminApp) (e : AdminEvent) : Prop :=
  ∀ p texts b, e = .get p texts → s.jobs p = some (.pressed b) → b.button = .add →
    (s.sessions b.session).ClosesOnly ((s.step e).sessions b.session) b.page

/-- An 'Add an NFT' handler goes on while its page is not in its exit transition, or nothing is left
to close, or it raises before. -/
def AddNotClosing (s : AdminApp) (e : AdminEvent) : Prop :=
  ∀ p texts b, e = .get p texts → s.jobs p = some (.pressed b) → b.button = .add →
    ((s.sessions b.session).stack = [] ∨ ∀ page ∈ (s.sessions b.session).closing, page.id ≠ b.page) ∨
      ∃ x, (Handler.addNft texts).onPressed (s.db.users.get b.uid) = .error x

theorem ids_popWith (result : Bool) (n : Navigator AdminRoute) :
    (popWith result n).ids = n.ids.drop 1 := by
  have hrefresh : ∀ i, (if result then n.pop.modifyAt i AdminRoute.refresh else n.pop).ids =
      n.ids.drop 1 := by
    intro i
    split
    · rw [Navigator.ids_modifyAt, Navigator.ids_pop]
    · exact n.ids_pop
  unfold popWith
  split
  · exact hrefresh _
  · exact hrefresh _
  · exact n.ids_pop

/-- The session of a press that is answered. -/
theorem AdminApp.sessions_answer {s : AdminApp} {p : ℕ} {texts : NftArt} {b : NftPress}
    (hb : s.jobs p = some (.pressed b)) :
    (s.step (.get p texts)).sessions b.session =
      if ((s.db.step (.get p b.uid (b.button.handler texts))).writes p).isSome
      then b.button.finish b.page texts (s.sessions b.session) else s.sessions b.session := by
  simp only [AdminApp.step, AdminApp.answer, hb]
  exact AdminApp.sessions_onSession_self _ _ _

theorem Db.writes_get_of_ok {s : Db} {p : ℕ} {uid : String} {h : Handler} {data : Fields}
    (hfree : s.writes p = none) (hok : h.onPressed (s.users.get uid) = .ok data) :
    ((s.step (.get p uid h)).writes p).isSome := by
  have hsome : (Write.begin uid h (s.users.get uid)).isSome := by
    unfold Write.begin
    split
    · rfl
    · rename_i x hx
      cases hx.symm.trans hok
  simp only [Db.step, hfree, Function.update_self]
  exact hsome

theorem AdminApp.PressesSound.addClosesItself_iff {s : AdminApp} (h : s.PressesSound)
    (e : AdminEvent) : AddClosesItself s e ↔ AddNotClosing s e := by
  refine forall_congr' fun p => forall_congr' fun texts => forall_congr' fun b => ?_
  refine imp_congr_right fun he => imp_congr_right fun hb => imp_congr_right fun hadd => ?_
  have hlinked := h.linked p b hb
  have hfree := h.free p b hb
  have hisAdd : ∀ r, b.On r → r.IsAdd := fun r hr => ⟨b.uid, by rw [hr, hadd]; rfl⟩
  rw [he, AdminApp.sessions_answer hb, hadd]
  change _ ↔ _ ∨ ∃ x, (NftButton.add.handler texts).onPressed _ = .error x
  cases hdata : (NftButton.add.handler texts).onPressed (s.db.users.get b.uid) with
  | error x =>
    rw [Db.writes_get_of_error hfree hdata, Option.isSome_none, if_neg Bool.false_ne_true]
    exact ⟨fun _ => .inr ⟨x, rfl⟩, fun _ => .inl rfl⟩
  | ok data =>
    rw [if_pos (Db.writes_get_of_ok hfree hdata)]
    have hown : (s.sessions b.session).Owns b.page AdminRoute.IsAdd :=
      ⟨hlinked.old, fun page hpage hid => hisAdd _ (hlinked.on page hpage hid)⟩
    have hids : (NftButton.add.finish b.page texts (s.sessions b.session)).ids =
        if ((s.sessions b.session).find b.page).isSome then (s.sessions b.session).ids.drop 1
        else (s.sessions b.session).ids := by
      simp only [NftButton.finish]
      split
      · exact ids_popWith true _
      · rfl
    rw [Navigator.closesOnly_pop_iff hown (h.topOnly b.session) hids]
    exact ⟨.inl, fun hcase => hcase.resolve_right (by simp)⟩

/-! ## The forms of the client app -/

/-- The page of a press is a form as long as it is on the stack, and nothing is on top of a form. -/
structure ClientApp.PressesSound (s : ClientApp) : Prop where
  owned : ∀ q press, s.presses q = some press → s.nav.Owns press.page ClientPage.IsForm
  topOnly : s.nav.TopOnly ClientPage.IsForm

theorem ClientApp.PressesSound.start : ClientApp.start.PressesSound where
  owned q press hq := by cases hq
  topOnly p hp := by cases hp

theorem ClientApp.PressesSound.navigate {s : ClientApp} (h : s.PressesSound)
    {nav : Navigator ClientPage}
    (howns : ∀ k, s.nav.Owns k ClientPage.IsForm → nav.Owns k ClientPage.IsForm)
    (htop : nav.TopOnly ClientPage.IsForm) : ClientApp.PressesSound { s with nav := nav } :=
  ⟨fun q press hq => howns press.page (h.owned q press hq), htop⟩

theorem ClientApp.PressesSound.pushReplacement {s : ClientApp} (h : s.PressesSound)
    (r : ClientPage) : ClientApp.PressesSound { s with nav := s.nav.pushReplacement r } :=
  h.navigate (fun _ hk => hk.pushReplacement r) (h.topOnly.pushReplacement r)

theorem ClientApp.PressesSound.push {s : ClientApp} (h : s.PressesSound) {p : Page ClientPage}
    (htop : s.nav.top = some p) (hp : ¬ p.route.IsForm) (r : ClientPage) :
    ClientApp.PressesSound { s with nav := s.nav.push r } :=
  h.navigate (fun _ hk => hk.push r) (h.topOnly.push htop hp r)

theorem ClientApp.PressesSound.pop {s : ClientApp} (h : s.PressesSound) :
    ClientApp.PressesSound { s with nav := s.nav.pop } :=
  h.navigate (fun _ hk => hk.pop) h.topOnly.pop

theorem ClientApp.PressesSound.popOf {s : ClientApp} (h : s.PressesSound) (page : ℕ) :
    ClientApp.PressesSound { s with nav := popOf page s.nav } := by
  unfold FlutterThree.popOf
  split
  · exact h.pop
  · exact h

theorem ClientApp.PressesSound.goOn {s : ClientApp} (h : s.PressesSound) {page : ℕ}
    {call : Option RemoteCall} (hpage : ∀ c, call = some c → s.nav.Owns page ClientPage.IsForm)
    (q : ℕ) : (s.goOn q page call).PressesSound where
  owned q' press hq' := by
    rcases Machine.update_eq_some hq' with ⟨-, hnew⟩ | ⟨-, hold⟩
    · obtain ⟨c, hc, rfl⟩ := Option.map_eq_some_iff.mp hnew
      exact hpage c hc
    · exact h.owned q' press hold
  topOnly := h.topOnly

/-- A page whose button starts a handler is a form. -/
theorem ClientPage.isForm_of_pressed {p : ClientPage} {call : RemoteCall}
    (h : p.pressed = some call) : p.IsForm := by
  cases p with
  | register name email password => trivial
  | upload uid name description => trivial
  | _ => cases h

theorem ClientPage.isForm_keystroke {p : ClientPage} {x : BlocStream} {text : String}
    {event : Except String String} (own : Prop) [Decidable own] :
    ((if own then p.type x text else p).hear x event).IsForm ↔ p.IsForm := by
  unfold hear type
  rw [isForm_mapFields]
  split
  · exact isForm_mapFields
  · rfl

theorem ClientApp.PressesSound.step {s : ClientApp} (h : s.PressesSound) (e : ClientEvent) :
    (s.step e).PressesSound := by
  have heffect := s.effect e
  generalize s.step e = t at heffect
  cases heffect with
  | keep => exact h
  | replaced r hr => exact h.pushReplacement r
  | pushed p r htop hp hr => exact h.push htop hp r
  | popped => exact h.pop
  | settled => exact h.navigate (fun _ hk => hk.settle) h.topOnly
  | typed x text top he =>
    exact h.navigate (fun _ hk => hk.modify fun i r hr => (ClientPage.isForm_keystroke _).mpr hr)
      (h.topOnly.modify fun i r hr => (ClientPage.isForm_keystroke _).mp hr)
  | pressed q p htop =>
    exact h.goOn (fun c hc => Navigator.owns_of_top htop (ClientPage.isForm_of_pressed hc)) q
  | called q page call next hq => exact h.goOn (fun _ _ => h.owned q _ hq) q
  | closed q page => exact (h.popOf page).goOn (fun c hc => by cases hc) q

/-- The last call of a press is answered: its handler closes its own page or none. -/
def FormClosesItself (s : ClientApp) (e : ClientEvent) : Prop :=
  ∀ q press, e = .answer q → s.presses q = some press →
    s.nav.ClosesOnly (s.step e).nav press.page

/-- A handler comes to its `pop` while its page is not in its exit transition, or nothing is left to
close. -/
def FormNotClosing (s : ClientApp) (e : ClientEvent) : Prop :=
  ∀ q press, e = .answer q → s.presses q = some press → press.call.next = none →
    s.nav.stack = [] ∨ ∀ p ∈ s.nav.closing, p.id ≠ press.page

theorem ClientApp.PressesSound.formClosesItself_iff {s : ClientApp} (h : s.PressesSound)
    (e : ClientEvent) : FormClosesItself s e ↔ FormNotClosing s e := by
  refine forall_congr' fun q => forall_congr' fun press => ?_
  refine imp_congr_right fun he => imp_congr_right fun hq => ?_
  obtain ⟨page, call⟩ := press
  rw [he]
  simp only [ClientApp.step, hq]
  cases hnext : call.next with
  | some next => exact ⟨fun _ hnone => (by cases hnone), fun _ => .inl rfl⟩
  | none =>
    have hids : (FlutterThree.popOf page s.nav).ids =
        if (s.nav.find page).isSome then s.nav.ids.drop 1 else s.nav.ids := by
      unfold FlutterThree.popOf
      split
      · exact s.nav.ids_pop
      · rfl
    have hiff := Navigator.closesOnly_pop_iff (h.owned q _ hq) h.topOnly hids
    exact hiff.trans ⟨fun hcase _ => hcase, fun hcase => hcase rfl⟩

/-! ## Both apps -/

/-- **Pages close only themselves**: every handler of the three pages closes its own page or none, in a
run of the admin app and in one of the client app, just when none of them comes to its `pop` during
the exit transition of its page. -/
theorem pages_close_only_themselves (users : Users) (es : List AdminEvent)
    (fs : List ClientEvent) :
    (Machine.Along AdminApp.step AddClosesItself (AdminApp.start users) es ↔
      Machine.Along AdminApp.step AddNotClosing (AdminApp.start users) es) ∧
    (Machine.Along ClientApp.step FormClosesItself .start fs ↔
      Machine.Along ClientApp.step FormNotClosing .start fs) :=
  ⟨Machine.along_congr (fun _ e (h : AdminApp.PressesSound _) => h.step e)
      (fun _ e h => h.addClosesItself_iff e) (.start users),
    Machine.along_congr (fun _ e (h : ClientApp.PressesSound _) => h.step e)
      (fun _ e h => h.formClosesItself_iff e) .start⟩

/-- Ann presses 'Add an NFT' twice, and both handlers go on before the add page is gone. -/
def doubleAdd : List AdminEvent :=
  [.login 0 0 (some "ann"), .load 0 1, .openUser 0 0, .openAdd 0, .pressAdd 0 0, .pressAdd 0 1,
    .get 0 ⟨"Sea", "url", "At the sea"⟩, .get 1 ⟨"Sea", "url", "At the sea"⟩]

/-- Ann presses 'Register' and leaves the page, which is not gone yet when her document is set. -/
def lateRegistration : List ClientEvent :=
  [.openRegister, .press 0, .answer 0, .answer 0, .answer 0, .back, .answer 0]

/-- The second handler closes the grid below the add page, and the registration the login page. -/
theorem doubleAdd_closes_grid :
    ¬ Machine.Along AdminApp.step AddClosesItself (AdminApp.start annAndBob) doubleAdd ∧
      ¬ Machine.Along ClientApp.step FormClosesItself .start lateRegistration := by
  refine ⟨fun h => ?_, fun h => ?_⟩
  · obtain ⟨-, -, -, -, -, -, -, hlast, -⟩ := h
    have hcloses : [1] = [2, 1] ∨ [2, 1] = 3 :: [1] := hlast 1 _ _ rfl rfl rfl
    exact absurd hcloses (by decide)
  · obtain ⟨-, -, -, -, -, -, hlast, -⟩ := h
    have hcloses : [] = [0] ∨ [0] = 1 :: [] := hlast 0 _ rfl rfl
    exact absurd hcloses (by decide)

end FlutterThree
