import FlutterThree.Validators
import FlutterThree.Lib.Machine
import FlutterThree.Lib.Navigator

/-!
# The client app

A navigator of `LoginPage`, `ProfilePage`, `NFTDetails`, `RegisterPage` and `UploadPage`, with the
presses of 'Register' and 'Select file and upload' that are under way. What a press sends is in
`FlutterThree.Upload` and `FlutterThree.Register`; here it only goes from one remote call to the next,
and pops a page at the end. The wallets on a `ProfilePage` are in `FlutterThree.Refresh`.

All text fields share the four streams of one `Bloc`. A keystroke is an event of one stream, and every
mounted page that has a field on the stream shows the verdict on it. `errors_own_iff` says for which
runs every field nevertheless shows the verdict on its own text.
-/

namespace FlutterThree

open Flutter

/-! ## `bloc.dart` -/

inductive BlocStream where
  | email
  | password
  | name
  | description
  deriving DecidableEq

/-- What a subscriber receives for a text. -/
def BlocStream.validate : BlocStream → String → Except String String
  | .email => validateEmail
  | .password => validatePassword
  | .name => validateName
  | .description => validateDescription

/-- The error text for what a `StreamBuilder` has received last. -/
def verdictText : Option (Except String String) → String
  | some (.error message) => message
  | _ => ""

/-! ## Pages -/

/-- A text field in the `StreamBuilder` of its stream. -/
structure Field where
  /-- The last text typed, if any; the text of the controller. -/
  typed : Option String
  /-- The last event received. -/
  snapshot : Option (Except String String)

def Field.empty : Field := ⟨none, none⟩

def Field.text (f : Field) : String := f.typed.getD ""

def Field.errorText (f : Field) : String := verdictText f.snapshot

inductive ClientPage where
  | login (email password : Field)
  | profile (uid : String)
  | details
  | register (name email password : Field)
  | upload (uid : String) (name description : Field)

/-- The field of a page on a stream. -/
def ClientPage.field : ClientPage → BlocStream → Option Field
  | .login email _, .email => some email
  | .login _ password, .password => some password
  | .register name _ _, .name => some name
  | .register _ email _, .email => some email
  | .register _ _ password, .password => some password
  | .upload _ name _, .name => some name
  | .upload _ _ description, .description => some description
  | _, _ => none

/-- A change of the fields, each by its stream. -/
def ClientPage.mapFields (f : BlocStream → Field → Field) : ClientPage → ClientPage
  | .login email password => .login (f .email email) (f .password password)
  | .profile uid => .profile uid
  | .details => .details
  | .register name email password =>
    .register (f .name name) (f .email email) (f .password password)
  | .upload uid name description => .upload uid (f .name name) (f .description description)

/-- A text is typed into the field on `x`. -/
def ClientPage.type (x : BlocStream) (text : String) : ClientPage → ClientPage :=
  .mapFields fun y f => if y = x then { f with typed := some text } else f

/-- The subscriptions to `x` receive an event. -/
def ClientPage.hear (x : BlocStream) (event : Except String String) : ClientPage → ClientPage :=
  .mapFields fun y f => if y = x then { f with snapshot := some event } else f

/-- `RegisterPage` or `UploadPage`: a handler of the page can close it. -/
def ClientPage.IsForm : ClientPage → Prop
  | .register _ _ _ => True
  | .upload _ _ _ => True
  | _ => False

/-! ## Presses -/

/-- The remote calls of `postNFT`, and those of `postRegister`. -/
inductive RemoteCall where
  | pickImage
  | put
  | getDownloadURL
  | update
  | createUser
  | updateProfile
  | reload
  | set

/-- The call after one that was answered; the last ones are followed by the `pop`. -/
def RemoteCall.next : RemoteCall → Option RemoteCall
  | .pickImage => some .put
  | .put => some .getDownloadURL
  | .getDownloadURL => some .update
  | .update => none
  | .createUser => some .updateProfile
  | .updateProfile => some .reload
  | .reload => some .set
  | .set => none

/-- The call after one that raised, if the handler goes on: `registerUsingEmailPassword` catches, and
returns the user it has created. -/
def RemoteCall.afterRaise : RemoteCall → Option RemoteCall
  | .updateProfile => some .set
  | .reload => some .set
  | _ => none

structure ClientPress where
  page : ℕ
  call : RemoteCall

/-- The first call of the handler behind the button of a page, unless it returns at once. -/
def ClientPage.pressed : ClientPage → Option RemoteCall
  | .register _ _ _ => some .createUser
  | .upload _ name description =>
    if name.text = "" ∨ description.text = "" then none else some .pickImage
  | _ => none

/-! ## Steps -/

structure ClientApp where
  nav : Navigator ClientPage
  presses : ℕ → Option ClientPress

def ClientApp.start : ClientApp := ⟨.home (.login .empty .empty), fun _ => none⟩

inductive ClientEvent where
  /-- `postLogin` of a login page has signed `uid` in. -/
  | signIn (page : ℕ) (uid : String)
  | logout
  | openRegister
  | openUpload
  | openDetails
  /-- The arrow of the app bar, or the system's back. -/
  | back
  /-- The exit transitions end. -/
  | settle
  /-- The text of a field of the page on top changes. -/
  | type (x : BlocStream) (text : String)
  /-- The button of the page on top; `q` numbers the press. -/
  | press (q : ℕ)
  /-- The call the press waits for is answered. -/
  | answer (q : ℕ)
  /-- It raises. -/
  | raise (q : ℕ)
  /-- `registerUsingEmailPassword` returns null after the `reload`. -/
  | noUser (q : ℕ)

def ClientApp.setPress (s : ClientApp) (q : ℕ) (press : Option ClientPress) : ClientApp :=
  { s with presses := Function.update s.presses q press }

/-- The handler of a press goes on with a call, or ends. -/
def ClientApp.goOn (s : ClientApp) (q page : ℕ) (call : Option RemoteCall) : ClientApp :=
  s.setPress q (call.map fun c => ⟨page, c⟩)

/-- `Navigator.of(context).pop()`, which raises when the page of the context is gone. -/
def popOf (page : ℕ) (n : Navigator ClientPage) : Navigator ClientPage :=
  if (n.find page).isSome then n.pop else n

def ClientApp.step (s : ClientApp) : ClientEvent → ClientApp
  | .signIn page uid =>
    match s.nav.find page with
    | some (.login _ _) => { s with nav := s.nav.pushReplacement (.profile uid) }
    | _ => s
  | .logout =>
    match s.nav.top with
    | some ⟨_, .profile _⟩ => { s with nav := s.nav.pushReplacement (.login .empty .empty) }
    | _ => s
  | .openRegister =>
    match s.nav.top with
    | some ⟨_, .login _ _⟩ => { s with nav := s.nav.push (.register .empty .empty .empty) }
    | _ => s
  | .openUpload =>
    match s.nav.top with
    | some ⟨_, .profile uid⟩ => { s with nav := s.nav.push (.upload uid .empty .empty) }
    | _ => s
  | .openDetails =>
    match s.nav.top with
    | some ⟨_, .profile _⟩ => { s with nav := s.nav.push .details }
    | _ => s
  | .back => { s with nav := if 2 ≤ s.nav.stack.length then s.nav.pop else s.nav }
  | .settle => { s with nav := s.nav.settle }
  | .type x text =>
    match s.nav.top with
    | some top =>
      if (top.route.field x).isSome then
        { s with nav := s.nav.modify fun id page =>
            (if id = top.id then page.type x text else page).hear x (x.validate text) }
      else s
    | none => s
  | .press q =>
    match s.presses q, s.nav.top with
    | none, some top => s.goOn q top.id top.route.pressed
    | _, _ => s
  | .answer q =>
    match s.presses q with
    | some ⟨page, call⟩ =>
      match call.next with
      | some next => s.goOn q page (some next)
      | none => { s with nav := popOf page s.nav }.goOn q page none
    | none => s
  | .raise q =>
    match s.presses q with
    | some ⟨page, call⟩ => s.goOn q page call.afterRaise
    | none => s
  | .noUser q =>
    match s.presses q with
    | some ⟨page, .reload⟩ => s.goOn q page none
    | _ => s

/-! ## What a step does -/

theorem field_login_empty (x : BlocStream) (f : Field)
    (h : (ClientPage.login .empty .empty).field x = some f) : f = .empty := by
  cases x with
  | email => exact (Option.some.inj h).symm
  | password => exact (Option.some.inj h).symm
  | name => cases h
  | description => cases h

theorem field_register_empty (x : BlocStream) (f : Field)
    (h : (ClientPage.register .empty .empty .empty).field x = some f) : f = .empty := by
  cases x with
  | email => exact (Option.some.inj h).symm
  | password => exact (Option.some.inj h).symm
  | name => exact (Option.some.inj h).symm
  | description => cases h

theorem field_upload_empty (uid : String) (x : BlocStream) (f : Field)
    (h : (ClientPage.upload uid .empty .empty).field x = some f) : f = .empty := by
  cases x with
  | email => cases h
  | password => cases h
  | name => exact (Option.some.inj h).symm
  | description => exact (Option.some.inj h).symm

/-- What a step can do to the state. New pages have empty fields, and are pushed on no form. -/
inductive ClientApp.Effect (s : ClientApp) (e : ClientEvent) : ClientApp → Prop where
  | keep : Effect s e s
  | replaced (r : ClientPage) (hr : ∀ x f, r.field x = some f → f = .empty) :
      Effect s e { s with nav := s.nav.pushReplacement r }
  | pushed (p : Page ClientPage) (r : ClientPage) (htop : s.nav.top = some p)
      (hp : ¬ p.route.IsForm) (hr : ∀ x f, r.field x = some f → f = .empty) :
      Effect s e { s with nav := s.nav.push r }
  | popped : Effect s e { s with nav := s.nav.pop }
  | settled : Effect s e { s with nav := s.nav.settle }
  | typed (x : BlocStream) (text : String) (top : Page ClientPage) (he : e = .type x text) :
      Effect s e { s with nav := s.nav.modify fun id page =>
        (if id = top.id then page.type x text else page).hear x (x.validate text) }
  | pressed (q : ℕ) (p : Page ClientPage) (htop : s.nav.top = some p) :
      Effect s e (s.goOn q p.id p.route.pressed)
  | called (q page : ℕ) (call : RemoteCall) (next : Option RemoteCall)
      (hq : s.presses q = some ⟨page, call⟩) : Effect s e (s.goOn q page next)
  | closed (q page : ℕ) : Effect s e ({ s with nav := popOf page s.nav }.goOn q page none)

/-- Every step is one of these. -/
theorem ClientApp.effect (s : ClientApp) (e : ClientEvent) : s.Effect e (s.step e) := by
  cases e with
  | signIn page uid =>
    simp only [step]
    split
    · exact .replaced _ fun x f hf => by cases hf
    · exact .keep
  | logout =>
    simp only [step]
    split
    · exact .replaced _ field_login_empty
    · exact .keep
  | openRegister =>
    simp only [step]
    split
    · rename_i htop
      exact .pushed _ _ htop id field_register_empty
    · exact .keep
  | openUpload =>
    simp only [step]
    split
    · rename_i uid htop
      exact .pushed _ _ htop id (field_upload_empty uid)
    · exact .keep
  | openDetails =>
    simp only [step]
    split
    · rename_i htop
      exact .pushed _ _ htop id fun x f hf => by cases hf
    · exact .keep
  | back =>
    simp only [step]
    split
    · exact .popped
    · exact .keep
  | settle => exact .settled
  | type x text =>
    simp only [step]
    split
    · rename_i top _
      split
      · exact .typed x text top rfl
      · exact .keep
    · exact .keep
  | press q =>
    simp only [step]
    split
    · rename_i top _ htop
      exact .pressed q top htop
    · exact .keep
  | answer q =>
    simp only [step]
    split
    · rename_i page call hq
      split
      · exact .called q page call _ hq
      · exact .closed q page
    · exact .keep
  | raise q =>
    simp only [step]
    split
    · rename_i page call hq
      exact .called q page call _ hq
    · exact .keep
  | noUser q =>
    simp only [step]
    split
    · rename_i page hq
      exact .called q page .reload none hq
    · exact .keep

/-! ## Fields -/

theorem ClientPage.field_mapFields (f : BlocStream → Field → Field) (p : ClientPage)
    (x : BlocStream) : (p.mapFields f).field x = (p.field x).map (f x) := by
  cases p with
  | login email password => cases x <;> rfl
  | profile uid => rfl
  | details => rfl
  | register name email password => cases x <;> rfl
  | upload uid name description => cases x <;> rfl

theorem ClientPage.isForm_mapFields {f : BlocStream → Field → Field} {p : ClientPage} :
    (p.mapFields f).IsForm ↔ p.IsForm := by
  cases p <;> rfl

/-- The error shown under a field is the verdict on the last text typed into it, if any. -/
def Field.ErrorOwn (f : Field) (x : BlocStream) : Prop :=
  f.errorText = verdictText (f.typed.map x.validate)

/-- So it is under every field of the page. -/
def ClientPage.ErrorsOwn (p : ClientPage) : Prop := ∀ x f, p.field x = some f → f.ErrorOwn x

/-- So it is on every mounted page. -/
def ClientApp.ErrorsOwn (s : ClientApp) : Prop := ∀ p ∈ s.nav.mounted, p.route.ErrorsOwn

/-- At a keystroke, the verdict on the text is that on the last text of every other mounted field of
the same stream. -/
def SameVerdict (s : ClientApp) (e : ClientEvent) : Prop :=
  ∀ x text top, e = .type x text → s.nav.top = some top → (top.route.field x).isSome →
    ∀ p ∈ s.nav.mounted, p.id ≠ top.id → ∀ f, p.route.field x = some f →
      verdictText (f.typed.map x.validate) = verdictText (some (x.validate text))

theorem ClientPage.errorsOwn_of_empty {p : ClientPage}
    (h : ∀ x f, p.field x = some f → f = .empty) : p.ErrorsOwn := by
  intro x f hf
  rw [h x f hf]
  rfl

/-- New pages have empty fields. -/
theorem ClientApp.ErrorsOwn.of_mounted {s s' : ClientApp} (h : s.ErrorsOwn)
    (hnew : ∀ p ∈ s'.nav.mounted, p ∈ s.nav.mounted ∨
      ∀ x f, p.route.field x = some f → f = .empty) : s'.ErrorsOwn := by
  intro p hp
  rcases hnew p hp with hold | hempty
  · exact h p hold
  · exact ClientPage.errorsOwn_of_empty hempty

/-- A field after a keystroke on `x`: its own text if it was typed into, and the event if it is on
the stream. -/
theorem ClientPage.field_keystroke (x : BlocStream) (text : String) (event : Except String String)
    (p : ClientPage) (own : Prop) [Decidable own] (y : BlocStream) :
    ((if own then p.type x text else p).hear x event).field y =
      if y = x then (p.field y).map fun f => ⟨if own then some text else f.typed, some event⟩
      else p.field y := by
  unfold hear type
  rw [field_mapFields]
  by_cases hy : y = x
  · simp only [if_pos hy]
    by_cases hown : own
    · simp only [if_pos hown, field_mapFields, if_pos hy, Option.map_map, Function.comp_def]
    · simp only [if_neg hown]
  · simp only [if_neg hy, Option.map_id']
    by_cases hown : own
    · simp only [if_pos hown, field_mapFields, if_neg hy, Option.map_id']
    · simp only [if_neg hown]

/-- A keystroke keeps every error where it belongs just when the verdict on it is the one shown
elsewhere anyway. -/
theorem ClientApp.errorsOwn_type_iff {s : ClientApp} (h : s.ErrorsOwn) (x : BlocStream)
    (text : String) : (s.step (.type x text)).ErrorsOwn ↔ SameVerdict s (.type x text) := by
  simp only [ClientApp.step]
  cases htop : s.nav.top with
  | none =>
    refine ⟨fun _ y t top _ htop' => ?_, fun _ => h⟩
    cases htop.symm.trans htop'
  | some top =>
    dsimp only
    by_cases hfield : (top.route.field x).isSome
    · rw [if_pos hfield]
      constructor
      · intro hafter y t top' he htop' hfield' p hp hne f hf
        obtain ⟨rfl, rfl⟩ := ClientEvent.type.inj he
        obtain rfl := Option.some.inj (htop.symm.trans htop')
        -- the field of another page heard the verdict, and its own text is still the old one
        have hheard : ((if p.id = top.id then p.route.type x text else p.route).hear x
            (x.validate text)).field x = some ⟨f.typed, some (x.validate text)⟩ := by
          rw [ClientPage.field_keystroke, if_pos rfl, hf]
          simp only [if_neg hne, Option.map_some]
        exact (hafter _ (Navigator.mem_mounted_modify.mpr ⟨p, hp, rfl⟩) x _ hheard).symm
      · intro hsame p hp y f hf
        obtain ⟨q, hq, rfl⟩ := Navigator.mem_mounted_modify.mp hp
        dsimp only at hf
        rw [ClientPage.field_keystroke] at hf
        by_cases hy : y = x
        · subst hy
          rw [if_pos rfl] at hf
          obtain ⟨g, hg, rfl⟩ := Option.map_eq_some_iff.mp hf
          unfold Field.ErrorOwn Field.errorText
          dsimp only
          split
          · rfl
          · rename_i hne
            exact (hsame y text top rfl htop hfield q hq hne g hg).symm
        · rw [if_neg hy] at hf
          exact h q hq y f hf
    · rw [if_neg hfield]
      refine ⟨fun _ y t top' he htop' hfield' => ?_, fun _ => h⟩
      obtain ⟨rfl, rfl⟩ := ClientEvent.type.inj he
      obtain rfl := Option.some.inj (htop.symm.trans htop')
      exact absurd hfield' hfield

theorem mem_mounted_popOf {page : ℕ} {n : Navigator ClientPage} {p : Page ClientPage}
    (h : p ∈ (popOf page n).mounted) : p ∈ n.mounted := by
  unfold popOf at h
  split at h
  · exact Navigator.mem_mounted_pop.mp h
  · exact h

/-- Only typing can put an error under the wrong field. -/
theorem ClientApp.ErrorsOwn.step {s : ClientApp} (h : s.ErrorsOwn) {e : ClientEvent}
    (hother : ∀ x text, e ≠ .type x text) : (s.step e).ErrorsOwn := by
  have heffect := s.effect e
  generalize s.step e = t at heffect
  cases heffect with
  | keep => exact h
  | replaced r hr =>
    refine h.of_mounted fun p hp => ?_
    rcases Navigator.mem_mounted_pushReplacement hp with rfl | hp
    · exact .inr hr
    · exact .inl hp
  | pushed top r htop hform hr =>
    refine h.of_mounted fun p hp => ?_
    rcases Navigator.mem_mounted_push.mp hp with rfl | hp
    · exact .inr hr
    · exact .inl hp
  | popped => exact h.of_mounted fun p hp => .inl (Navigator.mem_mounted_pop.mp hp)
  | settled => exact h.of_mounted fun p hp => .inl (Navigator.mem_mounted_of_settle hp)
  | typed x text top he => exact absurd he (hother x text)
  | pressed q p htop => exact h
  | called q page call next hq => exact h
  | closed q page => exact h.of_mounted fun p hp => .inl (mem_mounted_popOf hp)

theorem ClientApp.errorsOwn_step_iff {s : ClientApp} (h : s.ErrorsOwn) (e : ClientEvent) :
    SameVerdict s e ↔ (s.step e).ErrorsOwn := by
  by_cases he : ∃ x text, e = .type x text
  · obtain ⟨x, text, rfl⟩ := he
    exact (ClientApp.errorsOwn_type_iff h x text).symm
  · have hother : ∀ x text, e ≠ .type x text := fun x text heq => he ⟨x, text, heq⟩
    exact ⟨fun _ => h.step hother, fun _ x text top heq => absurd heq (hother x text)⟩

theorem ClientApp.errorsOwn_start : ClientApp.start.ErrorsOwn := by
  intro p hp
  rw [Navigator.mem_mounted_home hp]
  exact ClientPage.errorsOwn_of_empty field_login_empty

/-- **A field's error is about that field** in every state of a run, just when no keystroke has a
verdict that differs from the one on another mounted field of its stream. -/
theorem errors_own_iff (es : List ClientEvent) :
    (∀ pre post, es = pre ++ post → (Machine.run ClientApp.step .start pre).ErrorsOwn) ↔
      Machine.Along ClientApp.step SameVerdict .start es := by
  have hstep : ∀ s, ∀ e ∈ es, True → s.ErrorsOwn →
      (SameVerdict s e ↔ (s.step e).ErrorsOwn) := fun s e _ _ h => ClientApp.errorsOwn_step_iff h e
  have hinv : ∀ (_ : ClientApp) (_ : ClientEvent), True → True := fun _ _ h => h
  exact (Machine.along_iff_forall_states hinv hstep trivial ClientApp.errorsOwn_start).symm

/-- A bad email on the `RegisterPage`, above the `LoginPage`. -/
def badEmail : List ClientEvent := [.openRegister, .type .email "ann"]

/-- The `LoginPage`, on which nothing was typed, shows an error. -/
theorem badEmail_not_errorsOwn : ¬ (Machine.run ClientApp.step .start badEmail).ErrorsOwn := by
  intro h
  have hlogin : verdictText (some (validateEmail "ann")) = "" :=
    h ⟨0, .login ⟨none, some (validateEmail "ann")⟩ .empty⟩
      (List.mem_append_left _ (List.mem_cons_of_mem _ List.mem_cons_self)) .email _ rfl
  exact absurd hlogin (by decide)

end FlutterThree
