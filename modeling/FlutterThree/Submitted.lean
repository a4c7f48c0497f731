import FlutterThree.Upload
import FlutterThree.Register

/-!
# What was submitted and what is stored

`postNFT` checks the texts of its fields when it is pressed, and reads them again after the file has
been picked and stored. `postRegister` passes the name on when it is pressed, and reads it again when
the account exists. The fields can be edited in between.

`submitted_is_stored`: entries and documents carry what was submitted whenever the fields hold, at the
second reading, what they held at the press.
-/

namespace FlutterThree

open Dart Firestore Storage

/-! ## Uploads -/

/-- Uploads, with the name and the description each press found in its fields, and the entries that
were written, each with those. No step of the app reads either. -/
structure SubmittedUploads where
  app : Uploads
  submitted : ℕ → String × String
  written : List (NftArt × (String × String))

def SubmittedUploads.start (users : Users) (pages : ℕ → UploadPage) : SubmittedUploads :=
  ⟨.start users pages, fun _ => ("", ""), []⟩

def SubmittedUploads.step (s : SubmittedUploads) (e : UploadEvent) : SubmittedUploads where
  app := s.app.step e
  submitted :=
    match e with
    | .press k q =>
      if (s.app.presses q).isSome then s.submitted
      else Function.update s.submitted q ((s.app.pages k).name, (s.app.pages k).description)
    | _ => s.submitted
  written :=
    match e with
    | .update q =>
      match s.app.presses q with
      | some ⟨_, .update _ nft⟩ => s.written ++ [(nft, s.submitted q)]
      | _ => s.written
    | _ => s.written

/-- The uploads step as they would without the record. -/
theorem SubmittedUploads.run_app (s : SubmittedUploads) (es : List UploadEvent) :
    (Machine.run SubmittedUploads.step s es).app = Machine.run Uploads.step s.app es :=
  Machine.run_map _ (f := SubmittedUploads.app) (fun _ _ => rfl) s es

/-- When the link arrives, the fields hold what they held at the press. -/
def UneditedTexts (s : SubmittedUploads) (e : UploadEvent) : Prop :=
  ∀ q url k file, e = .link q url → s.app.presses q = some ⟨k, .getDownloadURL file⟩ →
    s.app.bucket.CanIssue url (objectPath file) →
    ((s.app.pages k).name, (s.app.pages k).description) = s.submitted q

/-- The entries on their way to the store, and those that reached it, carry the texts that were
submitted, none of them empty. -/
structure SubmittedUploads.AsSubmitted (s : SubmittedUploads) : Prop where
  sent : ∀ q k file nft, s.app.presses q = some ⟨k, .update file nft⟩ →
    (nft.name, nft.desc) = s.submitted q
  nonempty : ∀ q press, s.app.presses q = some press →
    (s.submitted q).1 ≠ "" ∧ (s.submitted q).2 ≠ ""
  written : ∀ x ∈ s.written, (x.1.name, x.1.desc) = x.2 ∧ x.1.name ≠ "" ∧ x.1.desc ≠ ""

theorem SubmittedUploads.AsSubmitted.start (users : Users) (pages : ℕ → UploadPage) :
    (SubmittedUploads.start users pages).AsSubmitted where
  sent q k file nft hq := by cases hq
  nonempty q press hq := by cases hq
  written x hx := by cases hx

/-- How a press that is under way after a step has come about, with the texts it was made with. -/
inductive SubmittedUploads.NextPress (s : SubmittedUploads) (e : UploadEvent) (q : ℕ) :
    UploadPress → String × String → Prop where
  | keep (press : UploadPress) (hq : s.app.presses q = some press) :
      NextPress s e q press (s.submitted q)
  | begin (k : ℕ) (hname : (s.app.pages k).name ≠ "") (hdesc : (s.app.pages k).description ≠ "") :
      NextPress s e q ⟨k, .pickImage⟩ ((s.app.pages k).name, (s.app.pages k).description)
  | goOn (k : ℕ) (old stage : UploadStage) (hq : s.app.presses q = some ⟨k, old⟩)
      (hstage : ∀ file nft, stage ≠ .update file nft) :
      NextPress s e q ⟨k, stage⟩ (s.submitted q)
  | linked (k : ℕ) (file : PickedFile) (url : String) (he : e = .link q url)
      (hq : s.app.presses q = some ⟨k, .getDownloadURL file⟩)
      (hcan : s.app.bucket.CanIssue url (objectPath file)) :
      NextPress s e q
        ⟨k, .update file ⟨(s.app.pages k).name, url, (s.app.pages k).description⟩⟩ (s.submitted q)

/-- No step forgets what a press under way was made with. -/
theorem SubmittedUploads.submitted_step {s : SubmittedUploads} {q : ℕ} {press : UploadPress}
    (hq : s.app.presses q = some press) (e : UploadEvent) :
    (s.step e).submitted q = s.submitted q := by
  cases e with
  | press k q' =>
    simp only [SubmittedUploads.step]
    split
    · rfl
    · rename_i hfree
      refine Function.update_of_ne ?_ _ _
      rintro rfl
      rw [hq] at hfree
      exact hfree rfl
  | _ => rfl

theorem SubmittedUploads.submitted_step_press {s : SubmittedUploads} {k q : ℕ}
    (hq : s.app.presses q = none) :
    (s.step (.press k q)).submitted q = ((s.app.pages k).name, (s.app.pages k).description) := by
  simp only [SubmittedUploads.step, hq, Option.isSome_none, if_neg Bool.false_ne_true,
    Function.update_self]

/-- Every press after a step is one of these. -/
theorem SubmittedUploads.nextPress {s : SubmittedUploads} {e : UploadEvent} {q : ℕ}
    {press : UploadPress} (h : (s.step e).app.presses q = some press) :
    s.NextPress e q press ((s.step e).submitted q) := by
  have hkeep : s.app.presses q = some press → s.NextPress e q press ((s.step e).submitted q) := by
    intro hold
    rw [submitted_step hold]
    exact .keep press hold
  change (s.app.step e).presses q = some press at h
  have heffect := s.app.effect e
  generalize s.app.step e = t at heffect h
  cases heffect with
  | keep => exact hkeep h
  | other e' => exact hkeep h
  | type k page => exact hkeep h
  | press k q' he hq hname hdesc =>
    rcases Machine.update_eq_some h with ⟨rfl, hnew⟩ | ⟨-, hold⟩
    · obtain rfl := Option.some.inj hnew
      rw [he, submitted_step_press hq]
      exact .begin k hname hdesc
    · exact hkeep hold
  | pick q' k file hq =>
    rcases Machine.update_eq_some h with ⟨rfl, hnew⟩ | ⟨-, hold⟩
    · obtain rfl := Option.some.inj hnew
      rw [submitted_step hq]
      exact .goOn k .pickImage (.put file) hq fun _ _ h => by cases h
    · exact hkeep hold
  | put q' k file he hq =>
    rcases Machine.update_eq_some h with ⟨rfl, hnew⟩ | ⟨-, hold⟩
    · obtain rfl := Option.some.inj hnew
      rw [submitted_step hq]
      exact .goOn k (.put file) (.getDownloadURL file) hq fun _ _ h => by cases h
    · exact hkeep hold
  | link q' k file url he hq hcan =>
    rcases Machine.update_eq_some h with ⟨rfl, hnew⟩ | ⟨-, hold⟩
    · obtain rfl := Option.some.inj hnew
      rw [submitted_step hq]
      exact .linked k file url he hq hcan
    · exact hkeep hold
  | update q' k file nft he hq =>
    rcases Machine.update_eq_some h with ⟨-, hnew⟩ | ⟨-, hold⟩
    · cases hnew
    · exact hkeep hold
  | ended q' =>
    rcases Machine.update_eq_some h with ⟨-, hnew⟩ | ⟨-, hold⟩
    · cases hnew
    · exact hkeep hold

/-- The presses that are under way were made with texts that are not empty. -/
def SubmittedUploads.Checked (s : SubmittedUploads) : Prop :=
  ∀ q press, s.app.presses q = some press → (s.submitted q).1 ≠ "" ∧ (s.submitted q).2 ≠ ""

theorem SubmittedUploads.Checked.step {s : SubmittedUploads} (h : s.Checked) (e : UploadEvent) :
    (s.step e).Checked := by
  intro q press hq
  have hnext := nextPress hq
  generalize (s.step e).submitted q = texts at hnext
  cases hnext with
  | keep press hold => exact h q press hold
  | begin k hname hdesc => exact ⟨hname, hdesc⟩
  | goOn k old stage hold hstage => exact h q _ hold
  | linked k file url he hold hcan => exact h q _ hold

/-- The step sends an entry, for a press that was made with these texts. -/
def SubmittedUploads.Writes (s : SubmittedUploads) (e : UploadEvent) (texts : String × String)
    (nft : NftArt) : Prop :=
  ∃ q k file, e = .update q ∧ s.app.presses q = some ⟨k, .update file nft⟩ ∧ s.submitted q = texts

theorem SubmittedUploads.written_step {s : SubmittedUploads} {e : UploadEvent}
    {x : NftArt × (String × String)} (hx : x ∈ (s.step e).written) :
    x ∈ s.written ∨ s.Writes e x.2 x.1 := by
  cases e with
  | update q =>
    simp only [SubmittedUploads.step] at hx
    split at hx
    · rename_i k file nft hq
      rcases List.mem_append.mp hx with hx | hx
      · exact .inl hx
      · rw [List.mem_singleton.mp hx]
        exact .inr ⟨q, k, file, rfl, hq, rfl⟩
    · exact .inl hx
  | _ => exact .inl hx

theorem SubmittedUploads.AsSubmitted.step {s : SubmittedUploads} (h : s.AsSubmitted)
    {e : UploadEvent} (hunedited : UneditedTexts s e) : (s.step e).AsSubmitted where
  sent q k file nft hq := by
    have hnext := nextPress hq
    generalize (s.step e).submitted q = texts at hnext
    cases hnext with
    | keep press hold => exact h.sent q k file nft hold
    | goOn k old stage hold hstage => exact absurd rfl (hstage file nft)
    | linked k file url he hold hcan => exact hunedited q url k file he hold hcan
  nonempty := Checked.step h.nonempty e
  written x hx := by
    rcases written_step hx with hold | ⟨q, k, file, -, hq, htexts⟩
    · exact h.written x hold
    · have hsent := (h.sent q k file x.1 hq).trans htexts
      obtain ⟨hname, hdesc⟩ := h.nonempty q _ hq
      rw [htexts, ← hsent] at hname hdesc
      exact ⟨hsent, hname, hdesc⟩

/-! ## The name that a registration sets -/

/-- `registerUsingEmailPassword` returns a user: `currentUser`, or the created one when a call
raises. -/
def RegisterStage.Returns (currentUser : Option String) (q : ℕ) :
    RegisterStage → RegisterEvent → Prop
  | .updateProfile _, .updateProfile q' answered => q' = q ∧ answered = false
  | .currentUser _, .currentUser q' => q' = q ∧ currentUser.isSome
  | .updateProfile _, .fail q' => q' = q
  | .reload _, .fail q' => q' = q
  | .currentUser _, .fail q' => q' = q
  | _, _ => False

/-- When a press comes back from `registerUsingEmailPassword`, the name field of its page holds what
the press passed on. -/
def Registration.PassedOn (s : Registration) (e : RegisterEvent) : Prop :=
  ∀ q press, s.presses q = some press → press.stage.Returns s.currentUser q e →
    (s.pages press.page).name = press.name

/-- The names about to be set are those that were passed on. -/
def Registration.NameKept (s : Registration) : Prop :=
  ∀ q press user name account clean, s.presses q = some press →
    press.stage = .set user name account clean → name = press.name

/-- A press about to set a document was so before, or has just come back from
`registerUsingEmailPassword`, with the name its page holds. -/
def Registration.SetsSince (s : Registration) (e : RegisterEvent) (q : ℕ) (press : RegisterPress)
    (name : String) : Prop :=
  s.presses q = some press ∨ ∃ old, s.presses q = some old ∧
    old.stage.Returns s.currentUser q e ∧ old.name = press.name ∧ (s.pages old.page).name = name

section

variable {s t : Registration} {e : RegisterEvent} {q q' : ℕ} {press old : RegisterPress}
  {user name account : String} {clean : Bool}

theorem Registration.setsSince_setPress {new : Option RegisterPress}
    (h : (t.setPress q' new).presses q = some press)
    (hstage : press.stage = .set user name account clean) (ht : t.presses = s.presses)
    (hnew : ∀ p, new = some p → p.stage ≠ .set user name account clean) :
    s.SetsSince e q press name := by
  rcases Machine.update_eq_some h with ⟨-, hnow⟩ | ⟨-, hold⟩
  · exact absurd hstage (hnew press hnow)
  · exact .inl (ht ▸ hold)

theorem Registration.setsSince_postRegister {user' account' : String} {clean' : Bool}
    (h : (t.postRegister q' old user' account' clean').presses q = some press)
    (hstage : press.stage = .set user name account clean) (ht : t.presses = s.presses)
    (hpages : t.pages = s.pages) (hq' : s.presses q' = some old)
    (hreturns : old.stage.Returns s.currentUser q' e) : s.SetsSince e q press name := by
  rcases Machine.update_eq_some h with ⟨rfl, hnow⟩ | ⟨-, hold⟩
  · obtain rfl := Option.some.inj hnow
    cases hstage
    exact .inr ⟨old, hq', hreturns, rfl, by rw [hpages]⟩
  · exact .inl (ht ▸ hold)

/-- Every press about to set a document is one of these. -/
theorem Registration.setsSince (h : (s.step e).presses q = some press)
    (hstage : press.stage = .set user name account clean) : s.SetsSince e q press name := by
  have heffect := s.effect e
  generalize s.step e = t at heffect h
  cases heffect with
  | keep => exact .inl h
  | type k fields => exact .inl h
  | signOut => exact .inl h
  | press k q' he hq' => exact setsSince_setPress h hstage rfl (by simp)
  | ended q' => exact setsSince_setPress h hstage rfl (by simp)
  | created q' old uid answer user' next he hq' hnone haccepts hfresh hnext =>
    refine setsSince_setPress h hstage rfl fun p hp => ?_
    rcases hnext with rfl | rfl
    · cases hp
    · obtain rfl := Option.some.inj hp
      simp
  | named q' old user' he hq' hold => exact setsSince_setPress h hstage rfl (by simp)
  | lost q' old user' he hq' hold =>
    refine setsSince_postRegister h hstage rfl rfl hq' ?_
    rw [he, hold]
    exact ⟨rfl, rfl⟩
  | reloaded q' old user' hq' hold => exact setsSince_setPress h hstage rfl (by simp)
  | returned q' old user' account' he hq' hold huser =>
    refine setsSince_postRegister h hstage rfl rfl hq' ?_
    rw [he, hold, huser]
    exact ⟨rfl, rfl⟩
  | noUser q' old account' he hq' hold huser =>
    exact setsSince_setPress h hstage rfl (by simp)
  | raised q' old user' he hq' hold =>
    refine setsSince_postRegister h hstage rfl rfl hq' ?_
    rw [he]
    rcases hold with hold | hold | hold
    · rw [hold]; rfl
    · rw [hold]; rfl
    · rw [hold]; rfl
  | set q' answered old user' name' account' clean' hq' hold =>
    exact setsSince_setPress h hstage rfl (by simp)

theorem Registration.NameKept.step (h : s.NameKept) (hpassed : s.PassedOn e) :
    (s.step e).NameKept := by
  intro q press user name account clean hq hstage
  rcases Registration.setsSince hq hstage with hold | ⟨old, hold, hreturns, hname, rfl⟩
  · exact h q press user name account clean hold hstage
  · exact (hpassed q old hold hreturns).trans hname

end

/-! ## Display names -/

/-- The display name of an account. -/
def Registration.HasName (s : Registration) (uid name : String) : Prop :=
  ∃ a ∈ s.accounts, a.uid = uid ∧ a.displayName = some name

/-- The account a press has named, all calls answered. -/
def RegisterStage.named : RegisterStage → Option String
  | .reload user => some user
  | .currentUser user => some user
  | .set _ _ account true => some account
  | _ => none

theorem RegisterStage.account_of_named {stage : RegisterStage} {uid : String}
    (h : stage.named = some uid) : stage.account = some uid := by
  unfold RegisterStage.named at h
  split at h
  · exact h
  · exact h
  · exact h
  · cases h

theorem Registration.HasName.mono {s s' : Registration} {uid name : String}
    (h : s.HasName uid name) (hsub : ∀ a ∈ s.accounts, a ∈ s'.accounts) : s'.HasName uid name := by
  obtain ⟨a, ha, huid, hname⟩ := h
  exact ⟨a, hsub a ha, huid, hname⟩

theorem Registration.HasName.profile {s : Registration} {uid name : String}
    (h : s.HasName uid name) {user : String} (hne : uid ≠ user) (name' : String) :
    (s.profile user name').HasName uid name := by
  obtain ⟨a, ha, rfl, hname⟩ := h
  exact ⟨a, List.mem_map.mpr ⟨a, ha, if_neg hne⟩, rfl, hname⟩

theorem Registration.hasName_profile {s : Registration} {user : String} (h : user ∈ s.uids)
    (name : String) : (s.profile user name).HasName user name := by
  obtain ⟨a, ha, rfl⟩ := List.mem_map.mp h
  exact ⟨_, List.mem_map.mpr ⟨a, ha, if_pos rfl⟩, rfl, rfl⟩

/-- The accounts that presses have named have the names that were passed on. -/
structure Registration.Displayed (s : Registration) : Prop where
  named : ∀ q press uid, s.presses q = some press → press.stage.named = some uid →
    s.HasName uid press.name
  done : ∀ d ∈ s.done, ∀ name, d.document = some (d.account, name) → s.HasName d.account name

/-- A press changes: whom it has named has the name it passed on. -/
theorem Registration.Displayed.setPress {s : Registration} (h : s.Displayed) (q : ℕ)
    {press : Option RegisterPress}
    (hnamed : ∀ p uid, press = some p → p.stage.named = some uid → s.HasName uid p.name) :
    (s.setPress q press).Displayed where
  named q' p uid hp hstage := by
    rcases Machine.update_eq_some hp with ⟨-, hnow⟩ | ⟨-, hold⟩
    · exact hnamed p uid hnow hstage
    · exact h.named q' p uid hold hstage
  done := h.done

theorem Registration.Displayed.endPress {s : Registration} (h : s.Displayed) (q : ℕ) :
    (s.setPress q none).Displayed :=
  h.setPress q fun _ _ hp => by cases hp

/-- A press goes on to a call before which it has named no account. -/
theorem Registration.Displayed.goOn {s : Registration} (h : s.Displayed) (q : ℕ)
    {press : RegisterPress} (hnone : press.stage.named = none) :
    (s.setPress q (some press)).Displayed := by
  refine h.setPress q fun p uid hp hnamed => ?_
  obtain rfl := Option.some.inj hp
  cases hnone.symm.trans hnamed

/-- A press completes. -/
theorem Registration.Displayed.complete {s : Registration} (h : s.Displayed) {db : Db}
    {done : List Registered}
    (hdone : ∀ d ∈ done, ∀ name, d.document = some (d.account, name) → s.HasName d.account name)
    (q : ℕ) : Registration.Displayed ({ s with db := db, done := done }.setPress q none) := by
  have hcompleted : Registration.Displayed { s with db := db, done := done } := ⟨h.named, hdone⟩
  exact hcompleted.endPress q

/-- The press has the display name of its account set, which is no other press's. -/
theorem Registration.Displayed.profile {s : Registration} (h : s.Displayed)
    (hseparate : s.Separate) {q : ℕ} {press : RegisterPress} {user : String}
    (hq : s.presses q = some press) (hstage : press.stage = .updateProfile user) :
    (s.profile user press.name).Displayed where
  named q' p uid hp hnamed := by
    refine (h.named q' p uid hp hnamed).profile ?_ press.name
    rintro rfl
    have haccount : press.stage.account = some uid := by rw [hstage]; rfl
    obtain rfl := hseparate.distinct q' q p press uid hp hq (RegisterStage.account_of_named hnamed)
      haccount
    obtain rfl := Option.some.inj (hq.symm.trans hp)
    rw [hstage] at hnamed
    cases hnamed
  done d hd name hdoc := by
    refine (h.done d hd name hdoc).profile ?_ press.name
    intro heq
    refine hseparate.done_ended d hd q press hq ?_
    rw [hstage, heq]
    rfl

theorem Registration.Displayed.create {s : Registration} (h : s.Displayed) (q : ℕ)
    {press : RegisterPress} {uid : String} (user : Option String) {next : Option RegisterPress}
    (hnext : next = none ∨ next = some { press with stage := .updateProfile uid }) :
    Registration.Displayed ({ s with
      accounts := s.accounts ++ [Account.mk uid press.email none]
      currentUser := user }.setPress q next) := by
  have hadd : Registration.Displayed
      { s with accounts := s.accounts ++ [Account.mk uid press.email none], currentUser := user } :=
    ⟨fun q p u hp hu => (h.named q p u hp hu).mono fun a ha => List.mem_append_left _ ha,
      fun d hd name hdoc => (h.done d hd name hdoc).mono fun a ha => List.mem_append_left _ ha⟩
  rcases hnext with rfl | rfl
  · exact hadd.endPress q
  · exact hadd.goOn q rfl

theorem Registration.Displayed.step {s : Registration} (h : s.Displayed) (hkept : s.NameKept)
    (hseparate : s.Separate) (e : RegisterEvent) : (s.step e).Displayed := by
  have heffect := s.effect e
  generalize s.step e = t at heffect
  cases heffect with
  | keep => exact h
  | type k fields => exact ⟨h.named, h.done⟩
  | signOut => exact ⟨h.named, h.done⟩
  | press k q he hq => exact h.goOn q rfl
  | ended q => exact h.endPress q
  | created q press uid answer user next he hq hnone haccepts hfresh hnext =>
    exact h.create q user hnext
  | named q press user he hq hstage =>
    have hcreated : user ∈ s.uids := hseparate.created q press user hq (by rw [hstage]; rfl)
    refine (h.profile hseparate hq hstage).setPress q fun p u hp hu => ?_
    obtain rfl := Option.some.inj hp
    obtain rfl := Option.some.inj hu
    exact Registration.hasName_profile hcreated press.name
  | lost q press user he hq hstage => exact (h.profile hseparate hq hstage).goOn q rfl
  | reloaded q press user hq hstage =>
    refine h.setPress q fun p u hp hu => ?_
    obtain rfl := Option.some.inj hp
    exact h.named q press u hq (by rw [hstage]; exact hu)
  | returned q press user account he hq hstage huser =>
    refine h.setPress q fun p u hp hu => ?_
    obtain rfl := Option.some.inj hp
    exact h.named q press u hq (by rw [hstage]; exact hu)
  | noUser q press account he hq hstage huser =>
    refine h.complete (fun d hd name hdoc => ?_) q
    rcases List.mem_append.mp hd with hd | hd
    · exact h.done d hd name hdoc
    · rw [List.mem_singleton.mp hd] at hdoc
      cases hdoc
  | raised q press user he hq hstage => exact h.goOn q rfl
  | set q answered press user name account clean hq hstage =>
    refine h.complete (fun d hd name' hdoc => ?_) q
    split at hd
    · rename_i hclean
      rcases List.mem_append.mp hd with hd | hd
      · exact h.done d hd name' hdoc
      · -- the document has the name that was passed on, and so has the account
        rw [List.mem_singleton.mp hd] at hdoc ⊢
        obtain ⟨-, rfl⟩ := Prod.mk.inj (Option.some.inj hdoc)
        obtain rfl : clean = true := (Bool.and_eq_true_iff.mp hclean).2
        rw [hkept q press user name account true hq hstage]
        exact h.named q press account hq (by rw [hstage]; rfl)
    · exact h.done d hd name' hdoc

/-- A press sets its document with the name that was passed on, and its account has this name. -/
structure Registration.Named (s : Registration) : Prop where
  set : ∀ q press user name account clean, s.presses q = some press →
    press.stage = .set user name account clean → name = press.name
  named : ∀ q press uid, s.presses q = some press → press.stage.named = some uid →
    s.HasName uid press.name
  done : ∀ d ∈ s.done, ∀ name, d.document = some (d.account, name) → s.HasName d.account name

theorem Registration.Named.start (accounts : List Account) (accepts : String → String → Bool)
    (currentUser : Option String) (users : Users) (pages : ℕ → RegisterPage) :
    (Registration.start accounts accepts currentUser users pages).Named where
  set q press user name account clean hq := by cases hq
  named q press uid hq := by cases hq
  done d hd := by cases hd

theorem Registration.Named.step {s : Registration} (h : s.Named) (hseparate : s.Separate)
    {e : RegisterEvent} (hpassed : s.PassedOn e) : (s.step e).Named := by
  have hdisplayed := Registration.Displayed.step ⟨h.named, h.done⟩ h.set hseparate e
  exact ⟨Registration.NameKept.step h.set hpassed, hdisplayed.named, hdisplayed.done⟩

/-! ## Registrations -/

/-- A document that was set. -/
structure SetDocument where
  user : String
  name : String
  /-- The account that the press has created. -/
  account : String
  /-- No call of the press has raised. -/
  answered : Bool
  /-- What the fields held at the press. -/
  submitted : RegisterPage

/-- Registrations, with the texts each press found in its fields, and the documents that were set. No
step of the app reads either. -/
structure SubmittedRegistration where
  app : Registration
  submitted : ℕ → RegisterPage
  written : List SetDocument

def SubmittedRegistration.start (accounts : List Account) (accepts : String → String → Bool)
    (currentUser : Option String) (users : Users) (pages : ℕ → RegisterPage) :
    SubmittedRegistration :=
  ⟨.start accounts accepts currentUser users pages, fun _ => ⟨"", "", ""⟩, []⟩

def SubmittedRegistration.step (s : SubmittedRegistration) (e : RegisterEvent) :
    SubmittedRegistration where
  app := s.app.step e
  submitted :=
    match e with
    | .press k q =>
      if (s.app.presses q).isSome then s.submitted
      else Function.update s.submitted q (s.app.pages k)
    | _ => s.submitted
  written :=
    match e with
    | .set q answered =>
      match s.app.presses q with
      | some ⟨_, _, _, _, .set user name account clean⟩ =>
        s.written ++ [SetDocument.mk user name account (answered && clean) (s.submitted q)]
      | _ => s.written
    | _ => s.written

/-- The registrations step as they would without the record. -/
theorem SubmittedRegistration.run_app (s : SubmittedRegistration) (es : List RegisterEvent) :
    (Machine.run SubmittedRegistration.step s es).app = Machine.run Registration.step s.app es :=
  Machine.run_map _ (f := SubmittedRegistration.app) (fun _ _ => rfl) s es

/-- When a press comes back from `registerUsingEmailPassword`, the name field holds what it held at
the press. -/
def UneditedName (s : SubmittedRegistration) (e : RegisterEvent) : Prop :=
  ∀ q press, s.app.presses q = some press → press.stage.Returns s.app.currentUser q e →
    (s.app.pages press.page).name = (s.submitted q).name

/-- The texts that a press has passed on. -/
def RegisterPress.texts (press : RegisterPress) : RegisterPage :=
  ⟨press.email, press.name, press.password⟩

/-- What the presses have passed on is what their fields held then. -/
def SubmittedRegistration.Passed (s : SubmittedRegistration) : Prop :=
  ∀ q press, s.app.presses q = some press → press.texts = s.submitted q

/-- A press goes on with its texts, or has just been made. -/
theorem Registration.texts_step {s : Registration} {e : RegisterEvent} {q : ℕ}
    {press : RegisterPress} (h : (s.step e).presses q = some press) :
    (∃ old, s.presses q = some old ∧ old.texts = press.texts) ∨
      ∃ k, e = .press k q ∧ s.presses q = none ∧ press.texts = s.pages k := by
  have hset : ∀ {t : Registration} {q' old new}, t.presses = s.presses →
      s.presses q' = some old → (∀ p, new = some p → old.texts = p.texts) →
      (t.setPress q' new).presses q = some press →
      ∃ old, s.presses q = some old ∧ old.texts = press.texts := by
    intro t q' old new ht hold hnew h
    rcases Machine.update_eq_some h with ⟨rfl, hnow⟩ | ⟨-, hkept⟩
    · exact ⟨old, hold, hnew press hnow⟩
    · exact ⟨press, ht ▸ hkept, rfl⟩
  have hgoOn : ∀ {old : RegisterPress} {stage p},
      some { old with stage := stage } = some p → old.texts = p.texts := by
    intro old stage p hp
    rw [← Option.some.inj hp]
    rfl
  have heffect := s.effect e
  generalize s.step e = t at heffect h
  cases heffect with
  | keep => exact .inl ⟨press, h, rfl⟩
  | type k fields => exact .inl ⟨press, h, rfl⟩
  | signOut => exact .inl ⟨press, h, rfl⟩
  | press k q' he hq' =>
    rcases Machine.update_eq_some h with ⟨rfl, hnew⟩ | ⟨-, hold⟩
    · rw [← Option.some.inj hnew]
      exact .inr ⟨k, he, hq', rfl⟩
    · exact .inl ⟨press, hold, rfl⟩
  | ended q' =>
    rcases Machine.update_eq_some h with ⟨-, hnew⟩ | ⟨-, hold⟩
    · cases hnew
    · exact .inl ⟨press, hold, rfl⟩
  | created q' old uid answer user next he hq' hnone haccepts hfresh hnext =>
    refine .inl (hset rfl hq' (fun p hp => ?_) h)
    rcases hnext with rfl | rfl
    · cases hp
    · exact hgoOn hp
  | named q' old user he hq' hstage => exact .inl (hset rfl hq' (fun _ => hgoOn) h)
  | lost q' old user he hq' hstage => exact .inl (hset rfl hq' (fun _ => hgoOn) h)
  | reloaded q' old user hq' hstage => exact .inl (hset rfl hq' (fun _ => hgoOn) h)
  | returned q' old user account he hq' hstage huser =>
    exact .inl (hset rfl hq' (fun _ => hgoOn) h)
  | noUser q' old account he hq' hstage huser => exact .inl (hset rfl hq' (fun _ hp => by cases hp) h)
  | raised q' old user he hq' hstage => exact .inl (hset rfl hq' (fun _ => hgoOn) h)
  | set q' answered old user name account clean hq' hstage =>
    exact .inl (hset rfl hq' (fun _ hp => by cases hp) h)

section

variable {s : SubmittedRegistration} {e : RegisterEvent}

/-- No step forgets what a press under way was made with. -/
theorem SubmittedRegistration.submitted_step {q : ℕ} {press : RegisterPress}
    (hq : s.app.presses q = some press) (e : RegisterEvent) :
    (s.step e).submitted q = s.submitted q := by
  cases e with
  | press k q' =>
    simp only [SubmittedRegistration.step]
    split
    · rfl
    · rename_i hfree
      refine Function.update_of_ne ?_ _ _
      rintro rfl
      rw [hq] at hfree
      exact hfree rfl
  | _ => rfl

theorem SubmittedRegistration.Passed.step (h : s.Passed) (e : RegisterEvent) :
    (s.step e).Passed := by
  intro q press hq
  rcases Registration.texts_step hq with ⟨old, hold, htexts⟩ | ⟨k, rfl, hfree, htexts⟩
  · rw [submitted_step hold, ← h q old hold, htexts]
  · simp only [SubmittedRegistration.step, hfree, Option.isSome_none, if_neg Bool.false_ne_true,
      Function.update_self, htexts]

theorem SubmittedRegistration.Passed.passedOn (h : s.Passed) (hunedited : UneditedName s e) :
    s.app.PassedOn e := fun q press hq hreturns =>
  (hunedited q press hq hreturns).trans (congrArg RegisterPage.name (h q press hq)).symm

/-- What the step sets, and for which press. -/
theorem SubmittedRegistration.written_step {d : SetDocument} (hd : d ∈ (s.step e).written) :
    d ∈ s.written ∨ ∃ q answered press clean, e = .set q answered ∧
      s.app.presses q = some press ∧ press.stage = .set d.user d.name d.account clean ∧
      d.answered = (answered && clean) ∧ d.submitted = s.submitted q := by
  cases e with
  | set q answered =>
    simp only [SubmittedRegistration.step] at hd
    split at hd
    · rename_i k email password text user name account clean hq
      rcases List.mem_append.mp hd with hd | hd
      · exact .inl hd
      · rw [List.mem_singleton.mp hd]
        exact .inr ⟨q, answered, _, clean, rfl, hq, rfl, rfl, rfl⟩
    · exact .inl hd
  | _ => exact .inl hd

theorem Registration.mem_done_step {s : Registration} {d : Registered} (hd : d ∈ s.done)
    (e : RegisterEvent) : d ∈ (s.step e).done := by
  have heffect := s.effect e
  generalize s.step e = t at heffect
  cases heffect with
  | noUser q press account he hq hstage huser => exact List.mem_append_left _ hd
  | set q answered press user name account clean hq hstage =>
    change d ∈ (if answered && clean then _ else _)
    split
    · exact List.mem_append_left _ hd
    · exact hd
  | _ => exact hd

/-- A document that was set carries the name that was submitted, and is that of a completed press if
no call of it has raised. -/
def SubmittedRegistration.Recorded (s : SubmittedRegistration) : Prop :=
  ∀ d ∈ s.written, d.name = d.submitted.name ∧
    (d.answered = true → ⟨d.account, some (d.user, d.name)⟩ ∈ s.app.done)

theorem SubmittedRegistration.Recorded.step (h : s.Recorded) (hpassed : s.Passed)
    (hkept : s.app.NameKept) (e : RegisterEvent) : (s.step e).Recorded := by
  intro d hd
  rcases written_step hd with hold | ⟨q, answered, press, clean, rfl, hq, hstage, hclean, htexts⟩
  · obtain ⟨hname, hdone⟩ := h d hold
    exact ⟨hname, fun hanswered => Registration.mem_done_step (hdone hanswered) e⟩
  · refine ⟨?_, fun hanswered => ?_⟩
    · rw [hkept q press _ d.name _ clean hq hstage, htexts, ← hpassed q press hq]
      rfl
    · simp only [SubmittedRegistration.step, Registration.step, hq, Registration.resume, hstage]
      rw [← hclean, hanswered, if_pos rfl]
      exact List.mem_append_right _ (List.mem_singleton_self _)

end

/-- The documents about to be set, and those that were set, carry the names that were submitted. If
no call of the press has raised they are those of the accounts the presses have created, which have
these display names. -/
structure SubmittedRegistration.AsSubmitted (s : SubmittedRegistration) : Prop where
  set : ∀ q press user name account clean, s.app.presses q = some press →
    press.stage = .set user name account clean →
    name = (s.submitted q).name ∧ (clean = true → user = account ∧ s.app.HasName account name)
  written : ∀ d ∈ s.written, d.name = d.submitted.name ∧
    (d.answered = true → d.user = d.account ∧ s.app.HasName d.account d.name)
  /-- Every completed press has set the document of its account. -/
  done : ∀ d ∈ s.app.done, ∃ name, d.document = some (d.account, name) ∧
    s.app.db.users.get d.account = some (registerDoc name) ∧ s.app.HasName d.account name

theorem SubmittedRegistration.asSubmitted {s : SubmittedRegistration} (hpassed : s.Passed)
    (hrecorded : s.Recorded) (hnamed : s.app.Named) (hseparate : s.app.Separate) :
    s.AsSubmitted where
  set q press user name account clean hq hstage := by
    have hname := hnamed.set q press user name account clean hq hstage
    refine ⟨hname.trans (congrArg RegisterPage.name (hpassed q press hq)), fun hclean => ?_⟩
    subst hclean
    have hown : press.stage.Own := hseparate.own q press hq
    rw [hstage] at hown
    rw [hname]
    exact ⟨hown, hnamed.named q press account hq (by rw [hstage]; rfl)⟩
  written d hd := by
    obtain ⟨hname, hdone⟩ := hrecorded d hd
    refine ⟨hname, fun hanswered => ?_⟩
    obtain ⟨name, hdoc, -⟩ := hseparate.done_own _ (hdone hanswered)
    obtain ⟨huser, -⟩ := Prod.mk.inj (Option.some.inj hdoc)
    exact ⟨huser, hnamed.done _ (hdone hanswered) d.name (by rw [huser])⟩
  done d hd := by
    obtain ⟨name, hdoc, hget⟩ := hseparate.done_own d hd
    exact ⟨name, hdoc, hget, hnamed.done d hd name hdoc⟩

/-! ## Both handlers -/

/-- **What was submitted is what is stored**, in every run of uploads and in every run of
registrations in which no field is edited between the two readings and every press finds its own
account in `currentUser`. -/
theorem submitted_is_stored {users : Users} {uploadPages : ℕ → UploadPage} {es : List UploadEvent}
    (htexts : Machine.Along SubmittedUploads.step UneditedTexts
      (SubmittedUploads.start users uploadPages) es)
    {accounts : List Account} {accepts : String → String → Bool} {currentUser : Option String}
    {users' : Users} {pages : ℕ → RegisterPage} {rs : List RegisterEvent}
    (hname : Machine.Along SubmittedRegistration.step UneditedName
      (SubmittedRegistration.start accounts accepts currentUser users' pages) rs)
    (hcurrent : Machine.Along Registration.step OwnCurrentUser
      (Registration.start accounts accepts currentUser users' pages) rs) :
    (Machine.run SubmittedUploads.step (SubmittedUploads.start users uploadPages) es).AsSubmitted ∧
      (Machine.run SubmittedRegistration.step
        (SubmittedRegistration.start accounts accepts currentUser users' pages) rs).AsSubmitted := by
  constructor
  · exact htexts.invariant (fun s e (h : SubmittedUploads.AsSubmitted s) hP => h.step hP)
      (.start users uploadPages)
  · have hcurrent' : Machine.Along SubmittedRegistration.step
        (fun s e => OwnCurrentUser s.app e)
        (SubmittedRegistration.start accounts accepts currentUser users' pages) rs :=
      (Machine.along_map (f := SubmittedRegistration.app) fun _ _ => rfl).mpr hcurrent
    have hstart : (SubmittedRegistration.start accounts accepts currentUser users' pages).Passed ∧
        (SubmittedRegistration.start accounts accepts currentUser users' pages).Recorded ∧
        (Registration.start accounts accepts currentUser users' pages).Named ∧
        (Registration.start accounts accepts currentUser users' pages).Separate :=
      ⟨fun q press hq => (by cases hq), fun d hd => (by cases hd),
        .start accounts accepts currentUser users' pages,
        .start accounts accepts currentUser users' pages⟩
    have hstep : ∀ (s : SubmittedRegistration) e,
        s.Passed ∧ s.Recorded ∧ s.app.Named ∧ s.app.Separate →
        UneditedName s e ∧ OwnCurrentUser s.app e →
        (s.step e).Passed ∧ (s.step e).Recorded ∧ (s.step e).app.Named ∧ (s.step e).app.Separate :=
      fun s e ⟨hpassed, hrecorded, hnamed, hseparate⟩ ⟨hunedited, hown⟩ =>
        ⟨hpassed.step e, hrecorded.step hpassed hnamed.set e,
          hnamed.step hseparate (hpassed.passedOn hunedited), hseparate.step hown⟩
    obtain ⟨hpassed, hrecorded, hnamed, hseparate⟩ :=
      (hname.and hcurrent').invariant hstep hstart
    exact SubmittedRegistration.asSubmitted hpassed hrecorded hnamed hseparate

theorem UneditedTexts.of_ne {s : SubmittedUploads} {e : UploadEvent}
    (he : ∀ q url, e ≠ .link q url) : UneditedTexts s e :=
  fun q url _ _ hq => absurd hq (he q url)

theorem RegisterStage.number_of_returns {currentUser : Option String} {q q' : ℕ}
    {stage : RegisterStage} (h : stage.Returns currentUser q (.currentUser q')) : q' = q := by
  cases stage with
  | currentUser user => exact h.1
  | _ => exact absurd h id

theorem UneditedName.of_ne {s : SubmittedRegistration} {e : RegisterEvent}
    (hcurrent : ∀ q, e ≠ .currentUser q) (hfail : ∀ q, e ≠ .fail q)
    (hprofile : ∀ q, e ≠ .updateProfile q false) : UneditedName s e := by
  intro q press _ hreturns
  unfold RegisterStage.Returns at hreturns
  split at hreturns
  · obtain ⟨rfl, rfl⟩ := hreturns
    exact absurd rfl (hprofile _)
  · exact absurd rfl (hcurrent _)
  · exact absurd rfl (hfail _)
  · exact absurd rfl (hfail _)
  · exact absurd rfl (hfail _)
  · exact absurd hreturns id

/-- Ann empties the name field when the link is there. -/
def emptiedLater : List UploadEvent :=
  [.press 0 0, .pick 0 (some ⟨"IMG_0001.jpg", [1]⟩), .put 0, .link 0 "url", .typeName 0 "",
    .update 0]

/-- Ann changes her name when her document is on its way. -/
def changedLater : List RegisterEvent :=
  [.press 0 0, .createUser 0 "A" .user, .updateProfile 0 true, .reload 0, .currentUser 0,
    .type 0 ⟨"ann@mail.com", "Anna", "secret1"⟩, .set 0 true]

theorem uneditedTexts_emptiedLater : Machine.Along SubmittedUploads.step UneditedTexts
    (SubmittedUploads.start twoClients twoPages) emptiedLater := by
  refine ⟨.of_ne (by simp), .of_ne (by simp), .of_ne (by simp), fun q url k file he hq _ => ?_,
    .of_ne (by simp), .of_ne (by simp), trivial⟩
  obtain ⟨rfl, -⟩ := UploadEvent.link.inj he
  obtain ⟨rfl, -⟩ := UploadPress.mk.inj (Option.some.inj hq)
  rfl

/-- `noAccounts`, with nothing recorded. -/
def nothingSubmitted : SubmittedRegistration := .start [] (fun _ _ => true) none ∅ annAndBobPages

theorem uneditedName_changedLater :
    Machine.Along SubmittedRegistration.step UneditedName nothingSubmitted changedLater := by
  have hne := @UneditedName.of_ne
  refine ⟨hne (by simp) (by simp) (by simp), hne (by simp) (by simp) (by simp),
    hne (by simp) (by simp) (by simp), hne (by simp) (by simp) (by simp),
    fun q press hq hreturns => ?_, hne (by simp) (by simp) (by simp),
    hne (by simp) (by simp) (by simp), trivial⟩
  obtain rfl := RegisterStage.number_of_returns hreturns
  obtain rfl := Option.some.inj hq
  rfl

theorem submitted_is_stored_later :
    (Machine.run SubmittedUploads.step (SubmittedUploads.start twoClients twoPages)
      emptiedLater).AsSubmitted ∧
    (Machine.run SubmittedRegistration.step nothingSubmitted changedLater).AsSubmitted := by
  have hcurrent : Machine.Along Registration.step OwnCurrentUser noAccounts changedLater := by
    have hne := @ownCurrentUser_of_ne
    refine ⟨hne (by simp), hne (by simp), hne (by simp), hne (by simp),
      fun q press user he hq hstage => ?_, hne (by simp), hne (by simp), trivial⟩
    obtain rfl := RegisterEvent.currentUser.inj he
    obtain rfl := Option.some.inj hq
    obtain rfl := RegisterStage.currentUser.inj hstage
    rfl
  exact submitted_is_stored uneditedTexts_emptiedLater uneditedName_changedLater hcurrent

/-- Ann empties the description while her picture is being stored. -/
def emptiedDescription : List UploadEvent :=
  [.press 0 0, .pick 0 (some ⟨"IMG_0001.jpg", [1]⟩), .put 0, .typeDescription 0 "", .link 0 "url",
    .update 0]

/-- Ann changes her name while her account is being created. -/
def changedName : List RegisterEvent :=
  [.press 0 0, .createUser 0 "A" .user, .type 0 ⟨"ann@mail.com", "Anna", "secret1"⟩,
    .updateProfile 0 true, .reload 0, .currentUser 0, .set 0 true]

/-- An entry without a description is stored, and a document with another name than the account. -/
theorem emptiedDescription_not_asSubmitted :
    ¬ (Machine.run SubmittedUploads.step (SubmittedUploads.start twoClients twoPages)
      emptiedDescription).AsSubmitted ∧
    ¬ (Machine.run SubmittedRegistration.step nothingSubmitted changedName).AsSubmitted := by
  refine ⟨fun h => ?_, fun h => ?_⟩
  · obtain ⟨-, -, hdesc⟩ := h.written (⟨"Sea", "url", ""⟩, ("Sea", "At the sea"))
      (List.mem_singleton_self _)
    exact hdesc rfl
  · obtain ⟨hname, -⟩ := h.written
      ⟨"A", "Anna", "A", true, ⟨"ann@mail.com", "Ann", "secret1"⟩⟩ (List.mem_singleton_self _)
    exact absurd hname (by decide)

end FlutterThree
