import FlutterThree.AdminApp

/-!
# Presses on the edit pages

A press of a button of `NftaddPage` or `NftDetailsPage` outlives its page: the handler waits for its
`get`, and the page can be left meanwhile. What holds of every press in every run is that its page,
as long as it is on the stack, is still the page it was made on, that its `update` is not sent yet,
and that nothing is ever on top of an `NftaddPage` (`AdminApp.PressesSound`).
-/

namespace FlutterThree

open Dart Firestore Flutter

/-! ## Which page a press is of -/

/-- What an edit page edits: the entry with a number, or a new one, of a user. -/
def AdminRoute.edits : AdminRoute → Option (String × Option ℕ)
  | .details uid n _ _ => some (uid, some n)
  | .add uid => some (uid, none)
  | _ => none

def AdminRoute.IsAdd (r : AdminRoute) : Prop := ∃ uid, r.edits = some (uid, none)

def NftButton.entry : NftButton → Option ℕ
  | .add => none
  | .edit n => some n
  | .delete n => some n

theorem NftButton.eq_add {button : NftButton} (h : button.entry = none) : button = .add := by
  cases button with
  | add => rfl
  | edit n => cases h
  | delete n => cases h

theorem NftButton.eq_edit_or_delete {button : NftButton} {n : ℕ} (h : button.entry = some n) :
    button = .edit n ∨ button = .delete n := by
  cases button with
  | add => cases h
  | edit i =>
    obtain rfl := Option.some.inj h
    exact .inl rfl
  | delete i =>
    obtain rfl := Option.some.inj h
    exact .inr rfl

/-- The page has the button, and is for the same user. -/
def NftPress.On (b : NftPress) (r : AdminRoute) : Prop := r.edits = some (b.uid, b.button.entry)

/-- If the page of a press is on the stack, it is the one the press was made on. -/
abbrev NftPress.Linked (b : NftPress) (n : Navigator AdminRoute) : Prop := n.Owns b.page b.On

theorem AdminRoute.edits_loaded (docs : List (String × Fields)) (r : AdminRoute) :
    (r.loaded docs).edits = r.edits := by
  unfold loaded
  split
  · rfl
  · rfl

theorem AdminRoute.edits_responded (docs : List (String × Fields)) (r : AdminRoute) :
    (r.responded docs).edits = r.edits := by
  unfold responded
  split
  · split
    · rfl
    · rfl
    · rfl
  · rfl

theorem AdminRoute.edits_woken (r : AdminRoute) : r.woken.edits = r.edits := by
  unfold woken
  split
  · rfl
  · rfl

theorem AdminRoute.edits_failed (text : String) (r : AdminRoute) :
    (r.failed text).edits = r.edits := by
  unfold failed
  split
  · rfl
  · rfl
  · rfl
  · rfl

theorem AdminRoute.edits_refreshUsers (r : AdminRoute) : r.refreshUsers.edits = r.edits := by
  cases r <;> rfl

theorem AdminRoute.edits_refresh (r : AdminRoute) : r.refresh.edits = r.edits := by
  cases r <;> rfl

theorem AdminRoute.edits_setError (text : String) (r : AdminRoute) :
    (r.setError text).edits = r.edits := by
  cases r <;> rfl

theorem AdminRoute.edits_changed (texts : NftArt) (button : NftButton) (r : AdminRoute) :
    (r.changed texts button).edits = r.edits := by
  cases r with
  | details uid n shown isChange => cases button <;> rfl
  | _ => rfl

/-! ## What navigation does to edit pages -/

/-- From `n` to `n'` edit pages stay what they are, and nothing comes on top of an add page. -/
structure Leads (n n' : Navigator AdminRoute) : Prop where
  linked : ∀ b : NftPress, b.Linked n → b.Linked n'
  topOnly : n.TopOnly AdminRoute.IsAdd → n'.TopOnly AdminRoute.IsAdd

theorem Leads.refl (n : Navigator AdminRoute) : Leads n n := ⟨fun _ h => h, fun h => h⟩

theorem Leads.trans {n n' n'' : Navigator AdminRoute} (h : Leads n n') (h' : Leads n' n'') :
    Leads n n'' :=
  ⟨fun b hb => h'.linked b (h.linked b hb), fun htop => h'.topOnly (h.topOnly htop)⟩

theorem leads_pop (n : Navigator AdminRoute) : Leads n n.pop := ⟨fun _ h => h.pop, fun h => h.pop⟩

theorem leads_push {n : Navigator AdminRoute} {p : Page AdminRoute} (htop : n.top = some p)
    (hp : ¬ p.route.IsAdd) (r : AdminRoute) : Leads n (n.push r) :=
  ⟨fun _ h => h.push r, fun h => h.push htop hp r⟩

theorem leads_pushReplacement (n : Navigator AdminRoute) (r : AdminRoute) :
    Leads n (n.pushReplacement r) :=
  ⟨fun _ h => h.pushReplacement r, fun h => h.pushReplacement r⟩

theorem leads_settle (n : Navigator AdminRoute) : Leads n n.settle :=
  ⟨fun _ h => h.settle, fun h => h⟩

theorem leads_modifyAt {f : AdminRoute → AdminRoute} (hf : ∀ r, (f r).edits = r.edits)
    (n : Navigator AdminRoute) (i : ℕ) : Leads n (n.modifyAt i f) where
  linked _ h := h.modifyAt i fun r hr => (hf r).trans hr
  topOnly h := h.modifyAt i fun r ⟨uid, hr⟩ => ⟨uid, (hf r).symm.trans hr⟩

theorem leads_popWith (result : Bool) (n : Navigator AdminRoute) : Leads n (popWith result n) := by
  have hrefresh : ∀ i, Leads n (if result then n.pop.modifyAt i AdminRoute.refresh else n.pop) := by
    intro i
    split
    · exact (leads_pop n).trans (leads_modifyAt AdminRoute.edits_refresh _ _)
    · exact leads_pop n
  unfold popWith
  split
  · exact hrefresh _
  · exact hrefresh _
  · exact leads_pop n

theorem leads_pressArrow (n : Navigator AdminRoute) : Leads n (pressArrow n) := by
  unfold pressArrow
  split
  · exact leads_pop n
  · exact leads_popWith _ n
  · exact leads_popWith true n
  · exact .refl n

theorem leads_pressBack (n : Navigator AdminRoute) : Leads n (pressBack n) := by
  unfold pressBack
  split
  · exact leads_pop n
  · exact .refl n

theorem leads_finish (button : NftButton) (page : ℕ) (texts : NftArt) (n : Navigator AdminRoute) :
    Leads n (button.finish page texts n) := by
  unfold NftButton.finish
  split
  · split
    · exact leads_popWith true n
    · exact .refl n
  · exact leads_modifyAt (AdminRoute.edits_changed texts button) n page

theorem leads_postLogin (page : ℕ) (user : Option String) (docs : List (String × Fields))
    (n : Navigator AdminRoute) : Leads n (postLogin page user docs n) := by
  have herror : ∀ text, Leads n (n.modifyAt page (AdminRoute.setError text)) := fun text =>
    leads_modifyAt (AdminRoute.edits_setError text) n page
  unfold postLogin
  split
  · exact herror _
  · split
    · split
      · exact leads_pushReplacement n _
      · exact herror _
    · exact herror _

/-! ## The presses of a run -/

/-- The presses whose handlers wait for their `get`, in a state of a run. -/
structure AdminApp.PressesSound (s : AdminApp) : Prop where
  linked : ∀ p b, s.jobs p = some (.pressed b) → b.Linked (s.sessions b.session)
  free : ∀ p b, s.jobs p = some (.pressed b) → s.db.writes p = none
  topOnly : ∀ k, (s.sessions k).TopOnly AdminRoute.IsAdd

theorem AdminApp.PressesSound.start (users : Users) : (AdminApp.start users).PressesSound where
  linked p b hb := by cases hb
  free p b hb := by cases hb
  topOnly k page hpage := by cases hpage

theorem AdminApp.PressesSound.onSession {s : AdminApp} (h : s.PressesSound) {k : ℕ}
    {f : Navigator AdminRoute → Navigator AdminRoute}
    (hf : Leads (s.sessions k) (f (s.sessions k))) : (s.onSession k f).PressesSound := by
  have hleads : ∀ k', Leads (s.sessions k') ((s.onSession k f).sessions k') := fun k' => by
    change Leads _ (Function.update s.sessions k _ k')
    by_cases hk : k' = k
    · subst hk
      rw [Function.update_self]
      exact hf
    · rw [Function.update_of_ne hk]
      exact .refl _
  exact ⟨fun p b hb => (hleads _).linked b (h.linked p b hb), h.free,
    fun k' => (hleads k').topOnly (h.topOnly k')⟩

/-- A step that changes one job, and the writes of no other. -/
theorem AdminApp.PressesSound.setJob {s : AdminApp} (h : s.PressesSound) {p : ℕ} {j : Option Job}
    {db : Db} {queue : ℕ → List ℕ} (hj : ∀ b, j = some (.pressed b) →
      b.Linked (s.sessions b.session) ∧ db.writes p = none)
    (hwrites : ∀ q w, db.writes q = some w → s.db.writes q = some w ∨ q = p) :
    ({ s with db := db, queue := queue }.setJob p j).PressesSound where
  linked q b hb := by
    rcases jobs_setJob hb with hold | ⟨-, hnew⟩
    · exact h.linked q b hold
    · exact (hj b hnew).1
  free q b hb := by
    change db.writes q = none
    rcases Machine.update_eq_some hb with ⟨rfl, hnew⟩ | ⟨hq, hold⟩
    · exact (hj b hnew).2
    · cases hw : db.writes q with
      | none => rfl
      | some w => cases (h.free q b hold).symm.trans ((hwrites q w hw).resolve_right hq)
  topOnly := h.topOnly

theorem AdminApp.PressesSound.begin {s : AdminApp} (h : s.PressesSound) {p : ℕ} {j : Job}
    (hj : ∀ b, j = .pressed b → b.Linked (s.sessions b.session)) : (s.begin p j).PressesSound := by
  unfold AdminApp.begin
  split
  · rename_i hfree
    exact h.setJob (fun b hb => ⟨hj b (Option.some.inj hb), hfree.2⟩) fun q w hw => .inl hw
  · exact h

theorem Db.writes_step_get {s : Db} {p q : ℕ} {uid : String} {hd : Handler} {w : Write}
    (hw : (s.step (.get p uid hd)).writes q = some w) : s.writes q = some w ∨ q = p := by
  rcases Db.writes_step hw with hold | ⟨-, hget, -⟩
  · exact .inl hold
  · injection hget with hq
    exact .inr hq.symm

theorem AdminApp.PressesSound.answer {s : AdminApp} (h : s.PressesSound) (p : ℕ) (texts : NftArt) :
    (s.answer p texts).PressesSound := by
  unfold AdminApp.answer
  split
  · refine h.setJob (fun b hb => ?_) fun q w hw => Db.writes_step_get hw
    split at hb
    · cases hb
    · cases hb
  · rename_i b hb
    have hended : ((s.send b.session p (s.db.step (.get p b.uid (b.button.handler texts)))).setJob p
        none).PressesSound := h.setJob (fun b hb => by cases hb) fun q w hw => Db.writes_step_get hw
    refine hended.onSession ?_
    split
    · exact leads_finish b.button b.page texts _
    · exact .refl _
  · exact h

theorem AdminApp.PressesSound.write {s : AdminApp} (h : s.PressesSound) (p : ℕ) :
    (s.write p).PressesSound := by
  have hwrites : ∀ q w, (s.db.step (.update p)).writes q = some w → s.db.writes q = some w :=
    fun q w hw => by
      rcases Db.writes_step hw with hold | ⟨-, hget, -⟩
      · exact hold
      · cases hget
  unfold AdminApp.write
  split
  · refine h.setJob (fun b hb => ?_) fun q w hw => .inl (hwrites q w hw)
    split at hb
    · cases hb
    · cases hb
  · refine ⟨h.linked, fun q b hb => ?_, h.topOnly⟩
    change (s.db.step (.update p)).writes q = none
    cases hw : (s.db.step (.update p)).writes q with
    | none => rfl
    | some w => cases (h.free q b hb).symm.trans (hwrites q w hw)

theorem AdminApp.PressesSound.step {s : AdminApp} (h : s.PressesSound) (e : AdminEvent) :
    (s.step e).PressesSound := by
  cases e with
  | login k page user =>
    simp only [AdminApp.step]
    split
    · exact h.onSession (leads_postLogin page user _ _)
    · exact h
  | logout k =>
    simp only [AdminApp.step]
    split
    · exact h.onSession (leads_pushReplacement _ _)
    · exact h
  | load k page =>
    change (s.onSession k (·.modifyAt page (AdminRoute.loaded s.db.users.docs))).PressesSound
    exact h.onSession (leads_modifyAt (AdminRoute.edits_loaded _) _ page)
  | respond k page =>
    change (s.onSession k (·.modifyAt page (AdminRoute.responded (s.view k).docs))).PressesSound
    exact h.onSession (leads_modifyAt (AdminRoute.edits_responded _) _ page)
  | wake k page =>
    change (s.onSession k (·.modifyAt page AdminRoute.woken)).PressesSound
    exact h.onSession (leads_modifyAt AdminRoute.edits_woken _ page)
  | offline k page text =>
    change (s.onSession k (·.modifyAt page (AdminRoute.failed text))).PressesSound
    exact h.onSession (leads_modifyAt (AdminRoute.edits_failed text) _ page)
  | openUser k i =>
    simp only [AdminApp.step]
    split
    · rename_i t ht
      obtain ⟨list, htop⟩ := AdminApp.top_of_tile ht
      exact h.onSession (leads_push htop (by rintro ⟨uid, hadd⟩; cases hadd) _)
    · exact h
  | openNft k i =>
    simp only [AdminApp.step]
    split
    · rename_i htop
      split
      · exact h.onSession (leads_push htop (by rintro ⟨uid, hadd⟩; cases hadd) _)
      · exact h
    · exact h
  | openAdd k =>
    simp only [AdminApp.step]
    split
    · rename_i htop
      exact h.onSession (leads_push htop (by rintro ⟨uid, hadd⟩; cases hadd) _)
    · exact h
  | arrow k => exact h.onSession (leads_pressArrow _)
  | back k => exact h.onSession (leads_pressBack _)
  | settle k => exact h.onSession (leads_settle _)
  | chooseRole k p i newValue =>
    simp only [AdminApp.step]
    split
    · exact h.begin fun b hb => by cases hb
    · exact h
  | pressAdd k p =>
    simp only [AdminApp.step]
    split
    · rename_i page uid htop
      refine h.begin fun b hb => ?_
      obtain rfl := Job.pressed.inj hb
      exact Navigator.owns_of_top htop rfl
    · exact h
  | pressEdit k p =>
    simp only [AdminApp.step]
    split
    · rename_i page uid n nft isChange htop
      refine h.begin fun b hb => ?_
      obtain rfl := Job.pressed.inj hb
      exact Navigator.owns_of_top htop rfl
    · exact h
  | pressDeleteNft k p =>
    simp only [AdminApp.step]
    split
    · rename_i page uid n nft isChange htop
      refine h.begin fun b hb => ?_
      obtain rfl := Job.pressed.inj hb
      exact Navigator.owns_of_top htop rfl
    · exact h
  | get p texts => exact h.answer p texts
  | update p => exact h.write p
  | replace p =>
    simp only [AdminApp.step, AdminApp.replacePage]
    split
    · have hended : (s.setJob p none).PressesSound :=
        h.setJob (fun b hb => by cases hb) fun q w hw => .inl hw
      refine hended.onSession ?_
      split
      · exact leads_pushReplacement _ _
      · exact .refl _
    · exact h
  | pressDelete k p i =>
    simp only [AdminApp.step, AdminApp.pressDelete]
    split
    · split
      · split
        · exact h
        · exact h.begin fun b hb => by cases hb
      · exact h
    · exact h
  | delete p =>
    simp only [AdminApp.step]
    split
    · exact h.setJob (fun b hb => by cases hb) fun q w hw => .inl hw
    · exact h
  | refreshUsers p =>
    simp only [AdminApp.step]
    split
    · have hended : (s.setJob p none).PressesSound :=
        h.setJob (fun b hb => by cases hb) fun q w hw => .inl hw
      exact hended.onSession (leads_modifyAt AdminRoute.edits_refreshUsers _ _)
    · exact h

end FlutterThree
