import FlutterThree.Accounts
import FlutterThree.Documents

/-!
# What a profile page shows

The `get` of a call is processed at some moment of the run, its answer arrives later, and the
result is shown after a sleep. Meanwhile the page may have started further calls, the documents may
have changed, and a call that fails hands on the result of the one before.

`reads_are_monotonic`: still, a page never goes back to something older than what it has shown.
`shown_wallets_were_stored`: a wallet it shows was in the store since the page was opened.
`uploads_show_after_refresh`: it shows an upload, once a refresh that was started after it is
answered.
-/

namespace FlutterThree

open Dart Async Firestore Flutter

/-! ## What a call decodes -/

/-- The wallet of `uid` in the client app; none without a document. -/
def Users.allNFTs (users : Users) (uid : String) : Except Raised (Option AllNFT) :=
  match users.get uid with
  | some doc => (raising (AllNFT.fromJson doc)).map some
  | none => .ok none

theorem forUser_docs {α : Type} (uid : String) (decode : Fields → Except Raised α) (users : Users) :
    forUser uid decode (.ok users.docs) =
      match users.get uid with
      | some doc => (decode doc).map some
      | none => .ok none := by
  unfold forUser
  dsimp only
  cases hfind : users.docs.find? fun element => element.1 = uid with
  | none =>
    have hnone : users.get uid = none := by
      cases hdoc : users.get uid with
      | none => rfl
      | some doc =>
        have habsent := List.find?_eq_none.mp hfind (uid, doc) (Collection.mem_docs.mpr hdoc)
        exact absurd (decide_eq_true rfl) habsent
    rw [hnone]
  | some element =>
    have hid : element.1 = uid := by simpa using List.find?_some hfind
    have hdoc : users.get uid = some element.2 :=
      hid ▸ Collection.mem_docs.mp (List.mem_of_find?_eq_some hfind)
    rw [hdoc]
    dsimp only
    cases decode element.2 <;> rfl

theorem ProfilePage.tried_docs (uid : String) (users : Users) :
    ProfilePage.tried uid (.ok users.docs) = users.allNFTs uid := forUser_docs uid _ users

/-- A decoder that lets through less finds nothing else. -/
theorem forUser_of_imp {α : Type} {uid : String} {decode decode' : Fields → Except Raised α}
    (himp : ∀ doc a, decode doc = .ok a → decode' doc = .ok a) {response : Response} {v : Option α}
    (h : forUser uid decode response = .ok v) : forUser uid decode' response = .ok v := by
  cases response with
  | error text => cases h
  | ok docs =>
    unfold forUser at h ⊢
    dsimp only at h ⊢
    split at h
    · rename_i element hfind
      split at h
      · rename_i a ha
        simp only [himp _ a ha]
        exact h
      · cases h
    · exact h

/-- A wallet that `initNFTs` finds is the one a refresh would. -/
theorem tried_of_initNFTs {uid : String} {response : Response} {v : Option AllNFT}
    (h : initNFTs uid response = .ok v) : ProfilePage.tried uid response = .ok v := by
  unfold initNFTs at h
  dsimp only at h
  split at h
  · rename_i tmp htried
    obtain rfl := Except.ok.inj h
    refine forUser_of_imp (fun doc a ha => ?_) htried
    cases hlength : (doc.index "NFT").length with
    | error e =>
      rw [hlength] at ha
      cases ha
    | ok n =>
      rw [hlength] at ha
      by_cases hn : n = 0
      · subst hn
        cases ha
      · change (if n = 0 then _ else _) = _ at ha
        rw [if_neg hn] at ha
        exact ha
  · split at h <;> cases h

/-! ## A page and its calls -/

/-- The calls of the page follow its code, and an answer is what its `get` was served. -/
structure ProfilePage.Sound (page : ProfilePage) : Prop where
  calls : page.allNFTs.Sound (ProfilePage.fetch page.uid)
  started : ∀ f ≤ page.allNFTs.current, ∃ call, page.allNFTs.calls f = some call
  served : ∀ f docs, page.served f = some docs → f ≤ page.allNFTs.current
  answers : ∀ f docs, page.allNFTs.responses f = some (.ok docs) → page.served f = some docs

/-- How a page goes on, where the documents are `docs` and the calls of `failed` raise. -/
inductive ProfilePage.Next (docs : List (String × Fields)) (failed : ℕ → String → Prop)
    (page : ProfilePage) : ProfilePage → Prop where
  | keep : Next docs failed page page
  | loaded (e : LoaderEvent) (he : ∀ f docs, e = .respond f (.ok docs) → page.served f = some docs)
      (hfailed : ∀ f text, e = .respond f (.error text) → failed f text) :
      Next docs failed page { page with allNFTs := page.allNFTs.step (ProfilePage.fetch page.uid) e }
  | served (f : ℕ) (given : Option ℕ) (hf : page.allNFTs.calls f = some (.fetching given))
      (hfree : page.served f = none) :
      Next docs failed page { page with served := Function.update page.served f (some docs) }

theorem ProfilePage.sound_initState (uid : String) : (ProfilePage.initState uid).Sound := by
  refine ⟨.start (.inl rfl), fun f hf => ?_, fun _ _ h => (by cases h), fun _ _ h => (by cases h)⟩
  obtain rfl := Nat.le_zero.mp hf
  exact ⟨_, rfl⟩

section

variable {docs : List (String × Fields)} {failed failed' : ℕ → String → Prop}
  {page page' : ProfilePage}

/-- Only a `respond` records an answer. -/
theorem Loader.responses_step {β : Type} {code : Fetch β} {s : Loader β} {e : LoaderEvent} {f : ℕ}
    {response : Response} (h : (s.step code e).responses f = some response) :
    s.responses f = some response ∨ e = .respond f response := by
  cases e with
  | refresh => exact .inl h
  | respond g response' =>
    simp only [step] at h
    split at h
    · rcases Machine.update_eq_some h with ⟨rfl, hnew⟩ | ⟨-, hold⟩
      · rw [Option.some.inj hnew]
        exact .inr rfl
      · exact .inl hold
    · exact .inl h
  | wake g =>
    simp only [step] at h
    split at h
    · exact .inl h
    · exact .inl h

/-- A call that has ended stays so. -/
theorem Loader.Sound.ended_step {β : Type} {code : Fetch β} {s : Loader β} (h : s.Sound code)
    {f : ℕ} {x : Finish Raised (Option β)} (hf : s.calls f = some (.ended x)) (e : LoaderEvent) :
    (s.step code e).calls f = some (.ended x) := by
  cases e with
  | refresh =>
    have hne : f ≠ s.current + 1 := Nat.ne_of_lt (Nat.lt_succ_of_le (h.le_current hf))
    exact (Function.update_of_ne hne _ _).trans hf
  | respond g response =>
    simp only [Loader.step]
    split
    · rename_i given hg
      have hne : f ≠ g := fun heq => by
        rw [← heq, hf] at hg
        cases hg
      exact (Function.update_of_ne hne _ _).trans hf
    · exact hf
  | wake g =>
    simp only [Loader.step]
    split
    · rename_i tmp hg
      have hne : f ≠ g := fun heq => by
        rw [← heq, hf] at hg
        cases hg
      exact (Function.update_of_ne hne _ _).trans hf
    · exact hf

theorem Loader.ended_of_completes {β : Type} {s : Loader β} {f : ℕ} {r : Except Raised (Option β)}
    (h : Completes s.futures f r) : ∃ x, s.calls f = some (.ended x) := by
  cases h with
  | returned _ _ hf => exact ⟨_, Loader.futures_eq_some.mp hf⟩
  | future _ g _ hf _ => exact ⟨_, Loader.futures_eq_some.mp hf⟩

theorem ProfilePage.Next.mono (h : page.Next docs failed page')
    (hfailed : ∀ f text, failed f text → failed' f text) : page.Next docs failed' page' := by
  cases h with
  | keep => exact .keep
  | loaded e he hf => exact .loaded e he fun f text heq => hfailed f text (hf f text heq)
  | served f given hf hfree => exact .served f given hf hfree

theorem ProfilePage.Next.uid (h : page.Next docs failed page') : page'.uid = page.uid := by
  cases h <;> rfl

theorem ProfilePage.Next.failed_of_response (h : page.Next docs failed page') {f : ℕ}
    {text : String} (hf : page'.allNFTs.responses f = some (.error text)) :
    page.allNFTs.responses f = some (.error text) ∨ failed f text := by
  cases h with
  | keep => exact .inl hf
  | loaded e he hfailed => exact (Loader.responses_step hf).imp_right (hfailed f text)
  | served g given hg hfree => exact .inl hf

theorem ProfilePage.Sound.next (h : page.Sound) (hnext : page.Next docs failed page') :
    page'.Sound := by
  cases hnext with
  | keep => exact h
  | loaded e he hfailed =>
    refine ⟨h.calls.step e, Loader.exists_call_step h.started e, fun f docs hf => ?_,
      fun f docs hf => ?_⟩
    · exact Nat.le_trans (h.served f docs hf) (Loader.current_le_step _ _ e)
    · rcases Loader.responses_step hf with hold | rfl
      · exact h.answers f docs hold
      · exact he f docs rfl
  | served f given hf hfree =>
    refine ⟨h.calls, h.started, fun g docs' hg => ?_, fun g docs' hg => ?_⟩
    · rcases Machine.update_eq_some hg with ⟨rfl, -⟩ | ⟨-, hold⟩
      · exact h.calls.le_current hf
      · exact h.served g docs' hold
    · have hold := h.answers g docs' hg
      have hne : g ≠ f := fun heq => by
        rw [heq, hfree] at hold
        cases hold
      exact (Function.update_of_ne hne _ _).trans hold

/-- A call hands on only the future of the call before it. -/
theorem ProfilePage.Sound.descends (h : page.Sound) : page.allNFTs.futures.Descends := by
  intro f g hf
  rw [Loader.futures_eq_some] at hf
  obtain ⟨response, -, hbody⟩ := ProfilePage.exists_response h.calls hf
  cases f with
  | zero => cases hbody
  | succ f =>
    simp only [givenTo, ProfilePage.fetch, ProfilePage.refreshNFTs] at hbody
    split at hbody
    · cases hbody
    · simp only [returnDynamic, if_true] at hbody
      rw [← Finish.future.inj hbody]
      exact Nat.lt_succ_self f

theorem ProfilePage.Sound.snapshot_eq_some (h : page.Sound) {r : Except Raised (Option AllNFT)} :
    page.snapshot = some r ↔ page.allNFTs.Shows r := Futures.result_eq_some h.descends

end

/-! ## What a page shows later -/

/-- Page `page` has become `page'`; the answers it has taken up meanwhile were served from `A`. -/
structure ProfilePage.Since (A : List (String × Fields) → Prop) (page page' : ProfilePage) :
    Prop where
  uid : page'.uid = page.uid
  current : page.allNFTs.current ≤ page'.allNFTs.current
  ended : ∀ f x, page.allNFTs.calls f = some (.ended x) → page'.allNFTs.calls f = some (.ended x)
  served : ∀ f docs, page'.served f = some docs → page.served f = some docs ∨ A docs

section

variable {A B : List (String × Fields) → Prop} {docs : List (String × Fields)}
  {failed : ℕ → String → Prop} {page page' page'' : ProfilePage}

theorem ProfilePage.Since.refl (A : List (String × Fields) → Prop) (page : ProfilePage) :
    Since A page page :=
  ⟨rfl, Nat.le_refl _, fun _ _ h => h, fun _ _ h => .inl h⟩

theorem ProfilePage.Since.mono (h : Since A page page') (hAB : ∀ docs, A docs → B docs) :
    Since B page page' :=
  ⟨h.uid, h.current, h.ended, fun f docs hf => (h.served f docs hf).imp_right (hAB docs)⟩

theorem ProfilePage.Since.next (h : Since A page page') (hsound : page'.Sound)
    (hnext : page'.Next docs failed page'') (hdocs : A docs) : Since A page page'' := by
  cases hnext with
  | keep => exact h
  | loaded e he hfailed =>
    refine ⟨h.uid, Nat.le_trans h.current (Loader.current_le_step _ _ e), fun f x hf => ?_, h.served⟩
    exact hsound.calls.ended_step (h.ended f x hf) e
  | served f given hf hfree =>
    refine ⟨h.uid, h.current, h.ended, fun g docs' hg => ?_⟩
    rcases Machine.update_eq_some hg with ⟨-, hnew⟩ | ⟨-, hold⟩
    · rw [← Option.some.inj hnew]
      exact .inr hdocs
    · exact h.served g docs' hold

/-- An answer to a call that was started since came from `A`. -/
theorem ProfilePage.Since.read_of_tried (h : Since A page page') (hsound : page.Sound)
    (hsound' : page'.Sound) {f : ℕ} (hf : page.allNFTs.current < f) {response : Response}
    {v : Option AllNFT} (hresponse : page'.allNFTs.responses f = some response)
    (hv : ProfilePage.tried page'.uid response = .ok v) :
    ∃ docs, A docs ∧ ProfilePage.tried page.uid (.ok docs) = .ok v := by
  cases response with
  | error text => cases hv
  | ok docs =>
    rcases h.served f docs (hsound'.answers f docs hresponse) with hold | hA
    · exact absurd (hsound.served f docs hold) (Nat.not_le_of_gt hf)
    · exact ⟨docs, hA, h.uid ▸ hv⟩

/-- A future after those of `page` completes with what an earlier one of these has, or with what was
decoded from an answer that came since. -/
theorem ProfilePage.Since.completes (h : Since A page page') (hsound : page.Sound)
    (hsound' : page'.Sound) {m f : ℕ} {r : Except Raised (Option AllNFT)}
    (hr : Completes page'.allNFTs.futures f r) (hm : page.allNFTs.current ≤ m) (hf : m ≤ f) :
    Completes page'.allNFTs.futures m r ∨
      ∃ docs v, A docs ∧ ProfilePage.tried page.uid (.ok docs) = .ok v ∧ r = .ok v := by
  induction hr with
  | returned f r hfinish =>
    rcases Nat.eq_or_lt_of_le hf with rfl | hlt
    · exact .inl (.returned _ r hfinish)
    · rw [Loader.futures_eq_some] at hfinish
      obtain ⟨response, hresponse, hbody⟩ := ProfilePage.exists_response hsound'.calls hfinish
      cases f with
      | zero => exact absurd hlt (Nat.not_lt_zero _)
      | succ f =>
        simp only [givenTo, ProfilePage.fetch, ProfilePage.refreshNFTs] at hbody
        split at hbody
        · rename_i v htried
          obtain rfl := Finish.returned.inj hbody
          obtain ⟨docs, hA, hdocs⟩ := h.read_of_tried hsound hsound' (Nat.lt_of_le_of_lt hm hlt)
            hresponse htried
          exact .inr ⟨docs, v, hA, hdocs, rfl⟩
        · simp only [returnDynamic, if_true] at hbody
          cases hbody
  | future f g r hfinish hg ih =>
    rcases Nat.eq_or_lt_of_le hf with rfl | hlt
    · exact .inl (.future _ g r hfinish hg)
    · rw [Loader.futures_eq_some] at hfinish
      obtain ⟨response, hresponse, hbody⟩ := ProfilePage.exists_response hsound'.calls hfinish
      cases f with
      | zero => exact absurd hlt (Nat.not_lt_zero _)
      | succ f =>
        simp only [givenTo, ProfilePage.fetch, ProfilePage.refreshNFTs] at hbody
        split at hbody
        · cases hbody
        · simp only [returnDynamic, if_true] at hbody
          obtain rfl := Finish.future.inj hbody
          exact ih (Nat.le_of_lt_succ hlt)

/-- What a page shows now it has shown before, or has read since. -/
theorem ProfilePage.Since.snapshot (h : Since A page page') (hsound : page.Sound)
    (hsound' : page'.Sound) {r r' : Except Raised (Option AllNFT)} (hr : page.snapshot = some r)
    (hr' : page'.snapshot = some r') :
    r' = r ∨ ∃ docs v, A docs ∧ ProfilePage.tried page.uid (.ok docs) = .ok v ∧ r' = .ok v := by
  rw [hsound.snapshot_eq_some] at hr
  rw [hsound'.snapshot_eq_some] at hr'
  have hkept : Completes page'.allNFTs.futures page.allNFTs.current r := by
    refine hr.mono fun f x hf => ?_
    rw [Loader.futures_eq_some] at hf ⊢
    exact h.ended f x hf
  rcases h.completes hsound hsound' hr' (Nat.le_refl _) h.current with hold | hnew
  · exact .inl (Completes.unique hold hkept)
  · exact .inr hnew

/-- After a refresh that was started since and did not raise, the page shows what it has read
since. -/
theorem ProfilePage.Since.refreshed (h : Since A page page') (hsound : page.Sound)
    (hsound' : page'.Sound) {f : ℕ} (hf : page.allNFTs.current < f)
    (hcurrent : f ≤ page'.allNFTs.current) {response : Response} {v : Option AllNFT}
    (hresponse : page'.allNFTs.responses f = some response)
    (hv : ProfilePage.tried page'.uid response = .ok v) {r : Except Raised (Option AllNFT)}
    (hr : page'.snapshot = some r) :
    ∃ docs v, A docs ∧ ProfilePage.tried page.uid (.ok docs) = .ok v ∧ r = .ok v := by
  rw [hsound'.snapshot_eq_some] at hr
  rcases h.completes hsound hsound' hr (Nat.le_of_lt hf) hcurrent with hown | hnew
  · obtain ⟨x, hx⟩ := Loader.ended_of_completes hown
    obtain ⟨response', hresponse', hbody⟩ := ProfilePage.exists_response hsound'.calls hx
    obtain rfl := Option.some.inj (hresponse.symm.trans hresponse')
    cases f with
    | zero => exact absurd hf (Nat.not_lt_zero _)
    | succ f =>
      simp only [givenTo, ProfilePage.fetch, ProfilePage.refreshNFTs, hv] at hbody
      subst hbody
      have hcompletes : Completes page'.allNFTs.futures (f + 1) (.ok v) :=
        .returned _ _ (Loader.futures_eq_some.mpr hx)
      obtain ⟨docs, hA, hdocs⟩ := h.read_of_tried hsound hsound' hf hresponse hv
      exact ⟨docs, v, hA, hdocs, Completes.unique hown hcompletes⟩
  · exact hnew

/-- What a page shows was read since it was opened, or is the error of its first call. -/
theorem ProfilePage.Since.opened {uid : String} (h : Since A (.initState uid) page')
    (hsound' : page'.Sound) {r : Except Raised (Option AllNFT)} (hr : page'.snapshot = some r) :
    (∃ docs v, A docs ∧ ProfilePage.tried uid (.ok docs) = .ok v ∧ r = .ok v) ∨
      ∃ e response, r = .error e ∧ page'.allNFTs.responses 0 = some response ∧
        initNFTs uid response = .error e := by
  have hsound := ProfilePage.sound_initState uid
  rw [hsound'.snapshot_eq_some] at hr
  rcases h.completes hsound hsound' hr (Nat.le_refl _) h.current with hfirst | hnew
  · obtain ⟨x, hx⟩ := Loader.ended_of_completes hfirst
    obtain ⟨response, hresponse, rfl⟩ := ProfilePage.exists_response hsound'.calls hx
    have hcompletes : Completes page'.allNFTs.futures 0 (initNFTs page'.uid response) :=
      .returned _ _ (Loader.futures_eq_some.mpr hx)
    have huid : page'.uid = uid := h.uid
    obtain rfl := Completes.unique hfirst hcompletes
    rw [huid]
    cases hinit : initNFTs uid response with
    | error e => exact .inr ⟨e, response, rfl, hresponse, hinit⟩
    | ok v =>
      have htried := tried_of_initNFTs hinit
      cases response with
      | error text => cases htried
      | ok docs =>
        rcases h.served 0 docs (hsound'.answers 0 docs hresponse) with hold | hA
        · cases hold
        · exact .inl ⟨docs, v, hA, htried, rfl⟩
  · exact .inl hnew

end

/-! ## In the apps -/

/-- The pages that the app has opened hold calls that fit together. -/
structure Client.Loads (c : Client) : Prop where
  opened : ∀ k page, c.profiles k = some page → k < c.nav.next
  sound : ∀ k page, c.profiles k = some page → page.Sound

section

variable {b : Backend} {c : Client} {a : ClientAction} {x : Backend × Client}

theorem Client.next_le_moved (c : Client) (e : ClientEvent) : c.nav.next ≤ (c.moved e).next := by
  cases e with
  | signIn page uid =>
    simp only [moved, ClientApp.step]
    split
    · exact Navigator.next_le_pushReplacement c.nav _
    · exact Nat.le_refl _
  | logout =>
    simp only [moved, ClientApp.step]
    split
    · exact Navigator.next_le_pushReplacement c.nav _
    · exact Nat.le_refl _
  | openRegister =>
    simp only [moved, ClientApp.step]
    split
    · exact Nat.le_succ _
    · exact Nat.le_refl _
  | openUpload =>
    simp only [moved, ClientApp.step]
    split
    · exact Nat.le_succ _
    · exact Nat.le_refl _
  | openDetails =>
    simp only [moved, ClientApp.step]
    split
    · exact Nat.le_succ _
    · exact Nat.le_refl _
  | back =>
    simp only [moved, ClientApp.step]
    split <;> exact Nat.le_refl _
  | type y text =>
    simp only [moved, ClientApp.step]
    split
    · split <;> exact Nat.le_refl _
    · exact Nat.le_refl _
  | press q =>
    simp only [moved, ClientApp.step]
    split <;> exact Nat.le_refl _
  | _ => exact Nat.le_refl _

/-- A sign-in that finds its page and a page to replace opens a new one. -/
theorem Client.next_lt_signIn {page : ℕ} {uid : String}
    (hpage : ∃ email password, c.nav.find page = some (.login email password))
    (hstack : c.nav.stack ≠ []) : c.nav.next < (c.moved (.signIn page uid)).next := by
  obtain ⟨email, password, hfind⟩ := hpage
  obtain ⟨p, ps, hps⟩ := List.exists_cons_of_ne_nil hstack
  simp only [moved, ClientApp.step, hfind, Navigator.pushReplacement, hps, List.isEmpty_cons]
  exact Nat.lt_succ_self _

theorem next_popOf (page : ℕ) (n : Navigator ClientPage) : (popOf page n).next = n.next := by
  unfold popOf
  split <;> rfl

/-- The pages that are opened are numbered anew. -/
theorem Client.Effect.next_le (h : Effect b c a x) : c.nav.next ≤ x.2.nav.next := by
  cases h with
  | moved e he => exact c.next_le_moved e
  | opened e he =>
    rw [nav_goTo]
    exact c.next_le_moved e
  | loaded k page e hk he ha =>
    rw [nav_load]
  | entered q page uid hacc hpage hstack => exact c.next_le_moved (.signIn page uid)
  | finished q page => exact Nat.le_of_eq (next_popOf page c.nav).symm
  | refreshed q page k =>
    rw [nav_load]
    exact Nat.le_of_eq (next_popOf page c.nav).symm
  | _ => exact Nat.le_refl _

/-- What a step does to the wallets: nothing, or one page goes on, or one is opened. -/
theorem Client.Effect.profiles (h : Effect b c a x) :
    x.2.profiles = c.profiles ∨
      (∃ k page page', c.profiles k = some page ∧
        page.Next b.db.users.docs (fun f text => a = .offline k f text) page' ∧
        x.2.profiles = Function.update c.profiles k (some page')) ∨
      ∃ uid, c.nav.next < x.2.nav.next ∧
        x.2.profiles = Function.update c.profiles c.nav.next (some (.initState uid)) := by
  have hload : ∀ (c' : Client) k e, c'.profiles = c.profiles →
      (∀ page, c.profiles k = some page → ∀ f docs, e = .respond f (.ok docs) →
        page.served f = some docs) →
      (∀ f text, e = .respond f (.error text) → a = .offline k f text) →
      (c'.load k e).profiles = c.profiles ∨
        ∃ page page', c.profiles k = some page ∧
          page.Next b.db.users.docs (fun f text => a = .offline k f text) page' ∧
          (c'.load k e).profiles = Function.update c.profiles k (some page') := by
    intro c' k e hc he ha
    unfold load
    rw [hc]
    cases hk : c.profiles k with
    | none => exact .inl hc
    | some page => exact .inr ⟨page, _, rfl, .loaded e (he page hk) ha, rfl⟩
  cases h with
  | opened e he => exact .inl (c.profiles_goTo _)
  | loaded k page e hk he ha =>
    have hserved : ∀ p, c.profiles k = some p → ∀ f docs, e = .respond f (.ok docs) →
        p.served f = some docs := fun p hp => Option.some.inj (hk.symm.trans hp) ▸ he
    rcases hload c k e rfl hserved ha with hkeep | hnext
    · exact .inl hkeep
    · exact .inr (.inl ⟨k, hnext⟩)
  | served k f page given hk hf hfree =>
    exact .inr (.inl ⟨k, page, _, hk, .served f given hf hfree, rfl⟩)
  | entered q page uid hacc hpage hstack =>
    exact .inr (.inr ⟨uid, c.next_lt_signIn hpage hstack, rfl⟩)
  | refreshed q page k =>
    have hserved : ∀ p, c.profiles k = some p → ∀ f docs, LoaderEvent.refresh = .respond f (.ok docs) →
        p.served f = some docs := fun _ _ f docs he => by cases he
    have ha : ∀ f text, LoaderEvent.refresh = .respond f (.error text) → a = .offline k f text :=
      fun f text he => by cases he
    rcases hload ({ c with nav := popOf page c.nav }.setJob q none) k .refresh rfl hserved ha with
      hkeep | hnext
    · exact .inl hkeep
    · exact .inr (.inl ⟨k, hnext⟩)
  | _ => exact .inl rfl

theorem Client.Loads.step (h : c.Loads) (b : Backend) (a : ClientAction) :
    (c.step b a).2.Loads := by
  have heffect := c.effect b a
  generalize c.step b a = x at heffect
  have hle := heffect.next_le
  rcases heffect.profiles with hkeep | ⟨k, page, page', hk, hnext, hset⟩ | ⟨uid, hlt, hset⟩
  · refine ⟨fun k page hk => ?_, fun k page hk => ?_⟩
    · rw [hkeep] at hk
      exact Nat.lt_of_lt_of_le (h.opened k page hk) hle
    · rw [hkeep] at hk
      exact h.sound k page hk
  · refine ⟨fun j p hj => ?_, fun j p hj => ?_⟩
    · rw [hset] at hj
      rcases Machine.update_eq_some hj with ⟨rfl, -⟩ | ⟨-, hold⟩
      · exact Nat.lt_of_lt_of_le (h.opened j page hk) hle
      · exact Nat.lt_of_lt_of_le (h.opened j p hold) hle
    · rw [hset] at hj
      rcases Machine.update_eq_some hj with ⟨-, hnew⟩ | ⟨-, hold⟩
      · obtain rfl := Option.some.inj hnew
        exact (h.sound k page hk).next hnext
      · exact h.sound j p hold
  · refine ⟨fun j p hj => ?_, fun j p hj => ?_⟩
    · rw [hset] at hj
      rcases Machine.update_eq_some hj with ⟨rfl, -⟩ | ⟨-, hold⟩
      · exact hlt
      · exact Nat.lt_of_lt_of_le (h.opened j p hold) hle
    · rw [hset] at hj
      rcases Machine.update_eq_some hj with ⟨-, hnew⟩ | ⟨-, hold⟩
      · obtain rfl := Option.some.inj hnew
        exact ProfilePage.sound_initState uid
      · exact h.sound j p hold

/-- A page goes on. -/
theorem Client.Loads.profile_step (h : c.Loads) {k : ℕ} {page : ProfilePage}
    (hk : c.profiles k = some page) (b : Backend) (a : ClientAction) :
    ∃ page', (c.step b a).2.profiles k = some page' ∧
      page.Next b.db.users.docs (fun f text => a = .offline k f text) page' := by
  have heffect := c.effect b a
  generalize c.step b a = x at heffect
  rcases heffect.profiles with hkeep | ⟨j, p, p', hj, hnext, hset⟩ | ⟨uid, -, hset⟩
  · rw [hkeep]
    exact ⟨page, hk, .keep⟩
  · rw [hset]
    by_cases hkj : k = j
    · subst hkj
      obtain rfl := Option.some.inj (hk.symm.trans hj)
      exact ⟨p', Function.update_self _ _ _, hnext⟩
    · exact ⟨page, (Function.update_of_ne hkj _ _).trans hk, .keep⟩
  · rw [hset]
    have hne : k ≠ c.nav.next := Nat.ne_of_lt (h.opened k page hk)
    exact ⟨page, (Function.update_of_ne hne _ _).trans hk, .keep⟩

/-- A page was there before, or has just been opened. -/
theorem Client.Loads.profile_of_step (h : c.Loads) {k : ℕ} {page' : ProfilePage}
    (hk : (c.step b a).2.profiles k = some page') :
    (∃ page, c.profiles k = some page ∧
      page.Next b.db.users.docs (fun f text => a = .offline k f text) page') ∨
      ∃ uid, page' = .initState uid := by
  cases hold : c.profiles k with
  | some page =>
    obtain ⟨page'', hk', hnext⟩ := h.profile_step hold b a
    obtain rfl := Option.some.inj (hk.symm.trans hk')
    exact .inl ⟨page, rfl, hnext⟩
  | none =>
    have heffect := c.effect b a
    generalize c.step b a = x at hk heffect
    rcases heffect.profiles with hkeep | ⟨j, p, p', hj, hnext, hset⟩ | ⟨uid, -, hset⟩
    · rw [hkeep, hold] at hk
      cases hk
    · rw [hset] at hk
      rcases Machine.update_eq_some hk with ⟨rfl, -⟩ | ⟨-, hk⟩
      · cases hold.symm.trans hj
      · cases hold.symm.trans hk
    · rw [hset] at hk
      rcases Machine.update_eq_some hk with ⟨-, hnew⟩ | ⟨-, hk⟩
      · exact .inr ⟨uid, (Option.some.inj hnew).symm⟩
      · cases hold.symm.trans hk

end

theorem Client.loads_start (currentUser : Option String) : (Client.start currentUser).Loads :=
  ⟨fun _ _ h => (by cases h), fun _ _ h => (by cases h)⟩

section

variable {s : Apps} {i k : ℕ} {page : ProfilePage}

theorem Apps.loads_step (h : ∀ i, (s.clients i).Loads) (e : AppsEvent) (i : ℕ) :
    ((s.step e).clients i).Loads := by
  rcases s.client_step e i with hkeep | ⟨a, rfl, hstep⟩
  · rw [hkeep]
    exact h i
  · rw [hstep, clients_setClient]
    exact (h i).step s.backend a

theorem Apps.loads_run (h : ∀ i, (s.clients i).Loads) (es : List AppsEvent) :
    ∀ i, ((Machine.run Apps.step s es).clients i).Loads :=
  Machine.run_invariant Apps.step (I := fun s => ∀ i, (s.clients i).Loads)
    (fun _ e h => Apps.loads_step h e) h es

theorem Apps.profile_step (h : ∀ i, (s.clients i).Loads) (hk : (s.clients i).profiles k = some page)
    (e : AppsEvent) : ∃ page', ((s.step e).clients i).profiles k = some page' ∧
      page.Next s.users.docs (fun f text => e = .client i (.offline k f text)) page' := by
  rcases s.client_step e i with hkeep | ⟨a, rfl, hstep⟩
  · rw [hkeep]
    exact ⟨page, hk, .keep⟩
  · rw [hstep, clients_setClient]
    obtain ⟨page', hk', hnext⟩ := (h i).profile_step hk s.backend a
    exact ⟨page', hk', hnext.mono fun f text ha => congrArg _ ha⟩

/-- What a page has taken up in a run, it has read in the run. -/
theorem Apps.since_run (h : ∀ i, (s.clients i).Loads) (hk : (s.clients i).profiles k = some page)
    (es : List AppsEvent) : ∃ page',
      ((Machine.run Apps.step s es).clients i).profiles k = some page' ∧
        page.Since (Machine.Seen Apps.step (fun s docs => docs = s.users.docs) s es) page' := by
  have hstep : ∀ A (s : Apps) e, ((∀ i, (s.clients i).Loads) ∧
      ∃ page', (s.clients i).profiles k = some page' ∧ page.Since A page') →
      (∀ docs, docs = s.users.docs → A docs) →
      (∀ docs, docs = (s.step e).users.docs → A docs) →
      (∀ i, ((s.step e).clients i).Loads) ∧
        ∃ page', ((s.step e).clients i).profiles k = some page' ∧ page.Since A page' := by
    rintro A s e ⟨hloads, page', hk', hsince⟩ hnow -
    obtain ⟨page'', hk'', hnext⟩ := Apps.profile_step hloads hk' e
    exact ⟨Apps.loads_step hloads e, page'', hk'',
      hsince.next ((hloads i).sound k page' hk') hnext (hnow _ rfl)⟩
  have hmono : ∀ (A B : List (String × Fields) → Prop) (s : Apps), (∀ docs, A docs → B docs) →
      ((∀ i, (s.clients i).Loads) ∧
        ∃ page', (s.clients i).profiles k = some page' ∧ page.Since A page') →
      (∀ i, (s.clients i).Loads) ∧
        ∃ page', (s.clients i).profiles k = some page' ∧ page.Since B page' :=
    fun A B s hAB ⟨hloads, page', hk', hsince⟩ => ⟨hloads, page', hk', hsince.mono hAB⟩
  exact (Machine.run_seen hmono hstep ⟨h, page, hk, .refl _ page⟩ es).2

theorem Apps.profile_of_step (h : ∀ i, (s.clients i).Loads) {e : AppsEvent} {page' : ProfilePage}
    (hk : ((s.step e).clients i).profiles k = some page') :
    (∃ page, (s.clients i).profiles k = some page ∧
      page.Next s.users.docs (fun f text => e = .client i (.offline k f text)) page') ∨
      ∃ uid, page' = .initState uid := by
  rcases s.client_step e i with hkeep | ⟨a, rfl, hstep⟩
  · rw [hkeep] at hk
    exact .inl ⟨page', hk, .keep⟩
  · rw [hstep, clients_setClient] at hk
    refine ((h i).profile_of_step hk).imp_left fun ⟨page, hpage, hnext⟩ => ?_
    exact ⟨page, hpage, hnext.mono fun f text ha => congrArg _ ha⟩

end

section

variable {users : Users} {accounts : List Account} {accepts : String → String → Bool}
  {currentUsers : ℕ → Option String} {i k : ℕ}

theorem Apps.loads_start (i : ℕ) :
    ((Apps.start users accounts accepts currentUsers).clients i).Loads :=
  Client.loads_start (currentUsers i)

/-- A page of a run has read what it holds since it was opened. -/
theorem Apps.since_opened (es : List AppsEvent) {page : ProfilePage}
    (hk : ((Machine.run Apps.step (Apps.start users accounts accepts currentUsers) es).clients
      i).profiles k = some page) :
    (ProfilePage.initState page.uid).Since (Machine.Seen Apps.step
      (fun s docs => ((s.clients i).profiles k).isSome ∧ docs = s.users.docs)
      (Apps.start users accounts accepts currentUsers) es) page := by
  have hstep : ∀ (A : List (String × Fields) → Prop) (s : Apps) e, ((∀ i, (s.clients i).Loads) ∧
      ∀ page, (s.clients i).profiles k = some page →
        (ProfilePage.initState page.uid).Since A page) →
      (∀ docs, ((s.clients i).profiles k).isSome ∧ docs = s.users.docs → A docs) →
      (∀ docs, (((s.step e).clients i).profiles k).isSome ∧ docs = (s.step e).users.docs → A docs) →
      (∀ i, ((s.step e).clients i).Loads) ∧
        ∀ page, ((s.step e).clients i).profiles k = some page →
          (ProfilePage.initState page.uid).Since A page := by
    rintro A s e ⟨hloads, hpages⟩ hnow -
    refine ⟨Apps.loads_step hloads e, fun page' hk' => ?_⟩
    rcases Apps.profile_of_step hloads hk' with ⟨page, hk, hnext⟩ | ⟨uid, rfl⟩
    · rw [hnext.uid]
      exact (hpages page hk).next ((hloads i).sound k page hk) hnext (hnow _ ⟨by rw [hk]; rfl, rfl⟩)
    · exact .refl A _
  have hmono : ∀ (A B : List (String × Fields) → Prop) (s : Apps), (∀ docs, A docs → B docs) →
      ((∀ i, (s.clients i).Loads) ∧ ∀ page, (s.clients i).profiles k = some page →
        (ProfilePage.initState page.uid).Since A page) →
      (∀ i, (s.clients i).Loads) ∧ ∀ page, (s.clients i).profiles k = some page →
        (ProfilePage.initState page.uid).Since B page :=
    fun A B s hAB ⟨hloads, hpages⟩ => ⟨hloads, fun page hk => (hpages page hk).mono hAB⟩
  exact (Machine.run_seen hmono hstep ⟨Apps.loads_start, fun _ h => by cases h⟩ es).2 page hk

/-- **A wallet that is shown was stored**, at some time since the page was opened. -/
theorem shown_wallets_were_stored {es : List AppsEvent} {s : Apps}
    (hs : s = Machine.run Apps.step (Apps.start users accounts accepts currentUsers) es)
    {page : ProfilePage} (hk : (s.clients i).profiles k = some page) {v : Option AllNFT}
    (hshows : page.snapshot = some (.ok v)) :
    ∃ pre post, es = pre ++ post ∧
      (((Machine.run Apps.step (Apps.start users accounts accepts currentUsers) pre).clients
        i).profiles k).isSome ∧
      (Machine.run Apps.step (Apps.start users accounts accepts currentUsers) pre).users.allNFTs
        page.uid = .ok v := by
  subst hs
  have hsound := (Apps.loads_run Apps.loads_start es i).sound k page hk
  rcases (Apps.since_opened es hk).opened hsound hshows with
    ⟨_, v', ⟨pre, post, hsplit, hopen, rfl⟩, htried, hv⟩ | ⟨e, response, he, -⟩
  · rw [ProfilePage.tried_docs] at htried
    rw [Except.ok.inj hv]
    exact ⟨pre, post, hsplit, hopen, htried⟩
  · cases he

end

/-- Ann's document, with one entry. -/
def seaUsers : Users :=
  Collection.set ∅ "ann" [("name", .str "Ann"), ("role", .str "user"),
    ("NFT", .list [nftMap ⟨"Sea", "url", "At the sea"⟩])]

def seaWallet : AllNFT := ⟨[⟨"Sea", "url", "At the sea"⟩]⟩

/-- Ann has two devices. -/
def annsDevices : Apps :=
  .start seaUsers [⟨"ann", "ann@mail.com", none⟩] (fun _ _ => true) fun _ => none

/-- She signs in on device `i`, and her wallet is loaded. -/
def signingIn (i : ℕ) : List AppsEvent :=
  [.client i (.type .email "ann@mail.com"), .client i (.press 0), .client i (.signIn 0 "ann"),
    .client i (.serve 1 0), .client i (.answer 1 0), .client i (.wake 1 0)]

theorem shown_wallets_were_stored_sea :
    ∃ pre post, signingIn 0 = pre ++ post ∧
      (((Machine.run Apps.step annsDevices pre).clients 0).profiles 1).isSome ∧
      (Machine.run Apps.step annsDevices pre).users.allNFTs "ann" = .ok (some seaWallet) := by
  have hpage : ((Machine.run Apps.step annsDevices (signingIn 0)).clients 0).profiles 1 = some _ := rfl
  exact shown_wallets_were_stored rfl hpage rfl

section

variable {users : Users} {accounts : List Account} {accepts : String → String → Bool}
  {currentUsers : ℕ → Option String} {i k : ℕ}

/-- **Reads are monotonic.** What a page shows, it has shown before, or it was stored at some later
time. -/
theorem reads_are_monotonic {pre post : List AppsEvent} {page page' : ProfilePage}
    (hk : ((Machine.run Apps.step (Apps.start users accounts accepts currentUsers) pre).clients
      i).profiles k = some page)
    (hk' : ((Machine.run Apps.step (Apps.start users accounts accepts currentUsers)
      (pre ++ post)).clients i).profiles k = some page') {r r' : Except Raised (Option AllNFT)}
    (hshows : page.snapshot = some r) (hshows' : page'.snapshot = some r') :
    r' = r ∨ ∃ mid rest v, post = mid ++ rest ∧ r' = .ok v ∧
      (Machine.run Apps.step (Apps.start users accounts accepts currentUsers)
        (pre ++ mid)).users.allNFTs page.uid = .ok v := by
  have hloads : ∀ i, ((Machine.run Apps.step (Apps.start users accounts accepts currentUsers)
    pre).clients i).Loads := Apps.loads_run Apps.loads_start pre
  obtain ⟨page'', hk'', hsince⟩ := Apps.since_run hloads hk post
  rw [← Machine.run_append, hk'] at hk''
  obtain rfl := Option.some.inj hk''
  have hsound' := (Apps.loads_run Apps.loads_start (pre ++ post) i).sound k page' hk'
  rcases hsince.snapshot ((hloads i).sound k page hk) hsound' hshows hshows' with
    hsame | ⟨_, v, ⟨mid, rest, hsplit, rfl⟩, htried, hv⟩
  · exact .inl hsame
  · rw [ProfilePage.tried_docs, ← Machine.run_append] at htried
    exact .inr ⟨mid, rest, v, hsplit, hv, htried⟩

end

/-- Call `f` of page `k` is processed and answered, and its sleep ends, as far as this is still to
come. -/
def finishing (i k f : ℕ) : List AppsEvent :=
  [.client i (.serve k f), .client i (.answer k f), .client i (.wake k f)]

/-- The page is refreshed for the `f`th time. -/
def refreshing (i k f : ℕ) : List AppsEvent := .client i .refresh :: finishing i k f

/-- She picks a picture on device `i` and gives it texts. -/
def uploading (i : ℕ) : List AppsEvent :=
  [.client i .openUpload, .client i (.type .name "Hill"), .client i (.type .description "On a hill"),
    .client i (.press 1), .client i (.pick 1 (some ⟨"hill.png", []⟩)), .client i (.put 1),
    .client i (.link 1 "link")]

def hillWallet : AllNFT :=
  ⟨[⟨"Sea", "url", "At the sea"⟩, ⟨"Hill", "link", "On a hill"⟩]⟩

/-- Meanwhile the page on device 0 is refreshed, without success and then with. -/
def uploadBeside : List AppsEvent :=
  signingIn 1 ++ uploading 1 ++ .client 0 .refresh :: .client 1 (.update 1) ::
    .client 0 (.offline 1 1 "offline") :: refreshing 0 1 2

theorem reads_are_monotonic_hill :
    ∃ mid rest, uploadBeside = mid ++ rest ∧
      (Machine.run Apps.step annsDevices (signingIn 0 ++ mid)).users.allNFTs "ann" =
        .ok (some hillWallet) := by
  have hpage : ((Machine.run Apps.step annsDevices (signingIn 0)).clients 0).profiles 1 = some _ := rfl
  have hpage' : ((Machine.run Apps.step annsDevices (signingIn 0 ++ uploadBeside)).clients 0).profiles
    1 = some _ := rfl
  have hshows : (Except.ok (some hillWallet) : Except Raised (Option AllNFT)) ≠
    .ok (some seaWallet) := fun h => by cases h
  obtain ⟨mid, rest, v, hsplit, hv, hstored⟩ := (reads_are_monotonic hpage hpage'
    (rfl : _ = some (Except.ok (some seaWallet))) rfl).resolve_left hshows
  rw [← Except.ok.inj hv] at hstored
  exact ⟨mid, rest, hsplit, hstored⟩

/-- A page that has got an answer to a refresh shows what was read since the refresh, if all that
was stored since decodes. -/
theorem Apps.shows_of_refreshed {s : Apps} {i k : ℕ} {page page' : ProfilePage}
    {post : List AppsEvent} {Q : Option AllNFT → Prop} (h : ∀ i, (s.clients i).Loads)
    (hk : (s.clients i).profiles k = some page)
    (hk' : ((Machine.run Apps.step s post).clients i).profiles k = some page')
    (hread : ∀ docs, Machine.Seen Apps.step (fun s docs => docs = s.users.docs) s post docs →
      ∃ v, ProfilePage.tried page.uid (.ok docs) = .ok v ∧ Q v) {f : ℕ}
    (hf : page.allNFTs.current < f) {docs : List (String × Fields)}
    (hanswered : page'.allNFTs.responses f = some (.ok docs)) {r : Except Raised (Option AllNFT)}
    (hshows : page'.snapshot = some r) : ∃ v, r = .ok v ∧ Q v := by
  obtain ⟨page'', hk'', hsince⟩ := Apps.since_run h hk post
  obtain rfl := Option.some.inj (hk'.symm.trans hk'')
  have hsound := (h i).sound k page hk
  have hsound' := (Apps.loads_run h post i).sound k page' hk'
  have hserved := hsound'.answers f docs hanswered
  have hseen := (hsince.served f docs hserved).resolve_left fun hold =>
    absurd (hsound.served f docs hold) (Nat.not_le_of_gt hf)
  obtain ⟨v, htried, -⟩ := hread docs hseen
  rw [← hsince.uid] at htried
  obtain ⟨docs', v', hseen', hv, rfl⟩ := hsince.refreshed hsound hsound' hf
    (hsound'.served f docs hserved) hanswered htried hshows
  obtain ⟨w, hw, hQ⟩ := hread docs' hseen'
  rw [hv] at hw
  obtain rfl := Except.ok.inj hw
  exact ⟨v', rfl, hQ⟩

/-! ## An upload is there -/

/-- An element equal to the map of an NFT shows its texts. -/
theorem entry_mem_of_same {xs : List Value} {w : Wallet} (h : List.Forall₂ ShowsTexts xs w)
    {nft : NftArt} (hany : xs.any (same (nftMap nft)) = true) : nft.entry ∈ w := by
  induction h with
  | nil => cases hany
  | @cons v e xs w hv _ ih =>
    rw [List.any_cons, Bool.or_eq_true] at hany
    rcases hany with hsame | hany
    · obtain ⟨m, rfl, hname, himage, hdesc⟩ := hv
      simp only [nftMap, same, sameFields, hname, himage, hdesc, Bool.and_eq_true, beq_iff_eq]
        at hsame
      obtain ⟨-, hn, hi, hd, -⟩ := hsame
      have hentry : nft.entry = e := by rw [NftArt.entry, hn, hi, hd]
      rw [hentry]
      exact List.mem_cons_self
    · exact List.mem_cons_of_mem e (ih hany)

/-- An upload adds its entry and leaves those that were there. -/
theorem Stores.upload_shows {doc : Fields} {p : Profile} (h : Stores ShowsTexts doc p)
    (nft : NftArt) : ∃ p', Stores ShowsTexts (postNFT nft doc) p' ∧ nft.entry ∈ p'.wallet ∧
      ∀ e ∈ p.wallet, e ∈ p'.wallet := by
  obtain ⟨xs, hxs, hw⟩ := h.index_nft
  have hunion := arrayUnion_singleton xs (nftMap nft)
  rw [← hxs] at hunion
  by_cases hany : xs.any (same (nftMap nft))
  · rw [if_pos hany] at hunion
    exact ⟨_, h.upload hunion hw, entry_mem_of_same hw hany, fun e he => he⟩
  · rw [if_neg hany] at hunion
    exact ⟨_, h.upload hunion (List.rel_append hw (.cons (entryRel_showsTexts.literal nft) .nil)),
      List.mem_append_right _ (List.mem_singleton_self _), fun e he => List.mem_append_left _ he⟩

/-- The document of `uid` shows the entry. -/
def Users.Has (users : Users) (uid : String) (entry : Entry) : Prop :=
  ∃ doc p, users.get uid = some doc ∧ Stores ShowsTexts doc p ∧ entry ∈ p.wallet

theorem Users.Has.allNFTs {users : Users} {uid : String} {entry : Entry} (h : users.Has uid entry) :
    ∃ shown, users.allNFTs uid = .ok (some shown) ∧ entry ∈ shown.all.map NFT.entry := by
  obtain ⟨doc, p, hdoc, hp, hmem⟩ := h
  have hshown := AllNFT.fromJson_of_stores hp
  refine ⟨⟨p.wallet.map fun e => ⟨e.name, e.image, e.description⟩⟩, ?_, ?_⟩
  · simp only [Users.allNFTs, hdoc, hshown]
    rfl
  · rw [List.map_map]
    exact List.mem_map.mpr ⟨entry, hmem, rfl⟩

/-- Nothing but uploads is written to the document of `uid`. -/
def OnlyUploads (uid : String) (s : Apps) (e : AppsEvent) : Prop :=
  ∀ e', s.sent e = some e' → ¬ e'.ReplacesDoc uid ∧
    ∀ p w, e' = .update p → s.admin.db.writes p = some w → w.uid ≠ uid

theorem Db.has_upload {s : Db} {uid : String} {doc : Fields} (hdoc : s.users.get uid = some doc)
    (h : WellFormed doc) (nft : NftArt) : (s.step (.upload uid nft)).users.Has uid nft.entry := by
  obtain ⟨p, hp⟩ := h.exists_stores
  obtain ⟨p', hp', hmem, -⟩ := hp.upload_shows nft
  refine ⟨postNFT nft doc, p', ?_, hp', hmem⟩
  change (s.users.update uid (postNFT nft)).get uid = _
  rw [Collection.get_update, if_pos rfl, hdoc]
  rfl

theorem Users.Has.step {s : Apps} {uid : String} {entry : Entry} (h : s.users.Has uid entry)
    {e : AppsEvent} (he : OnlyUploads uid s e) : (s.step e).users.Has uid entry := by
  unfold Apps.users
  rw [s.db_step e]
  cases hsent : s.sent e with
  | none => exact h
  | some e' =>
    obtain ⟨hreplaces, hother⟩ := he e' hsent
    change ((s.admin.db.step e').users).Has uid entry
    obtain ⟨doc, p, hdoc, hp, hmem⟩ := h
    have hstep := s.admin.db.docStep e' uid
    unfold Users.Has
    generalize (s.admin.db.step e').log = log at hstep
    generalize (s.admin.db.step e').users.get uid = doc' at hstep ⊢
    cases hstep with
    | keep => exact ⟨doc, p, hdoc, hp, hmem⟩
    | other c hc => exact ⟨doc, p, hdoc, hp, hmem⟩
    | update q w doc'' he' hw huid hdoc'' => exact absurd huid (hother q w he' hw)
    | upload nft doc'' he' hdoc'' =>
      obtain rfl := Option.some.inj (hdoc.symm.trans hdoc'')
      obtain ⟨p', hp', -, hkept⟩ := hp.upload_shows nft
      exact ⟨_, p', rfl, hp', hkept entry hmem⟩
    | register name he' =>
      subst he'
      exact absurd rfl hreplaces
    | delete he' =>
      subst he'
      exact absurd rfl hreplaces

/-- From well-formed documents, every document there is stores a profile. -/
theorem Apps.allStore_run {users : Users} {accounts : List Account}
    {accepts : String → String → Bool} {currentUsers : ℕ → Option String}
    (h : ∀ uid doc, users.get uid = some doc → WellFormed doc) (es : List AppsEvent) :
    AllStore ShowsTexts
      (Machine.run Apps.step (Apps.start users accounts accepts currentUsers) es).admin.db := by
  rw [Apps.run_db]
  exact (allStore_start_of_wellFormed h).run entryRel_showsTexts _

/-- **An upload is shown after a refresh.** As long as nothing but uploads is written to the
document, a page that has got an answer to a refresh which was started after the upload shows the
entry. The page may have been opened after the upload, too. -/
theorem uploads_show_after_refresh {users : Users} {accounts : List Account}
    {accepts : String → String → Bool} {currentUsers : ℕ → Option String}
    {pre mid post : List AppsEvent} {s t : Apps}
    (hs : s = Machine.run Apps.step (Apps.start users accounts accepts currentUsers) pre)
    {e : AppsEvent} {uid : String} {nft : NftArt} (hsent : s.sent e = some (.upload uid nft))
    {doc : Fields} (hdoc : s.users.get uid = some doc) (hwell : WellFormed doc)
    (hrest : Machine.Along Apps.step (OnlyUploads uid) (s.step e) (mid ++ post))
    (ht : t = Machine.run Apps.step (s.step e) mid) {i k : ℕ} {page page' : ProfilePage}
    (hk : (t.clients i).profiles k = some page) (huid : page.uid = uid)
    (hk' : ((Machine.run Apps.step t post).clients i).profiles k = some page') {f : ℕ}
    (hf : page.allNFTs.current < f) {docs : List (String × Fields)}
    (hanswered : page'.allNFTs.responses f = some (.ok docs)) {r : Except Raised (Option AllNFT)}
    (hshows : page'.snapshot = some r) :
    ∃ shown, r = .ok (some shown) ∧ nft.entry ∈ shown.all.map NFT.entry := by
  subst ht
  have hloads : ∀ i, ((Machine.run Apps.step (s.step e) mid).clients i).Loads := by
    rw [hs]
    exact Apps.loads_run (Apps.loads_step (Apps.loads_run Apps.loads_start pre) e) mid
  have hhas : (s.step e).users.Has uid nft.entry := by
    rw [Apps.users, s.db_step e, hsent]
    exact Db.has_upload hdoc hwell nft
  -- the entry is in whatever is read from then on
  have hread : ∀ docs, Machine.Seen Apps.step (fun s docs => docs = s.users.docs)
      (Machine.run Apps.step (s.step e) mid) post docs →
      ∃ v, ProfilePage.tried page.uid (.ok docs) = .ok v ∧
        ∃ shown, v = some shown ∧ nft.entry ∈ shown.all.map NFT.entry := by
    rintro _ ⟨seen, rest, rfl, rfl⟩
    rw [← List.append_assoc] at hrest
    have hthere := (Machine.along_append.mp hrest).1.invariant
      (I := fun s => s.users.Has uid nft.entry) (fun s e h he => h.step he) hhas
    rw [Machine.run_append] at hthere
    obtain ⟨shown, hshown, hmem⟩ := hthere.allNFTs
    rw [huid, ProfilePage.tried_docs]
    exact ⟨some shown, hshown, shown, rfl, hmem⟩
  obtain ⟨_, rfl, shown, rfl, hmem⟩ := Apps.shows_of_refreshed hloads hk hk' hread hf hanswered hshows
  exact ⟨shown, rfl, hmem⟩

/-- Ann has picked a picture on one device. -/
def picked : Apps := Machine.run Apps.step annsDevices (signingIn 0 ++ (signingIn 1 ++ uploading 1))

theorem wellFormed_seaUsers (uid : String) (doc : Fields) (h : seaUsers.get uid = some doc) :
    WellFormed doc := by
  rw [seaUsers, Collection.get_set] at h
  split at h
  · obtain rfl := Option.some.inj h
    have hsea : ShowsTexts (nftMap ⟨"Sea", "url", "At the sea"⟩) ⟨"Sea", "url", "At the sea"⟩ :=
      ⟨_, rfl, rfl, rfl, rfl⟩
    exact ⟨⟨_, rfl⟩, ⟨"user", by decide, rfl⟩, _, rfl, fun x hx =>
      ⟨_, List.mem_singleton.mp hx ▸ hsea⟩⟩
  · cases h

/-- Ann, in `seaUsers`. -/
theorem wellFormed_sea : WellFormed [("name", .str "Ann"), ("role", .str "user"),
    ("NFT", .list [nftMap ⟨"Sea", "url", "At the sea"⟩])] :=
  wellFormed_seaUsers "ann" _ rfl

/-- The upload is done; then she signs in on one more device, and refreshes the page there. -/
theorem uploads_show_after_refresh_hill :
    ∃ shown, (.ok (some hillWallet) : Except Raised (Option AllNFT)) = .ok (some shown) ∧
      (⟨"Hill", "link", "On a hill"⟩ : Entry) ∈ shown.all.map NFT.entry := by
  have hsent : picked.sent (.client 1 (.update 1)) =
    some (.upload "ann" ⟨"Hill", "link", "On a hill"⟩) := rfl
  have hrest : Machine.Along Apps.step (OnlyUploads "ann") (picked.step (.client 1 (.update 1)))
      (signingIn 2 ++ refreshing 2 1 1) :=
    ⟨fun _ h => (by cases h), fun _ h => (by cases h), fun _ h => (by cases h),
      fun _ h => (by cases h), fun _ h => (by cases h), fun _ h => (by cases h),
      fun _ h => (by cases h), fun _ h => (by cases h), fun _ h => (by cases h),
      fun _ h => (by cases h), trivial⟩
  have hpage : ((Machine.run Apps.step (picked.step (.client 1 (.update 1)))
    (signingIn 2)).clients 2).profiles 1 = some _ := rfl
  have hpage' : ((Machine.run Apps.step (Machine.run Apps.step
    (picked.step (.client 1 (.update 1))) (signingIn 2)) (refreshing 2 1 1)).clients 2).profiles 1 =
      some _ := rfl
  exact uploads_show_after_refresh rfl hsent rfl wellFormed_sea hrest rfl hpage rfl hpage'
    Nat.one_pos rfl rfl

end FlutterThree
