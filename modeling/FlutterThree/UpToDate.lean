import FlutterThree.Reads
import FlutterThree.Ownership

/-!
# Bringing a profile page up to date

`refreshed_pages_show_the_store`: while a document stays as it is, every page of its user that has
got an answer to a refresh shows it, on every device. `refreshes_bring_up_to_date`: such an answer
can always be had. In every state the page on top shows the store once it is refreshed, however
many calls of it are still out and whether or not they ever return. `pages_can_load`: without a
refresh it shows something as soon as its calls have been answered.
-/

namespace FlutterThree

open Dart Async Firestore Flutter

/-! ## Pages of the same user agree -/

/-- In a well-formed collection the wallet of every user decodes. -/
theorem AllStore.allNFTs {s : Db} (h : AllStore ShowsTexts s) (uid : String) :
    ∃ v, s.users.allNFTs uid = .ok v := by
  unfold Users.allNFTs
  cases hdoc : s.users.get uid with
  | none => exact ⟨none, rfl⟩
  | some doc =>
    obtain ⟨p, hp⟩ := h.users uid doc hdoc
    dsimp only
    rw [AllNFT.fromJson_of_stores hp]
    exact ⟨_, rfl⟩

/-- The step leaves the document of `uid` as it is. -/
def LeavesDoc (uid : String) (s : Apps) (e : AppsEvent) : Prop :=
  (s.step e).users.get uid = s.users.get uid

theorem leavesDoc_of_sent {uid : String} {s : Apps} {e : AppsEvent} (h : s.sent e = none) :
    LeavesDoc uid s e := by
  have hdb := s.db_step e
  rw [h] at hdb
  exact congrArg (fun db : Db => db.users.get uid) hdb

theorem Users.allNFTs_congr {users users' : Users} {uid : String}
    (h : users'.get uid = users.get uid) :
    users'.allNFTs uid = users.allNFTs uid := by
  unfold Users.allNFTs
  rw [h]

/-- **A page that is refreshed shows the store.** While the document of a user stays as it is, a
page that has got an answer to a refresh shows the wallet in it. -/
theorem refreshed_pages_show_the_store {users : Users} {accounts : List Account}
    {accepts : String → String → Bool} {currentUsers : ℕ → Option String}
    (hwell : ∀ uid doc, users.get uid = some doc → WellFormed doc) {pre post : List AppsEvent}
    {s s' : Apps} (hs : s = Machine.run Apps.step (Apps.start users accounts accepts currentUsers) pre)
    (hs' : s' = Machine.run Apps.step s post) {uid : String}
    (hpost : Machine.Along Apps.step (LeavesDoc uid) s post) {i k : ℕ} {page page' : ProfilePage}
    (hk : (s.clients i).profiles k = some page) (huid : page.uid = uid)
    (hk' : (s'.clients i).profiles k = some page') {f : ℕ} (hf : page.allNFTs.current < f)
    {docs : List (String × Fields)} (hanswered : page'.allNFTs.responses f = some (.ok docs))
    {r : Except Raised (Option AllNFT)} (hshows : page'.snapshot = some r) :
    r = s'.users.allNFTs uid := by
  have hall : AllStore ShowsTexts s.admin.db := hs ▸ Apps.allStore_run hwell pre
  have hloads : ∀ i, (s.clients i).Loads := hs ▸ Apps.loads_run Apps.loads_start pre
  obtain ⟨v, hv⟩ := hall.allNFTs uid
  have hsame : ∀ {mid rest}, post = mid ++ rest →
      (Machine.run Apps.step s mid).users.allNFTs uid = .ok v := by
    rintro mid rest rfl
    have hget := (Machine.along_append.mp hpost).1.invariant
      (I := fun t => t.users.get uid = s.users.get uid) (fun t e h he => he.trans h) rfl
    rw [Users.allNFTs_congr hget]
    exact hv
  have hread : ∀ docs, Machine.Seen Apps.step (fun s docs => docs = s.users.docs) s post docs →
      ∃ w, ProfilePage.tried page.uid (.ok docs) = .ok w ∧ w = v := by
    rintro _ ⟨mid, rest, hsplit, rfl⟩
    rw [huid, ProfilePage.tried_docs]
    exact ⟨v, hsame hsplit, rfl⟩
  obtain ⟨w, rfl, rfl⟩ := Apps.shows_of_refreshed hloads hk (hs' ▸ hk') hread hf hanswered hshows
  rw [hs']
  exact (hsame (List.append_nil post).symm).symm

/-- Ann has signed in. -/
def signedIn : Apps := Machine.run Apps.step annsDevices (signingIn 0)

theorem refreshed_pages_show_the_store_sea :
    (.ok (some seaWallet) : Except Raised (Option AllNFT)) =
      (Machine.run Apps.step signedIn (refreshing 0 1 1)).users.allNFTs "ann" := by
  have hs : signedIn = Machine.run Apps.step annsDevices (signingIn 0) := rfl
  have hpost : Machine.Along Apps.step (LeavesDoc "ann") signedIn (refreshing 0 1 1) :=
    ⟨leavesDoc_of_sent rfl, leavesDoc_of_sent rfl, leavesDoc_of_sent rfl, leavesDoc_of_sent rfl,
      trivial⟩
  have hpage : (signedIn.clients 0).profiles 1 = some _ := rfl
  have hpage' : ((Machine.run Apps.step signedIn (refreshing 0 1 1)).clients 0).profiles 1 = some _ :=
    rfl
  exact refreshed_pages_show_the_store wellFormed_seaUsers hs rfl hpost hpage rfl hpage' Nat.one_pos
    rfl rfl

/-! ## A page has its calls -/

/-- Every mounted `ProfilePage` has the calls for its user. -/
def Client.Backed (c : Client) : Prop :=
  ∀ p ∈ c.nav.mounted, ∀ uid, p.route = .profile uid →
    ∃ page, c.profiles p.id = some page ∧ page.uid = uid

theorem ClientPage.eq_profile_of_keystroke {x : BlocStream} {text : String}
    {event : Except String String} {own : Prop} [Decidable own] {p : ClientPage} {uid : String}
    (h : (if own then p.type x text else p).hear x event = .profile uid) : p = .profile uid := by
  cases p with
  | profile uid' => split at h <;> exact h
  | _ => split at h <;> cases h

section

variable {b : Backend} {c : Client} {a : ClientAction} {x : Backend × Client}

/-- A page that is opened without a sign-in, or typed into, is no `ProfilePage`. -/
theorem Client.mem_mounted_opened {e : ClientEvent}
    (he : e = .openRegister ∨ e = .openUpload ∨ ∃ x text, e = .type x text) {p : Page ClientPage}
    (hp : p ∈ (c.moved e).mounted) {uid : String} (hroute : p.route = .profile uid) :
    p ∈ c.nav.mounted := by
  have hpush : ∀ {r}, p ∈ (c.nav.push r).mounted → r ≠ .profile uid → p ∈ c.nav.mounted := by
    intro r hp hr
    rcases Navigator.mem_mounted_push.mp hp with rfl | hp
    · exact absurd hroute hr
    · exact hp
  rcases he with rfl | rfl | ⟨y, text, rfl⟩
  · simp only [moved, ClientApp.step] at hp
    split at hp
    · exact hpush hp (fun h => by cases h)
    · exact hp
  · simp only [moved, ClientApp.step] at hp
    split at hp
    · exact hpush hp (fun h => by cases h)
    · exact hp
  · simp only [moved, ClientApp.step] at hp
    split at hp
    · split at hp
      · obtain ⟨q, hq, rfl⟩ := Navigator.mem_mounted_modify.mp hp
        have hsame := ClientPage.eq_profile_of_keystroke hroute
        dsimp only at hroute ⊢
        rw [hroute, ← hsame]
        exact hq
      · exact hp
    · exact hp

/-- A `ProfilePage` after a step was there before, or has just been opened. -/
theorem Client.Effect.profile_page (h : Effect b c a x) {p : Page ClientPage}
    (hp : p ∈ x.2.nav.mounted) {uid : String} (hroute : p.route = .profile uid) :
    p ∈ c.nav.mounted ∨ x.2.profiles p.id = some (.initState uid) := by
  cases h with
  | moved e he =>
    refine (Client.mem_mounted_moved he hp).imp_right fun hnone => ?_
    rw [hroute] at hnone
    cases hnone
  | opened e he =>
    rw [nav_goTo] at hp
    exact .inl (Client.mem_mounted_opened he hp hroute)
  | loaded k page e hk he ha =>
    rw [nav_load] at hp
    exact .inl hp
  | entered q page uid' hacc hpage hstack =>
    obtain ⟨email, password, hfind⟩ := hpage
    have hmoved : p ∈ (c.nav.pushReplacement (.profile uid')).mounted := by
      change p ∈ (c.moved (.signIn page uid')).mounted at hp
      simp only [Client.moved, ClientApp.step, hfind] at hp
      exact hp
    rcases Navigator.mem_mounted_pushReplacement hmoved with rfl | hold
    · obtain rfl := ClientPage.profile.inj hroute
      exact .inr (Function.update_self _ _ _)
    · exact .inl hold
  | finished q page => exact .inl (mem_mounted_popOf hp)
  | refreshed q page k =>
    rw [nav_load] at hp
    exact .inl (mem_mounted_popOf hp)
  | _ => exact .inl hp

theorem Client.Backed.step (h : c.Backed) (hloads : c.Loads) (b : Backend) (a : ClientAction) :
    (c.step b a).2.Backed := by
  intro p hp uid hroute
  rcases (c.effect b a).profile_page hp hroute with hold | hnew
  · obtain ⟨page, hk, huid⟩ := h p hold uid hroute
    obtain ⟨page', hk', hnext⟩ := hloads.profile_step hk b a
    exact ⟨page', hk', hnext.uid.trans huid⟩
  · exact ⟨_, hnew, rfl⟩

end

theorem Client.backed_start (currentUser : Option String) : (Client.start currentUser).Backed := by
  intro p hp uid hroute
  rw [Navigator.mem_mounted_home hp] at hroute
  cases hroute

/-! ## Calls that are finished -/

/-- The `get` of call `f` is processed, where the documents are `docs`. -/
def ProfilePage.serve (page : ProfilePage) (docs : List (String × Fields)) (f : ℕ) : ProfilePage :=
  match page.allNFTs.calls f, page.served f with
  | some (.fetching _), none => { page with served := Function.update page.served f (some docs) }
  | _, _ => page

/-- Its answer arrives. -/
def ProfilePage.answer (page : ProfilePage) (f : ℕ) : ProfilePage :=
  match page.served f with
  | some docs =>
    { page with
      allNFTs := page.allNFTs.step (ProfilePage.fetch page.uid) (.respond f (.ok docs)) }
  | none => page

/-- Its sleep ends. -/
def ProfilePage.wake (page : ProfilePage) (f : ℕ) : ProfilePage :=
  { page with allNFTs := page.allNFTs.step (ProfilePage.fetch page.uid) (.wake f) }

def ProfilePage.finish (page : ProfilePage) (docs : List (String × Fields)) (f : ℕ) : ProfilePage :=
  ((page.serve docs f).answer f).wake f

section

variable {page : ProfilePage} {docs : List (String × Fields)} {f : ℕ}

theorem ProfilePage.next_serve (page : ProfilePage) (docs : List (String × Fields)) (f : ℕ)
    (failed : ℕ → String → Prop) : page.Next docs failed (page.serve docs f) := by
  unfold serve
  split
  · rename_i given hf hfree
    exact .served f given hf hfree
  · exact .keep

theorem ProfilePage.allNFTs_serve (page : ProfilePage) (docs : List (String × Fields)) (f : ℕ) :
    (page.serve docs f).allNFTs = page.allNFTs := by
  unfold serve
  split <;> rfl

theorem ProfilePage.next_answer (page : ProfilePage) (docs : List (String × Fields)) (f : ℕ)
    (failed : ℕ → String → Prop) : page.Next docs failed (page.answer f) := by
  unfold answer
  split
  · rename_i docs' hserved
    refine .loaded _ (fun g docs'' he => ?_) fun g text he => by cases he
    obtain ⟨rfl, hdocs⟩ := LoaderEvent.respond.inj he
    rw [← Except.ok.inj hdocs]
    exact hserved
  · exact .keep

theorem ProfilePage.next_wake (page : ProfilePage) (docs : List (String × Fields)) (f : ℕ)
    (failed : ℕ → String → Prop) : page.Next docs failed (page.wake f) :=
  .loaded (.wake f) (fun _ _ he => by cases he) fun _ _ he => by cases he

theorem ProfilePage.Sound.finish (h : page.Sound) (docs : List (String × Fields)) (f : ℕ) :
    (page.finish docs f).Sound :=
  let failed : ℕ → String → Prop := fun _ _ => False
  ((h.next (page.next_serve docs f failed)).next (ProfilePage.next_answer _ docs f failed)).next
    (ProfilePage.next_wake _ docs f failed)

theorem ProfilePage.Sound.since_finish (h : page.Sound) (docs : List (String × Fields)) (f : ℕ) :
    page.Since (Eq docs) (page.finish docs f) := by
  have hserve := page.next_serve docs f fun _ _ => False
  have hanswer := (page.serve docs f).next_answer docs f fun _ _ => False
  have hwake := ((page.serve docs f).answer f).next_wake docs f fun _ _ => False
  have hsound := (h.next hserve).next hanswer
  exact (((Since.refl _ page).next h hserve rfl).next (h.next hserve) hanswer rfl).next hsound hwake
    rfl

theorem ProfilePage.current_finish (page : ProfilePage) (docs : List (String × Fields)) (f : ℕ) :
    (page.finish docs f).allNFTs.current = page.allNFTs.current := by
  have hstep : ∀ (s : Loader AllNFT) code e, e ≠ .refresh → (s.step code e).current = s.current := by
    intro s code e he
    cases e with
    | refresh => exact absurd rfl he
    | respond g response => simp only [Loader.step]; split <;> rfl
    | wake g => simp only [Loader.step]; split <;> rfl
  have hanswer : ((page.serve docs f).answer f).allNFTs.current =
      (page.serve docs f).allNFTs.current := by
    unfold answer
    split
    · exact hstep _ _ _ (fun he => by cases he)
    · rfl
  rw [← page.allNFTs_serve docs f]
  exact (hstep _ _ _ fun he => by cases he).trans hanswer

/-- A call that is waiting for nothing but its sleep ends with it. -/
theorem ProfilePage.ended_wake {call : Call AllNFT} (hf : page.allNFTs.calls f = some call)
    (hcall : ∀ given, call ≠ .fetching given) :
    ∃ x, (page.wake f).allNFTs.calls f = some (.ended x) := by
  cases call with
  | fetching given => exact absurd rfl (hcall given)
  | sleeping tmp =>
    simp only [wake, Loader.step, hf]
    exact ⟨_, Function.update_self _ _ _⟩
  | ended x =>
    simp only [wake, Loader.step, hf]
    exact ⟨x, rfl⟩

theorem ProfilePage.served_serve {given : Option ℕ} (docs : List (String × Fields))
    (hf : page.allNFTs.calls f = some (.fetching given)) :
    ∃ docs', (page.serve docs f).served f = some docs' ∧ (page.served f = none → docs' = docs) := by
  cases hserved : page.served f with
  | none =>
    simp only [serve, hf, hserved]
    exact ⟨docs, Function.update_self _ _ _, fun _ => rfl⟩
  | some docs' =>
    simp only [serve, hf, hserved]
    exact ⟨docs', rfl, fun h => by cases h⟩

/-- The answer that a call has got, once it is there. -/
theorem ProfilePage.answer_of_fetching {given : Option ℕ} {docs' : List (String × Fields)}
    (hf : page.allNFTs.calls f = some (.fetching given)) (hserved : page.served f = some docs') :
    (page.answer f).allNFTs.responses f = some (.ok docs') ∧
      ∃ call, (page.answer f).allNFTs.calls f = some call ∧ ∀ given, call ≠ .fetching given := by
  simp only [answer, hserved, Loader.step, hf]
  exact ⟨Function.update_self _ _ _, _, Function.update_self _ _ _, Call.next_ne_fetching _⟩

theorem ProfilePage.answer_of_ne {call : Call AllNFT} (hf : page.allNFTs.calls f = some call)
    (hcall : ∀ given, call ≠ .fetching given) : (page.answer f).allNFTs.calls f = some call := by
  unfold answer
  split
  · cases call with
    | fetching given => exact absurd rfl (hcall given)
    | _ => simp only [Loader.step, hf]
  · exact hf

/-- A call that was started is brought to its end. -/
theorem ProfilePage.ended_finish {call : Call AllNFT} (docs : List (String × Fields))
    (hf : page.allNFTs.calls f = some call) :
    ∃ x, (page.finish docs f).allNFTs.calls f = some (.ended x) := by
  have hserve : (page.serve docs f).allNFTs.calls f = some call := by
    rw [page.allNFTs_serve]
    exact hf
  by_cases hfetching : ∃ given, call = .fetching given
  · obtain ⟨given, rfl⟩ := hfetching
    obtain ⟨docs', hserved, -⟩ := ProfilePage.served_serve docs hf
    obtain ⟨-, call, hcall, hne⟩ := ProfilePage.answer_of_fetching hserve hserved
    exact ProfilePage.ended_wake hcall hne
  · have hne : ∀ given, call ≠ .fetching given := fun given h => hfetching ⟨given, h⟩
    exact ProfilePage.ended_wake (ProfilePage.answer_of_ne hserve hne) hne

theorem ProfilePage.responses_finish {given : Option ℕ}
    (hf : page.allNFTs.calls f = some (.fetching given)) (hfree : page.served f = none) :
    (page.finish docs f).allNFTs.responses f = some (.ok docs) := by
  have hserve : (page.serve docs f).allNFTs.calls f = some (.fetching given) := by
    rw [page.allNFTs_serve]
    exact hf
  obtain ⟨docs', hserved, hdocs⟩ := ProfilePage.served_serve docs hf
  obtain rfl := hdocs hfree
  obtain ⟨hresponse, -⟩ := ProfilePage.answer_of_fetching hserve hserved
  unfold finish wake
  simp only [Loader.step]
  split <;> exact hresponse

/-- The call has gone on as its body says on what it has read. -/
theorem ProfilePage.Sound.calls_finish (h : page.Sound) (docs : List (String × Fields))
    {given : Option ℕ} (hf : page.allNFTs.calls f = some (.fetching given))
    (hfree : page.served f = none) :
    (page.finish docs f).allNFTs.calls f =
      some (.ended ((ProfilePage.fetch page.uid).body (givenTo f) (.ok docs))) := by
  obtain ⟨x, hx⟩ := ProfilePage.ended_finish docs hf
  obtain ⟨response, hresponse, hbody⟩ := ProfilePage.exists_response (h.finish docs f).calls hx
  rw [ProfilePage.responses_finish hf hfree] at hresponse
  obtain rfl := Option.some.inj hresponse
  have huid : (page.finish docs f).uid = page.uid := (h.since_finish docs f).uid
  rw [huid] at hbody
  rw [hbody]
  exact hx

/-- `_refresh`. -/
def ProfilePage.refresh (page : ProfilePage) : ProfilePage :=
  { page with allNFTs := page.allNFTs.step (ProfilePage.fetch page.uid) .refresh }

/-- The call of a refresh shows what it has read, whatever the calls before it do. -/
theorem ProfilePage.Sound.snapshot_refresh (h : page.Sound) {v : Option AllNFT}
    (hv : ProfilePage.tried page.uid (.ok docs) = .ok v) :
    (page.refresh.finish docs (page.allNFTs.current + 1)).snapshot = some (.ok v) := by
  have hnext : page.Next docs (fun _ _ => False) page.refresh :=
    .loaded .refresh (fun _ _ he => by cases he) fun _ _ he => by cases he
  have hsound := h.next hnext
  have hf : page.refresh.allNFTs.calls (page.allNFTs.current + 1) =
    some (.fetching (some page.allNFTs.current)) := Function.update_self _ _ _
  have hfree : page.refresh.served (page.allNFTs.current + 1) = none := by
    cases hserved : page.served (page.allNFTs.current + 1) with
    | none => exact hserved
    | some docs' => exact absurd (h.served _ _ hserved) (Nat.not_succ_le_self _)
  have hx := hsound.calls_finish docs hf hfree
  simp only [refresh, givenTo, ProfilePage.fetch, ProfilePage.refreshNFTs, hv] at hx
  rw [(hsound.finish docs _).snapshot_eq_some, Loader.Shows, page.refresh.current_finish]
  exact .returned _ _ (Loader.futures_eq_some.mpr hx)

/-- The first call of a page shows what `initNFTs` makes of what it has read. -/
theorem ProfilePage.snapshot_initState (uid : String) (docs : List (String × Fields)) :
    ((ProfilePage.initState uid).finish docs 0).snapshot = some (initNFTs uid (.ok docs)) := by
  have hsound := ProfilePage.sound_initState uid
  have hf : (ProfilePage.initState uid).allNFTs.calls 0 = some (.fetching none) := rfl
  have hx := hsound.calls_finish docs hf rfl
  rw [(hsound.finish docs 0).snapshot_eq_some, Loader.Shows, ProfilePage.current_finish]
  exact .returned _ _ (Loader.futures_eq_some.mpr hx)

end

/-! ## In the apps -/

section

variable {c : Client} {k : ℕ} {page : ProfilePage}

theorem Client.profiles_load (hk : c.profiles k = some page) (e : LoaderEvent) :
    (c.load k e).profiles k =
      some { page with allNFTs := page.allNFTs.step (ProfilePage.fetch page.uid) e } := by
  simp only [load, hk]
  exact Function.update_self _ _ _

theorem Client.profiles_serve (hk : c.profiles k = some page) (b : Backend) (f : ℕ) :
    (c.serve b k f).profiles k = some (page.serve b.db.users.docs f) := by
  cases hcall : page.allNFTs.calls f with
  | none =>
    simp only [serve, ProfilePage.serve, hk, hcall]
  | some call =>
    cases call with
    | fetching given =>
      cases hserved : page.served f with
      | none =>
        simp only [serve, ProfilePage.serve, hk, hcall, hserved]
        exact Function.update_self _ _ _
      | some _ => simp only [serve, ProfilePage.serve, hk, hcall, hserved]
    | _ => simp only [serve, ProfilePage.serve, hk, hcall]

theorem Client.profiles_answer (hk : c.profiles k = some page) (f : ℕ) :
    (c.answer k f).profiles k = some (page.answer f) := by
  unfold answer ProfilePage.answer
  rw [hk, Option.bind_some]
  cases page.served f with
  | none => exact hk
  | some docs => exact profiles_load hk _

end

section

variable {s : Apps} {i k : ℕ} {page : ProfilePage}

theorem Apps.profile_finishing (hk : (s.clients i).profiles k = some page) (f : ℕ) :
    ((Machine.run Apps.step s (finishing i k f)).clients i).profiles k =
      some (page.finish s.users.docs f) := by
  have hclient : (Machine.run Apps.step s (finishing i k f)).clients i =
      (((s.clients i).serve s.backend k f).answer k f).load k (.wake f) := by
    simp only [finishing, Machine.run, List.foldl, Apps.step, Apps.clients_setClient, Client.step]
  rw [hclient]
  exact Client.profiles_load (Client.profiles_answer (Client.profiles_serve hk s.backend f) f) _

theorem Apps.admin_finishing (s : Apps) (i k f : ℕ) :
    (Machine.run Apps.step s (finishing i k f)).admin = s.admin := rfl

/-- The calls up to `n` are finished one after the other. -/
def finishingAll (i k : ℕ) : ℕ → List AppsEvent
  | 0 => []
  | n + 1 => finishingAll i k n ++ finishing i k n

theorem Apps.profile_finishingAll (h : page.Sound) (hk : (s.clients i).profiles k = some page)
    (n : ℕ) : ∃ page', ((Machine.run Apps.step s (finishingAll i k n)).clients i).profiles k =
      some page' ∧ page'.Sound ∧ page'.allNFTs.current = page.allNFTs.current ∧
      ∀ f < n, f ≤ page.allNFTs.current → ∃ x, page'.allNFTs.calls f = some (.ended x) := by
  induction n with
  | zero => exact ⟨page, hk, h, rfl, fun f hf => absurd hf (Nat.not_lt_zero f)⟩
  | succ n ih =>
    obtain ⟨page', hk', hsound', hcurrent, hended⟩ := ih
    rw [finishingAll, Machine.run_append]
    refine ⟨_, Apps.profile_finishing hk' n, hsound'.finish _ n,
      (page'.current_finish _ n).trans hcurrent, fun f hf hle => ?_⟩
    rcases Nat.lt_succ_iff_lt_or_eq.mp hf with hlt | rfl
    · obtain ⟨x, hx⟩ := hended f hlt hle
      exact ⟨x, (hsound'.since_finish _ n).ended f x hx⟩
    · obtain ⟨call, hcall⟩ := hsound'.started f (hcurrent.symm ▸ hle)
      exact ProfilePage.ended_finish _ hcall

theorem Apps.admin_finishingAll (s : Apps) (i k n : ℕ) :
    (Machine.run Apps.step s (finishingAll i k n)).admin = s.admin := by
  induction n with
  | zero => rfl
  | succ n ih =>
    rw [finishingAll, Machine.run_append]
    exact (Apps.admin_finishing _ i k n).trans ih

end

section

variable {users : Users} {accounts : List Account} {accepts : String → String → Bool}
  {currentUsers : ℕ → Option String} {es : List AppsEvent} {s : Apps} {i k : ℕ}

/-- **No page waits for ever.** In every state, a page that was opened shows something once its own
calls are answered. -/
theorem pages_can_load
    (hs : s = Machine.run Apps.step (Apps.start users accounts accepts currentUsers) es)
    {page : ProfilePage} (hk : (s.clients i).profiles k = some page) :
    ∃ s' page' r, s' = Machine.run Apps.step s (finishingAll i k (page.allNFTs.current + 1)) ∧
      (s'.clients i).profiles k = some page' ∧ page'.snapshot = some r ∧ s'.admin = s.admin := by
  have hsound : page.Sound := (hs ▸ Apps.loads_run Apps.loads_start es i).sound k page hk
  obtain ⟨page', hk', hsound', hcurrent, hended⟩ :=
    Apps.profile_finishingAll hsound hk (page.allNFTs.current + 1)
  have hall : ∀ f ≤ page'.allNFTs.current, ∃ x, page'.allNFTs.calls f = some (.ended x) := by
    intro f hf
    rw [hcurrent] at hf
    exact hended f (Nat.lt_succ_of_le hf) hf
  obtain ⟨r, hr⟩ := ProfilePage.exists_latest hsound'.calls hall
  exact ⟨_, page', r, rfl, hk', hsound'.snapshot_eq_some.mpr (hr.shows hsound'.calls hall),
    s.admin_finishingAll i k _⟩

/-- Ann has signed in and refreshed; her first call is still out, and the second has failed. -/
def hanging : Apps :=
  Machine.run Apps.step annsDevices
    [.client 0 (.type .email "ann@mail.com"), .client 0 (.press 0), .client 0 (.signIn 0 "ann"),
      .client 0 .refresh, .client 0 (.offline 1 1 "offline")]

theorem pages_can_load_hanging :
    ∃ s' page' r, s' = Machine.run Apps.step hanging (finishingAll 0 1 2) ∧
      (s'.clients 0).profiles 1 = some page' ∧ page'.snapshot = some r ∧ s'.admin = hanging.admin := by
  have hpage : (hanging.clients 0).profiles 1 = some _ := rfl
  exact pages_can_load rfl hpage

theorem Apps.backed_run
    (hs : s = Machine.run Apps.step (Apps.start users accounts accepts currentUsers) es) :
    ∀ i, (s.clients i).Loads ∧ (s.clients i).Backed := by
  intro i
  rw [hs]
  exact Apps.run_clients (I := fun c => c.Loads ∧ c.Backed)
    (fun c b a h => ⟨h.1.step b a, h.2.step h.1 b a⟩)
    ⟨Client.loads_start _, Client.backed_start _⟩ es

/-- **A refresh brings a page up to date.** In every state, the page on top shows the store after a
refresh, whatever calls are still out. -/
theorem refreshes_bring_up_to_date
    (hwell : ∀ uid doc, users.get uid = some doc → WellFormed doc)
    (hs : s = Machine.run Apps.step (Apps.start users accounts accepts currentUsers) es)
    {uid : String} (htop : (s.clients i).nav.top = some ⟨k, .profile uid⟩) :
    ∃ f s' page', s' = Machine.run Apps.step s (refreshing i k f) ∧
      (s'.clients i).profiles k = some page' ∧
      page'.snapshot = some (s.users.allNFTs uid) ∧ s'.admin = s.admin := by
  obtain ⟨hloads, hbacked⟩ := Apps.backed_run hs i
  obtain ⟨page, hk, rfl⟩ := hbacked _ (Navigator.mem_mounted_of_top htop) uid rfl
  have hsound := hloads.sound k page hk
  obtain ⟨v, hv⟩ := (hs ▸ Apps.allStore_run hwell es : AllStore ShowsTexts s.admin.db).allNFTs page.uid
  have hrefresh : s.step (.client i .refresh) =
      s.setClient i (s.backend, (s.clients i).load k .refresh) := by
    simp only [Apps.step, Client.step, htop]
  have hk' : ((s.step (.client i .refresh)).clients i).profiles k = some page.refresh := by
    rw [hrefresh, Apps.clients_setClient]
    exact Client.profiles_load hk .refresh
  have hadmin : (s.step (.client i .refresh)).admin = s.admin := by
    rw [hrefresh]
    rfl
  have hfinish := Apps.profile_finishing hk' (page.allNFTs.current + 1)
  have hrun : Machine.run Apps.step s (refreshing i k (page.allNFTs.current + 1)) =
    Machine.run Apps.step (s.step (.client i .refresh)) (finishing i k (page.allNFTs.current + 1)) :=
      Machine.run_cons _ s _ _
  rw [Apps.users, hadmin] at hfinish
  rw [← hrun] at hfinish
  have hadmin' := (Apps.admin_finishing (s.step (.client i .refresh)) i k
    (page.allNFTs.current + 1)).trans hadmin
  rw [← hrun] at hadmin'
  have htried := (ProfilePage.tried_docs page.uid s.users).trans hv
  have hshows := (hsound.snapshot_refresh htried).trans (congrArg some hv.symm)
  exact ⟨page.allNFTs.current + 1, _, _, rfl, hfinish, hshows, hadmin'⟩

end

theorem refreshes_bring_up_to_date_hanging :
    ∃ f s' page', s' = Machine.run Apps.step hanging (refreshing 0 1 f) ∧
      (s'.clients 0).profiles 1 = some page' ∧
      page'.snapshot = some (hanging.users.allNFTs "ann") ∧ s'.admin = hanging.admin :=
  refreshes_bring_up_to_date wellFormed_seaUsers rfl rfl

end FlutterThree
