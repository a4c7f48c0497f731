import FlutterThree.Presses
import FlutterThree.Privileges

/-!
# The NFT grid and the store

One session that browses users and their NFTs, with nobody else writing; its user list is loaded
before it has written anything. An `NftPage` shows the list the `MainPage` below handed over, or what
a refresh after the return of an edit page was answered; that list appears some time after the
answer. All of them are copies, and a copy is current (`Users.Current`) when it is the list that is
stored once the session's own updates have got through. `Coherent` lists the stacks of pages there
are, and which copy on them is current.

`grid_agrees_with_store`: the grid agrees with the store in every run in which the three ways of
keeping a copy that is out of date are not taken (`Careful`).
-/

namespace FlutterThree

open Dart Firestore Flutter

/-! ## Copies of the stored list -/

/-- What a refresh reads depends on the document of its user alone. -/
theorem refreshNFTs_docs (uid : String) (users : Users) :
    refreshNFTs uid users.docs =
      match users.get uid with
      | some doc =>
        match NftUser.fromJson doc uid with
        | .ok userDetails => .ok (some userDetails)
        | .error _ => .error .typeError
      | none => .ok none := by
  unfold refreshNFTs
  cases hfind : users.docs.find? fun element => element.1 = uid with
  | none =>
    have hnone : users.get uid = none := by
      cases hdoc : users.get uid with
      | none => rfl
      | some doc =>
        have habsent := List.find?_eq_none.mp hfind (uid, doc) (Collection.mem_docs.mpr hdoc)
        exact absurd (decide_eq_true rfl) habsent
    rw [hnone]
  | some element =>
    have hid : element.1 = uid := by simpa using List.find?_some hfind
    have hdoc : users.get uid = some element.2 :=
      hid ▸ Collection.mem_docs.mp (List.mem_of_find?_eq_some hfind)
    rw [hdoc]
    dsimp only
    cases hu : NftUser.fromJson element.2 uid with
    | ok u => simp only [hid, hu]
    | error x => simp only [hid, hu]

/-- The list of `uid` in the collection. -/
def Users.Lists (users : Users) (uid : String) (nfts : List NftArt) : Prop :=
  ∃ doc u, users.get uid = some doc ∧ NftUser.fromJson doc uid = .ok u ∧ u.nfts = nfts

theorem Users.lists_of_refreshNFTs {users : Users} {uid : String} {u : NftUser}
    (h : refreshNFTs uid users.docs = .ok (some u)) : users.Lists uid u.nfts := by
  rw [refreshNFTs_docs] at h
  cases hdoc : users.get uid with
  | none =>
    rw [hdoc] at h
    cases h
  | some doc =>
    cases hu : NftUser.fromJson doc uid with
    | error x =>
      rw [hdoc] at h
      simp only [hu] at h
      cases h
    | ok u' =>
      rw [hdoc] at h
      simp only [hu] at h
      obtain rfl := Option.some.inj (Except.ok.inj h)
      exact ⟨doc, u', hdoc, hu, rfl⟩

/-- The list that is shown, or will be after the sleep. -/
def Snapshot.list {α : Type} : Snapshot (Option α) → Option α
  | .answered a => a
  | .done (.ok a) => a
  | _ => none

/-- An `NftPage` of `uid` has no list, or that of the collection. -/
def Users.Current (users : Users) (uid : String) (snap : Snapshot (Option (List NftArt))) : Prop :=
  ∀ nfts, snap.list = some nfts → users.Lists uid nfts

theorem Users.current_waiting (users : Users) (uid : String) : users.Current uid .waiting := by
  intro nfts h
  cases h

theorem Users.Current.of_get_eq {users users' : Users} {uid : String}
    {snap : Snapshot (Option (List NftArt))} (h : users.Current uid snap)
    (hget : users'.get uid = users.get uid) : users'.Current uid snap := by
  intro nfts hlist
  obtain ⟨doc, u, hdoc, hu, hnfts⟩ := h nfts hlist
  exact ⟨doc, u, hget.trans hdoc, hu, hnfts⟩

/-! ## Updates that are on their way -/

theorem Db.writes_run_updates {ps : List ℕ} {p : ℕ} (hp : p ∉ ps) (db : Db) :
    (Machine.run Db.step db (ps.map .update)).writes p = db.writes p := by
  induction ps generalizing db with
  | nil => rfl
  | cons q ps ih =>
    obtain ⟨hne, hps⟩ := not_or.mp (mt List.mem_cons.mpr hp)
    rw [List.map_cons, Machine.run_cons, ih hps]
    exact db.writes_update_of_ne hne

/-- What the updates on their way lead to depends on the documents and on these updates alone. -/
theorem Db.users_run_updates_congr {ps : List ℕ} {db db' : Db} (husers : db'.users = db.users)
    (hwrites : ∀ p ∈ ps, db'.writes p = db.writes p) :
    (Machine.run Db.step db' (ps.map .update)).users =
      (Machine.run Db.step db (ps.map .update)).users := by
  induction ps generalizing db db' with
  | nil => exact husers
  | cons q ps ih =>
    have hq := hwrites q List.mem_cons_self
    rw [List.map_cons, Machine.run_cons, Machine.run_cons]
    refine ih ?_ fun p hp => ?_
    · cases hw : db.writes q with
      | none => simp only [Db.step, hq, hw, husers]
      | some w => simp only [Db.step, hq, hw, husers]
    · by_cases hpq : p = q
      · rw [hpq, Db.writes_step_update, Db.writes_step_update]
      · rw [db'.writes_update_of_ne hpq, db.writes_update_of_ne hpq]
        exact hwrites p (List.mem_cons_of_mem q hp)

/-- The `update` that a press sends is laid over what the session reads. -/
theorem AdminApp.view_send {s : AdminApp} {k p : ℕ} {db : Db} (hp : p ∉ s.queue k)
    (husers : db.users = s.db.users) (hwrites : ∀ q, q ≠ p → db.writes q = s.db.writes q) :
    (s.send k p db).view k =
      match db.writes p with
      | some w => (s.view k).update w.uid (overwrite w.data)
      | none => s.view k := by
  have hview : (Machine.run Db.step db ((s.queue k).map .update)).users = s.view k :=
    Db.users_run_updates_congr husers fun q hq => hwrites q fun heq => hp (heq ▸ hq)
  cases hw : db.writes p with
  | none =>
    simp only [send, hw]
    exact hview
  | some w =>
    have hkeep := (Db.writes_run_updates hp db).trans hw
    simp only [view, send, hw, Option.isSome_some, if_true, Function.update_self, List.map_append,
      List.map_singleton, Machine.run_snoc]
    simp only [Db.step, hkeep, hview]
    rfl

/-! ## The stacks of pages -/

/-- The pages of the session, top first. The list of an `NftPage` is current unless a details page
above it has made a change. -/
inductive Coherent (users : Users) : List (Page AdminRoute) → Prop
  | empty : Coherent users []
  | login (i : ℕ) (text : String) : Coherent users [⟨i, .login text⟩]
  | main (i : ℕ) (user role : String) (list : Snapshot (List NftUser)) :
      Coherent users [⟨i, .main user role list⟩]
  | nft (i j : ℕ) (uid user role : String) (snap : Snapshot (Option (List NftArt)))
      (list : Snapshot (List NftUser)) (hcurrent : users.Current uid snap) :
      Coherent users [⟨i, .nft uid snap⟩, ⟨j, .main user role list⟩]
  | details (i j l : ℕ) (uid user role : String) (n : ℕ) (nft : NftArt) (isChange : Bool)
      (snap : Snapshot (Option (List NftArt))) (list : Snapshot (List NftUser))
      (hcurrent : isChange = true ∨ users.Current uid snap) :
      Coherent users [⟨i, .details uid n nft isChange⟩, ⟨j, .nft uid snap⟩, ⟨l, .main user role list⟩]
  | add (i j l : ℕ) (uid user role : String) (snap : Snapshot (Option (List NftArt)))
      (list : Snapshot (List NftUser)) (hcurrent : users.Current uid snap) :
      Coherent users [⟨i, .add uid⟩, ⟨j, .nft uid snap⟩, ⟨l, .main user role list⟩]

theorem Coherent.imp {users users' : Users} {stack : List (Page AdminRoute)} (h : Coherent users stack)
    (himp : ∀ i uid snap, ⟨i, .nft uid snap⟩ ∈ stack → users.Current uid snap →
      users'.Current uid snap) : Coherent users' stack := by
  cases h with
  | empty => exact .empty
  | login i text => exact .login i text
  | main i user role list => exact .main i user role list
  | nft i j uid user role snap list hcurrent =>
    exact .nft i j uid user role snap list (himp i uid snap (by simp) hcurrent)
  | details i j l uid user role n nft isChange snap list hcurrent =>
    exact .details i j l uid user role n nft isChange snap list
      (hcurrent.imp_right (himp j uid snap (by simp)))
  | add i j l uid user role snap list hcurrent =>
    exact .add i j l uid user role snap list (himp j uid snap (by simp) hcurrent)

/-- The page is of the same kind and for the same user. A current copy stays current, and a change
is not forgotten. -/
def AdminRoute.Becomes (users : Users) : AdminRoute → AdminRoute → Prop
  | .login _, .login _ => True
  | .main _ _ _, .main _ _ _ => True
  | .nft uid snap, .nft uid' snap' => uid' = uid ∧ (users.Current uid snap → users.Current uid snap')
  | .details uid _ _ isChange, .details uid' _ _ isChange' =>
    uid' = uid ∧ (isChange = true → isChange' = true)
  | .add uid, .add uid' => uid' = uid
  | _, _ => False

theorem AdminRoute.becomes_self (users : Users) (r : AdminRoute) : r.Becomes users r := by
  cases r with
  | login text => trivial
  | main user role list => trivial
  | nft uid snap => exact ⟨rfl, id⟩
  | details uid n nft isChange => exact ⟨rfl, id⟩
  | add uid => rfl

theorem AdminRoute.becomes_loaded (users : Users) (docs : List (String × Fields))
    (r : AdminRoute) : r.Becomes users (r.loaded docs) := by
  unfold loaded
  split
  · trivial
  · exact r.becomes_self users

/-- What is read is current. -/
theorem AdminRoute.becomes_responded (users : Users) (r : AdminRoute) :
    r.Becomes users (r.responded users.docs) := by
  unfold responded
  split
  · rename_i uid
    split
    · rename_i u hu
      refine ⟨rfl, fun _ nfts hlist => ?_⟩
      obtain rfl := Option.some.inj hlist
      exact Users.lists_of_refreshNFTs hu
    · refine ⟨rfl, fun _ nfts hlist => ?_⟩
      cases hlist
    · refine ⟨rfl, fun _ nfts hlist => ?_⟩
      cases hlist
  · exact r.becomes_self users

theorem AdminRoute.becomes_woken (users : Users) (r : AdminRoute) : r.Becomes users r.woken := by
  unfold woken
  split
  · exact ⟨rfl, id⟩
  · exact r.becomes_self users

theorem AdminRoute.becomes_failed (users : Users) (text : String) (r : AdminRoute) :
    r.Becomes users (r.failed text) := by
  unfold failed
  split
  · trivial
  · trivial
  · refine ⟨rfl, fun _ nfts hlist => ?_⟩
    cases hlist
  · exact r.becomes_self users

theorem AdminRoute.becomes_changed (users : Users) (texts : NftArt) (button : NftButton)
    (r : AdminRoute) : r.Becomes users (r.changed texts button) := by
  cases r with
  | details uid n nft isChange =>
    cases button with
    | add => exact ⟨rfl, fun _ => rfl⟩
    | edit i => exact ⟨rfl, fun _ => rfl⟩
    | delete i => exact ⟨rfl, fun _ => rfl⟩
  | _ => exact AdminRoute.becomes_self users _

/-- Pages that change their states. -/
theorem Coherent.map {users : Users} {stack : List (Page AdminRoute)} (h : Coherent users stack)
    {g : Page AdminRoute → AdminRoute} (hg : ∀ p ∈ stack, p.route.Becomes users (g p)) :
    Coherent users (stack.map fun p => ⟨p.id, g p⟩) := by
  have hmain : ∀ {i user role list}, ⟨i, .main user role list⟩ ∈ stack →
      ∃ user' role' list', g ⟨i, .main user role list⟩ = .main user' role' list' := by
    intro i user role list hmem
    match g ⟨i, .main user role list⟩, hg _ hmem with
    | .main user' role' list', _ => exact ⟨user', role', list', rfl⟩
  have hnft : ∀ {i uid snap}, ⟨i, .nft uid snap⟩ ∈ stack → ∃ snap',
      g ⟨i, .nft uid snap⟩ = .nft uid snap' ∧ (users.Current uid snap → users.Current uid snap') := by
    intro i uid snap hmem
    match g ⟨i, .nft uid snap⟩, hg _ hmem with
    | .nft _ snap', ⟨rfl, hcurrent⟩ => exact ⟨snap', rfl, hcurrent⟩
  cases h with
  | empty => exact .empty
  | login i text =>
    rw [List.map_singleton]
    match g ⟨i, .login text⟩, hg _ (by simp) with
    | .login text', _ => exact .login i text'
  | main i user role list =>
    obtain ⟨user', role', list', hg'⟩ := @hmain i user role list (by simp)
    rw [List.map_singleton, hg']
    exact .main i user' role' list'
  | nft i j uid user role snap list hcurrent =>
    obtain ⟨snap', hsnap, hcurrent'⟩ := @hnft i uid snap (by simp)
    obtain ⟨user', role', list', hg'⟩ := @hmain j user role list (by simp)
    rw [List.map_cons, List.map_singleton, hsnap, hg']
    exact .nft i j uid user' role' snap' list' (hcurrent' hcurrent)
  | details i j l uid user role n nft isChange snap list hcurrent =>
    obtain ⟨snap', hsnap, hcurrent'⟩ := @hnft j uid snap (by simp)
    obtain ⟨user', role', list', hg'⟩ := @hmain l user role list (by simp)
    rw [List.map_cons, List.map_cons, List.map_singleton, hsnap, hg']
    match g ⟨i, .details uid n nft isChange⟩, hg ⟨i, .details uid n nft isChange⟩ (by simp) with
    | .details _ n' nft' isChange', ⟨rfl, hchange⟩ =>
      exact .details i j l uid user' role' n' nft' isChange' snap' list'
        (hcurrent.imp hchange hcurrent')
  | add i j l uid user role snap list hcurrent =>
    obtain ⟨snap', hsnap, hcurrent'⟩ := @hnft j uid snap (by simp)
    obtain ⟨user', role', list', hg'⟩ := @hmain l user role list (by simp)
    rw [List.map_cons, List.map_cons, List.map_singleton, hsnap, hg']
    match g ⟨i, .add uid⟩, hg ⟨i, .add uid⟩ (by simp) with
    | .add _, rfl => exact .add i j l uid user' role' snap' list' (hcurrent' hcurrent)

theorem Coherent.modifyAt {users : Users} {n : Navigator AdminRoute} (h : Coherent users n.stack) {i : ℕ}
    {f : AdminRoute → AdminRoute}
    (hf : ∀ p ∈ n.stack, p.id = i → p.route.Becomes users (f p.route)) :
    Coherent users (n.modifyAt i f).stack := by
  rw [Navigator.stack_modifyAt]
  refine h.map fun p hp => ?_
  split
  · rename_i hid
    exact hf p hp hid
  · exact p.route.becomes_self users

/-! ## Opening pages -/

theorem Coherent.push_nft {users : Users} {n : Navigator AdminRoute} (h : Coherent users n.stack) {i : ℕ}
    {user role : String} {list : Snapshot (List NftUser)}
    (htop : n.top = some ⟨i, .main user role list⟩) {uid : String}
    {snap : Snapshot (Option (List NftArt))} (hcurrent : users.Current uid snap) :
    Coherent users (n.push (.nft uid snap)).stack := by
  rw [Navigator.stack_push]
  rw [Navigator.top] at htop
  generalize n.stack = stack at h htop
  cases h with
  | main i' user' role' list' => exact .nft _ i' uid user' role' snap list' hcurrent
  | _ => cases htop

theorem Coherent.push_details {users : Users} {n : Navigator AdminRoute} (h : Coherent users n.stack) {i : ℕ}
    {uid : String} {snap : Snapshot (Option (List NftArt))}
    (htop : n.top = some ⟨i, .nft uid snap⟩) (k : ℕ) (nft : NftArt) :
    Coherent users (n.push (.details uid k nft false)).stack := by
  rw [Navigator.stack_push]
  rw [Navigator.top] at htop
  generalize n.stack = stack at h htop
  cases h with
  | nft i' j uid' user role snap' list hcurrent =>
    cases htop
    exact .details _ i j uid user role k nft false snap list (.inr hcurrent)
  | _ => cases htop

theorem Coherent.push_add {users : Users} {n : Navigator AdminRoute} (h : Coherent users n.stack) {i : ℕ}
    {uid : String} {snap : Snapshot (Option (List NftArt))}
    (htop : n.top = some ⟨i, .nft uid snap⟩) : Coherent users (n.push (.add uid)).stack := by
  rw [Navigator.stack_push]
  rw [Navigator.top] at htop
  generalize n.stack = stack at h htop
  cases h with
  | nft i' j uid' user role snap' list hcurrent =>
    cases htop
    exact .add _ i j uid user role snap list hcurrent
  | _ => cases htop

/-! ## Going back -/

/-- A page pushed by an `NftPage` returns: with the result true the list below is asked for again. -/
theorem stack_popWith {n : Navigator AdminRoute} {i : ℕ} {r : AdminRoute} {below : Page AdminRoute}
    {rest : List (Page AdminRoute)} (hstack : n.stack = ⟨i, r⟩ :: below :: rest)
    (hedit : (∃ uid k nft isChange, r = .details uid k nft isChange) ∨ ∃ uid, r = .add uid)
    (result : Bool) :
    (popWith result n).stack =
      if result then (below :: rest).map fun p =>
        ⟨p.id, if p.id = below.id then p.route.refresh else p.route⟩
      else below :: rest := by
  have hpop : n.pop.stack = below :: rest := by
    rw [Navigator.stack_pop, hstack]
    rfl
  have heq : popWith result n =
      if result then n.pop.modifyAt below.id AdminRoute.refresh else n.pop := by
    unfold popWith
    rw [Navigator.top_of_stack hstack, Navigator.top_of_stack hpop]
    rcases hedit with ⟨uid, k, nft, isChange, rfl⟩ | ⟨uid, rfl⟩
    · rfl
    · rfl
  rw [heq]
  split
  · rw [Navigator.stack_modifyAt, hpop]
  · exact hpop

theorem popWith_false (n : Navigator AdminRoute) : popWith false n = n.pop := by
  unfold popWith
  split
  · rfl
  · rfl
  · rfl

/-- Only edit pages return a result. -/
theorem popWith_of_edits {n : Navigator AdminRoute}
    (h : ∀ page, n.top = some page → page.route.edits = none) (result : Bool) :
    popWith result n = n.pop := by
  unfold popWith
  split
  · rename_i htop _
    cases h _ htop
  · rename_i htop _
    cases h _ htop
  · rfl

/-- Whatever was shown, after the result true no list that is shown is out of date. -/
theorem Coherent.popWith_true {users : Users} {n : Navigator AdminRoute} (h : Coherent users n.stack)
    (users' : Users) : Coherent users' (popWith true n).stack := by
  generalize hstack : n.stack = stack at h
  have hpop : (∀ page ∈ stack.head?, page.route.edits = none) →
      (popWith true n).stack = stack.drop 1 := fun htop => by
    rw [popWith_of_edits (fun page hpage => htop page (hstack ▸ hpage)), Navigator.stack_pop, hstack]
  cases h with
  | empty =>
    rw [hpop (by simp)]
    exact .empty
  | login i text =>
    rw [hpop (by simp [AdminRoute.edits])]
    exact .empty
  | main i user role list =>
    rw [hpop (by simp [AdminRoute.edits])]
    exact .empty
  | nft i j uid user role snap list hcurrent =>
    rw [hpop (by simp [AdminRoute.edits])]
    exact .main j user role list
  | details i j l uid user role k nft isChange snap list hcurrent =>
    rw [stack_popWith hstack (.inl ⟨_, _, _, _, rfl⟩)]
    have hmain : (if l = j then (AdminRoute.main user role list).refresh
      else .main user role list) = .main user role list := ite_self _
    simp only [if_pos, List.map_cons, List.map_nil, hmain]
    exact .nft j l uid user role .waiting list (users'.current_waiting uid)
  | add i j l uid user role snap list hcurrent =>
    rw [stack_popWith hstack (.inr ⟨_, rfl⟩)]
    have hmain : (if l = j then (AdminRoute.main user role list).refresh
      else .main user role list) = .main user role list := ite_self _
    simp only [if_pos, List.map_cons, List.map_nil, hmain]
    exact .nft j l uid user role .waiting list (users'.current_waiting uid)

/-- Without a result, a details page that made a change leaves the list below as it is. -/
theorem Coherent.pop {users : Users} {n : Navigator AdminRoute} (h : Coherent users n.stack)
    (hchange : ∀ i j uid k nft snap rest,
      n.stack = ⟨i, .details uid k nft true⟩ :: ⟨j, .nft uid snap⟩ :: rest → users.Current uid snap) :
    Coherent users n.pop.stack := by
  rw [Navigator.stack_pop]
  generalize n.stack = stack at h hchange
  cases h with
  | empty => exact .empty
  | login i text => exact .empty
  | main i user role list => exact .empty
  | nft i j uid user role snap list hcurrent => exact .main j user role list
  | details i j l uid user role k nft isChange snap list hcurrent =>
    refine .nft j l uid user role snap list (hcurrent.elim (fun h => ?_) id)
    subst h
    exact hchange i j uid k nft snap _ rfl
  | add i j l uid user role snap list hcurrent => exact .nft j l uid user role snap list hcurrent

/-- The app-bar arrows report the changes that were made. -/
theorem Coherent.pressArrow {users : Users} {n : Navigator AdminRoute} (h : Coherent users n.stack) :
    Coherent users (pressArrow n).stack := by
  unfold FlutterThree.pressArrow
  split
  · rename_i i uid snap htop
    refine h.pop fun i' j uid' k nft snap' rest hstack => ?_
    rw [Navigator.top_of_stack hstack] at htop
    cases htop
  · rename_i i uid k nft isChange htop
    cases isChange with
    | true => exact h.popWith_true users
    | false =>
      rw [popWith_false]
      refine h.pop fun i' j uid' k' nft' snap rest hstack => ?_
      rw [Navigator.top_of_stack hstack] at htop
      cases htop
  · exact h.popWith_true users
  · exact h

/-! ## Browsing -/

/-- Session `k` shows one of the stacks of `Coherent`, its jobs are presses on edit pages, and the
updates in its queue are pending. -/
structure AdminApp.Browsing (k : ℕ) (s : AdminApp) : Prop where
  coherent : Coherent (s.view k) (s.sessions k).stack
  jobs : ∀ p j, s.jobs p = some j → ∃ b, j = .pressed b ∧ b.session = k
  presses : s.PressesSound
  queued : ∀ p ∈ s.queue k, (s.db.writes p).isSome
  nodup : (s.queue k).Nodup

/-- The event belongs to browsing users and their NFTs in session `k`. -/
def AdminEvent.Browses (k : ℕ) : AdminEvent → Prop
  | .load k' _ => k' = k
  | .respond k' _ => k' = k
  | .wake k' _ => k' = k
  | .offline k' _ _ => k' = k
  | .openUser k' _ => k' = k
  | .openNft k' _ => k' = k
  | .openAdd k' => k' = k
  | .arrow k' => k' = k
  | .back k' => k' = k
  | .settle k' => k' = k
  | .pressAdd k' _ => k' = k
  | .pressEdit k' _ => k' = k
  | .pressDeleteNft k' _ => k' = k
  | .get _ _ => True
  | .update _ => True
  | _ => False

/-- The updates of session `k` reach the store in the order in which they were sent. -/
def InOrder (k : ℕ) (s : AdminApp) (e : AdminEvent) : Prop :=
  ∀ p w, e = .update p → s.db.writes p = some w → (s.queue k).head? = some p

/-- The step takes none of the three ways of keeping a list that is out of date. -/
structure Careful (k : ℕ) (s : AdminApp) (e : AdminEvent) : Prop where
  /-- The list that the `MainPage` hands over is current. -/
  opens : ∀ i t, e = .openUser k i → s.tile k i = some t →
    (s.view k).Lists t.item.id t.item.nfts
  /-- The system's back does not leave a details page that made a change, unless the list below is
  current nonetheless. -/
  backs : ∀ i j uid n nft snap rest, e = .back k →
    (s.sessions k).stack = ⟨i, .details uid n nft true⟩ :: ⟨j, .nft uid snap⟩ :: rest →
    (s.view k).Current uid snap
  /-- A handler goes on while its page is on top, or no list of its user that is on the stack differs
  from the one it writes. -/
  gets : ∀ p texts b, e = .get p texts → s.jobs p = some (.pressed b) →
    (s.sessions k).top.map Page.id = some b.page ∨
      ∀ page ∈ (s.sessions k).stack, ∀ snap, page.route = .nft b.uid snap → ∀ data,
        (b.button.handler texts).onPressed (s.db.users.get b.uid) = .ok data →
          Users.Current ((s.view k).update b.uid (overwrite data)) b.uid snap

theorem AdminApp.Browsing.onSession {k : ℕ} {s : AdminApp} (h : s.Browsing k)
    {f : Navigator AdminRoute → Navigator AdminRoute}
    (hcoherent : Coherent (s.view k) (f (s.sessions k)).stack)
    (hpresses : (s.onSession k f).PressesSound) : (s.onSession k f).Browsing k := by
  refine ⟨?_, h.jobs, hpresses, h.queued, h.nodup⟩
  rw [sessions_onSession_self]
  exact hcoherent

theorem AdminApp.Browsing.begin {k : ℕ} {s : AdminApp} (h : s.Browsing k) {b : NftPress}
    (hsession : b.session = k) {p : ℕ} (hpresses : (s.begin p (.pressed b)).PressesSound) :
    (s.begin p (.pressed b)).Browsing k := by
  unfold AdminApp.begin at hpresses ⊢
  split
  · rename_i hfree
    rw [if_pos hfree] at hpresses
    refine ⟨h.coherent, fun q j hj => ?_, hpresses, h.queued, h.nodup⟩
    rcases jobs_setJob hj with hj | ⟨-, hj⟩
    · exact h.jobs q j hj
    · exact ⟨b, (Option.some.inj hj).symm, hsession⟩
  · exact h

/-- The handler of a press has sent an `update` with `data`: the page it is on top of asks for the
list again, or will. -/
theorem AdminApp.Browsing.coherent_finish {k : ℕ} {s : AdminApp} (h : s.Browsing k) {b : NftPress}
    (hb : b.Linked (s.sessions k)) (texts : NftArt) {data : Fields} {users : Users}
    (husers : users = (s.view k).update b.uid (overwrite data))
    (hcase : (s.sessions k).top.map Page.id = some b.page ∨
      ∀ page ∈ (s.sessions k).stack, ∀ snap, page.route = .nft b.uid snap →
        users.Current b.uid snap) :
    Coherent users (b.button.finish b.page texts (s.sessions k)).stack := by
  rcases hcase with htop | hsame
  · obtain ⟨⟨i, r⟩, htop, hpage⟩ := Option.map_eq_some_iff.mp htop
    have hmem := Navigator.mem_mounted_of_top htop
    have hon := hb.on _ (List.mem_of_mem_head? htop) hpage
    rw [← hpage]
    cases r with
    | add uid =>
      rw [NftButton.eq_add (Prod.mk.inj (Option.some.inj hon)).2.symm]
      have hfind := Navigator.find_of_mem hmem
      simp only [NftButton.finish, hfind, Option.isSome_some, if_true]
      exact h.coherent.popWith_true users
    | details uid n nft isChange =>
      have hbutton := NftButton.eq_edit_or_delete (Prod.mk.inj (Option.some.inj hon)).2.symm
      have hfinish : b.button.finish i texts (s.sessions k) =
          (s.sessions k).modifyAt i (AdminRoute.changed texts b.button) := by
        rcases hbutton with hb | hb
        · rw [hb]
          rfl
        · rw [hb]
          rfl
      obtain ⟨nft', hchanged⟩ : ∃ nft', (AdminRoute.details uid n nft isChange).changed texts
          b.button = .details uid n nft' true := by
        rcases hbutton with hb | hb
        · exact ⟨texts, by rw [hb]; rfl⟩
        · exact ⟨nft, by rw [hb]; rfl⟩
      have hcoherent := h.coherent
      rw [hfinish, Navigator.stack_modifyAt]
      rw [Navigator.top] at htop
      generalize (s.sessions k).stack = stack at htop hcoherent
      cases hcoherent with
      | details i' j l uid' user role n' nft'' isChange' snap list hcurrent =>
        cases htop
        have hnft : (if j = i then (AdminRoute.nft uid snap).changed texts b.button
          else .nft uid snap) = .nft uid snap := ite_self _
        have hmain : (if l = i then (AdminRoute.main user role list).changed texts b.button
          else .main user role list) = .main user role list := ite_self _
        simp only [List.map_cons, List.map_nil, if_pos, hchanged, hnft, hmain]
        exact .details i j l uid user role n nft' true snap list (.inl rfl)
      | _ => cases htop
    | _ => cases hon
  · have hcoherent : Coherent users (s.sessions k).stack := by
      refine h.coherent.imp fun i uid snap hmem hcurrent => ?_
      by_cases huid : uid = b.uid
      · subst huid
        exact hsame _ hmem snap rfl
      · refine hcurrent.of_get_eq ?_
        rw [husers, Collection.get_update, if_neg huid]
    unfold NftButton.finish
    split
    · split
      · exact hcoherent.popWith_true users
      · exact hcoherent
    · exact hcoherent.modifyAt fun page _ _ =>
        AdminRoute.becomes_changed users texts b.button page.route

/-- The queue after a `get`. -/
theorem AdminApp.Browsing.queue_send {k : ℕ} {s : AdminApp} (h : s.Browsing k) {p : ℕ}
    (hp : p ∉ s.queue k) {db : Db} (hwrites : ∀ q, q ≠ p → db.writes q = s.db.writes q) :
    (∀ q ∈ (s.send k p db).queue k, (db.writes q).isSome) ∧ ((s.send k p db).queue k).Nodup := by
  have hold : ∀ q ∈ s.queue k, (db.writes q).isSome := fun q hq => by
    rw [hwrites q fun heq => hp (heq ▸ hq)]
    exact h.queued q hq
  unfold AdminApp.send
  dsimp only
  split
  · rename_i hbegun
    rw [Function.update_self]
    refine ⟨fun q hq => ?_, List.nodup_append.mpr ⟨h.nodup, List.nodup_singleton p, ?_⟩⟩
    · rcases List.mem_append.mp hq with hq | hq
      · exact hold q hq
      · rw [List.mem_singleton.mp hq]
        exact hbegun
    · rintro q hq r hr rfl
      exact hp (List.mem_singleton.mp hr ▸ hq)
  · exact ⟨hold, h.nodup⟩

theorem AdminApp.Browsing.answer {k : ℕ} {s : AdminApp} (h : s.Browsing k) {p : ℕ} {texts : NftArt}
    (hcareful : Careful k s (.get p texts)) : (s.answer p texts).Browsing k := by
  have hpresses := h.presses.answer p texts
  unfold AdminApp.answer at hpresses ⊢
  split at hpresses
  · rename_i c hc
    obtain ⟨b, hb, -⟩ := h.jobs p _ hc
    cases hb
  · rename_i b hb
    obtain ⟨b', hb', hsession⟩ := h.jobs p _ hb
    obtain rfl := Job.pressed.inj hb'
    have hlinked := hsession ▸ h.presses.linked p b hb
    have hfree := h.presses.free p b hb
    have hp : p ∉ s.queue k := fun hmem => by
      have hsome := h.queued p hmem
      rw [hfree] at hsome
      cases hsome
    have hgets := hcareful.gets p texts b rfl hb
    dsimp only at hpresses ⊢
    generalize hdb : s.db.step (.get p b.uid (b.button.handler texts)) = db at hpresses ⊢
    have husers : db.users = s.db.users := hdb ▸ Db.users_step_get s.db p b.uid _
    have hwrites : ∀ q, q ≠ p → db.writes q = s.db.writes q := fun q hq =>
      hdb ▸ s.db.writes_get_of_ne hq b.uid _
    have hview := AdminApp.view_send hp husers hwrites
    obtain ⟨hqueued, hnodup⟩ := h.queue_send hp hwrites
    rw [hsession] at hpresses ⊢
    refine ⟨?_, fun q j hj => ?_, hpresses, hqueued, hnodup⟩
    · rw [sessions_onSession_self]
      change Coherent ((s.send k p db).view k)
        (if (db.writes p).isSome then b.button.finish b.page texts (s.sessions k)
          else s.sessions k).stack
      cases hw : db.writes p with
      | none =>
        rw [hw] at hview
        rw [hview]
        exact h.coherent
      | some w =>
        rw [hw] at hview
        rcases Db.writes_step (hdb ▸ hw) with hold | ⟨-, hget, hseen⟩
        · cases hfree.symm.trans hold
        · obtain ⟨-, huid, hhandler⟩ := Event.get.inj hget
          have hdata : (b.button.handler texts).onPressed (s.db.users.get b.uid) = .ok w.data := by
            rw [hhandler, huid, ← hseen]
            exact w.computed
          have hview' : (s.send k p db).view k = (s.view k).update b.uid (overwrite w.data) := by
            rw [hview, huid]
          refine h.coherent_finish hlinked texts hview' (hgets.imp_right fun hsame => ?_)
          intro page hmem snap hroute
          have hcurrent := hsame page hmem snap hroute w.data hdata
          rw [hview']
          exact hcurrent
    · rcases jobs_setJob hj with hj | ⟨-, hj⟩
      · exact h.jobs q j hj
      · cases hj
  · exact h

/-- The first update in the queue gets through. -/
theorem AdminApp.Browsing.view_write {k : ℕ} {s : AdminApp} (h : s.Browsing k) {p : ℕ}
    (horder : InOrder k s (.update p)) :
    (Machine.run Db.step (s.db.step (.update p)) (((s.queue k).erase p).map .update)).users =
      s.view k := by
  cases hw : s.db.writes p with
  | none =>
    have hp : p ∉ s.queue k := fun hmem => by
      have hsome := h.queued p hmem
      rw [hw] at hsome
      cases hsome
    rw [List.erase_of_not_mem hp]
    simp only [Db.step, hw]
    rfl
  | some w =>
    obtain ⟨ps, hqueue⟩ : ∃ ps, s.queue k = p :: ps := List.head?_eq_some_iff.mp (horder p w rfl hw)
    rw [hqueue, List.erase_cons_head, AdminApp.view, hqueue]
    rfl

theorem AdminApp.Browsing.write {k : ℕ} {s : AdminApp} (h : s.Browsing k) {p : ℕ}
    (horder : InOrder k s (.update p)) : (s.write p).Browsing k := by
  have hpresses := h.presses.write p
  have hview := h.view_write horder
  unfold AdminApp.write at hpresses ⊢
  split at hpresses
  · rename_i c hc
    obtain ⟨b, hb, -⟩ := h.jobs p _ hc
    cases hb
  · refine ⟨?_, h.jobs, hpresses, fun q hq => ?_, h.nodup.erase p⟩
    · change Coherent (Machine.run Db.step (s.db.step (.update p))
        (((s.queue k).erase p).map .update)).users _
      rw [hview]
      exact h.coherent
    · obtain ⟨hne, hq⟩ := h.nodup.mem_erase_iff.mp hq
      change ((s.db.step (.update p)).writes q).isSome
      rw [s.db.writes_update_of_ne hne]
      exact h.queued q hq

theorem AdminApp.Browsing.modifyAt {k : ℕ} {s : AdminApp} (h : s.Browsing k) (page : ℕ)
    {f : AdminRoute → AdminRoute} (hf : ∀ r : AdminRoute, r.Becomes (s.view k) (f r))
    (hpresses : (s.onSession k (·.modifyAt page f)).PressesSound) :
    (s.onSession k (·.modifyAt page f)).Browsing k :=
  h.onSession (h.coherent.modifyAt fun q _ _ => hf q.route) hpresses

theorem AdminApp.Browsing.step {k : ℕ} {s : AdminApp} (h : s.Browsing k) {e : AdminEvent}
    (he : e.Browses k) (horder : InOrder k s e) (hcareful : Careful k s e) :
    (s.step e).Browsing k := by
  have hpresses := h.presses.step e
  cases e with
  | load k' page =>
    obtain rfl : k' = k := he
    exact h.modifyAt page (fun r => r.becomes_loaded _ _) hpresses
  | respond k' page =>
    obtain rfl : k' = k := he
    exact h.modifyAt page (fun r => r.becomes_responded _) hpresses
  | wake k' page =>
    obtain rfl : k' = k := he
    exact h.modifyAt page (fun r => r.becomes_woken _) hpresses
  | offline k' page text =>
    obtain rfl : k' = k := he
    exact h.modifyAt page (fun r => r.becomes_failed _ text) hpresses
  | openUser k' i =>
    obtain rfl : k' = k := he
    simp only [AdminApp.step] at hpresses ⊢
    split at hpresses
    · rename_i t ht
      obtain ⟨users, htop⟩ := top_of_tile ht
      refine h.onSession (h.coherent.push_nft htop fun nfts hlist => ?_) hpresses
      obtain rfl := Option.some.inj hlist
      exact hcareful.opens i t rfl ht
    · exact h
  | openNft k' i =>
    obtain rfl : k' = k := he
    simp only [AdminApp.step] at hpresses ⊢
    split at hpresses
    · rename_i j uid nfts htop
      split at hpresses
      · exact h.onSession (h.coherent.push_details htop _ _) hpresses
      · exact h
    · exact h
  | openAdd k' =>
    obtain rfl : k' = k := he
    simp only [AdminApp.step] at hpresses ⊢
    split at hpresses
    · rename_i j uid snap htop
      exact h.onSession (h.coherent.push_add htop) hpresses
    · exact h
  | arrow k' =>
    obtain rfl : k' = k := he
    exact h.onSession h.coherent.pressArrow hpresses
  | back k' =>
    obtain rfl : k' = k := he
    refine h.onSession ?_ hpresses
    unfold pressBack
    split
    · exact h.coherent.pop fun i j uid n nft snap rest hstack =>
        hcareful.backs i j uid n nft snap rest rfl hstack
    · exact h.coherent
  | settle k' =>
    obtain rfl : k' = k := he
    exact h.onSession h.coherent hpresses
  | pressAdd k' p =>
    obtain rfl : k' = k := he
    simp only [AdminApp.step] at hpresses ⊢
    split at hpresses
    · exact h.begin rfl hpresses
    · exact h
  | pressEdit k' p =>
    obtain rfl : k' = k := he
    simp only [AdminApp.step] at hpresses ⊢
    split at hpresses
    · exact h.begin rfl hpresses
    · exact h
  | pressDeleteNft k' p =>
    obtain rfl : k' = k := he
    simp only [AdminApp.step] at hpresses ⊢
    split at hpresses
    · exact h.begin rfl hpresses
    · exact h
  | get p texts => exact h.answer hcareful
  | update p => exact h.write horder
  | login k' page user => exact absurd he id
  | logout k' => exact absurd he id
  | chooseRole k' p i newValue => exact absurd he id
  | replace p => exact absurd he id
  | pressDelete k' p i => exact absurd he id
  | delete p => exact absurd he id
  | refreshUsers p => exact absurd he id

/-- After the login the session is on a `MainPage`, or still on its `LoginPage`. -/
theorem AdminApp.browsing_login (users : Users) (k : ℕ) (user : Option String) :
    ((AdminApp.start users).step (.login k 0 user)).Browsing k := by
  change ((AdminApp.start users).onSession k (postLogin 0 user users.docs)).Browsing k
  have hjobs : ∀ p, ((AdminApp.start users).onSession k (postLogin 0 user users.docs)).jobs p =
      none := fun _ => rfl
  have herror : ∀ text, Coherent users ((Navigator.home (AdminRoute.login "")).modifyAt 0
      (AdminRoute.setError text)).stack := fun text => .login 0 text
  have hpresses := (AdminApp.PressesSound.start users).step (.login k 0 user)
  refine ⟨?_, fun p j hj => absurd ((hjobs p).symm.trans hj) (by simp), hpresses,
    fun p hp => absurd hp List.not_mem_nil, List.nodup_nil⟩
  rw [sessions_onSession_self]
  change Coherent users (postLogin 0 user users.docs (.home (.login ""))).stack
  unfold postLogin
  split
  · exact herror _
  · split
    · split
      · exact .main _ _ _ _
      · exact herror _
    · exact herror _

/-! ## The grid agrees with the store -/

/-- With no write pending, the list that an `NftPage` on top shows is the one of the user's
document. -/
def AdminApp.GridAgrees (s : AdminApp) (k : ℕ) : Prop :=
  (∀ p, s.db.writes p = none) → ∀ i uid nfts,
    (s.sessions k).top = some ⟨i, .nft uid (.done (.ok (some nfts)))⟩ → s.db.users.Lists uid nfts

/-- With nothing on its way, a session reads what is stored. -/
theorem AdminApp.view_of_idle {s : AdminApp} (h : ∀ p, s.db.writes p = none) (k : ℕ) :
    s.view k = s.db.users := by
  have hrun : ∀ ps : List ℕ, Machine.run Db.step s.db (ps.map .update) = s.db := fun ps => by
    induction ps with
    | nil => rfl
    | cons p ps ih =>
      rw [List.map_cons, Machine.run_cons]
      simp only [Db.step, h p]
      exact ih
  rw [view, hrun]

theorem AdminApp.Browsing.gridAgrees {k : ℕ} {s : AdminApp} (h : s.Browsing k) :
    s.GridAgrees k := by
  intro hidle i uid nfts htop
  have hcoherent := h.coherent
  rw [AdminApp.view_of_idle hidle] at hcoherent
  rw [Navigator.top] at htop
  generalize (s.sessions k).stack = stack at htop hcoherent
  cases hcoherent with
  | nft i' j uid' user role snap list hcurrent =>
    cases htop
    exact hcurrent nfts rfl
  | _ => cases htop

/-- **The NFT grid agrees with the store** in every run of one session in which no list that is out
of date is kept. -/
theorem grid_agrees_with_store {users : Users} {k : ℕ} {user : Option String}
    {es : List AdminEvent} (hes : ∀ e ∈ es, e.Browses k)
    (horder : Machine.Along AdminApp.step (InOrder k)
      ((AdminApp.start users).step (.login k 0 user)) es)
    (hcareful : Machine.Along AdminApp.step (Careful k)
      ((AdminApp.start users).step (.login k 0 user)) es) :
    (Machine.run AdminApp.step (AdminApp.start users) (.login k 0 user :: es)).GridAgrees k := by
  have hstep : ∀ (s : AdminApp) e, s.Browsing k →
      (InOrder k s e ∧ Careful k s e) ∧ e.Browses k → (s.step e).Browsing k :=
    fun s e h hP => h.step hP.2 hP.1.1 hP.1.2
  rw [Machine.run_cons]
  exact (((horder.and hcareful).and_mem hes).invariant hstep
    (AdminApp.browsing_login users k user)).gridAgrees

theorem InOrder.of_ne {k : ℕ} {s : AdminApp} {e : AdminEvent} (h : ∀ p, e ≠ .update p) :
    InOrder k s e := fun p _ he => absurd he (h p)

theorem Careful.of_ne {k : ℕ} {s : AdminApp} {e : AdminEvent} (hopen : ∀ i, e ≠ .openUser k i)
    (hback : e ≠ .back k) (hget : ∀ p texts, e ≠ .get p texts) : Careful k s e where
  opens i _ he := absurd he (hopen i)
  backs _ _ _ _ _ _ _ he := absurd he hback
  gets p texts _ he := absurd he (hget p texts)

theorem Careful.openUser {k : ℕ} {s : AdminApp} {i : ℕ}
    (h : ∀ t, s.tile k i = some t → (s.view k).Lists t.item.id t.item.nfts) :
    Careful k s (.openUser k i) where
  opens j t he ht := by
    obtain ⟨-, rfl⟩ := AdminEvent.openUser.inj he
    exact h t ht
  backs _ _ _ _ _ _ _ he := by cases he
  gets _ _ _ he := by cases he

theorem Careful.get {k : ℕ} {s : AdminApp} {p : ℕ} {texts : NftArt}
    (h : ∀ b, s.jobs p = some (.pressed b) → (s.sessions k).top.map Page.id = some b.page) :
    Careful k s (.get p texts) where
  opens _ _ he := by cases he
  backs _ _ _ _ _ _ _ he := by cases he
  gets q texts' b he hb := by
    obtain ⟨rfl, -⟩ := AdminEvent.get.inj he
    exact .inl (h b hb)

/-- Ann opens Bob's grid and adds an entry; the page asks for the list again, and is answered while
the update is on its way. -/
def addToGrid : List AdminEvent :=
  [.load 0 1, .openUser 0 0, .openAdd 0, .pressAdd 0 0, .get 0 ⟨"Sea", "url", "At the sea"⟩,
    .respond 0 2, .update 0, .wake 0 2]

theorem grid_agrees_with_store_addToGrid :
    ∃ doc u, (Machine.run AdminApp.step (AdminApp.start annAndBob)
        (.login 0 0 (some "ann") :: addToGrid)).db.users.get "bob" = some doc ∧
      NftUser.fromJson doc "bob" = .ok u ∧ u.nfts = [⟨"Sea", "url", "At the sea"⟩] := by
  have horder : Machine.Along AdminApp.step (InOrder 0)
      ((AdminApp.start annAndBob).step (.login 0 0 (some "ann"))) addToGrid := by
    refine ⟨.of_ne (by simp), .of_ne (by simp), .of_ne (by simp), .of_ne (by simp),
      .of_ne (by simp), .of_ne (by simp), fun p w he hw => ?_, .of_ne (by simp), trivial⟩
    obtain rfl := AdminEvent.update.inj he
    rfl
  have hcareful : Machine.Along AdminApp.step (Careful 0)
      ((AdminApp.start annAndBob).step (.login 0 0 (some "ann"))) addToGrid := by
    refine ⟨.of_ne (by simp) (by simp) (by simp), .openUser fun t ht => ?_,
      .of_ne (by simp) (by simp) (by simp), .of_ne (by simp) (by simp) (by simp),
      .get fun b hb => ?_, .of_ne (by simp) (by simp) (by simp),
      .of_ne (by simp) (by simp) (by simp), .of_ne (by simp) (by simp) (by simp), trivial⟩
    · obtain rfl := Option.some.inj ht
      exact ⟨_, _, rfl, rfl, rfl⟩
    · obtain rfl := Job.pressed.inj (Option.some.inj hb)
      rfl
  refine grid_agrees_with_store (by simp [addToGrid, AdminEvent.Browses]) horder hcareful
    (fun p => ?_) 2 "bob" _ rfl
  match p with
  | 0 => rfl
  | p + 1 => rfl

/-- Ann, an admin, and Bob with one entry. -/
def bobAtSea : Users :=
  Collection.set (Collection.set ∅ "ann" [("name", .str "Ann"), ("role", .str "admin"),
    ("NFT", .list [])]) "bob" [("name", .str "Bob"), ("role", .str "user"),
    ("NFT", .list [nftMap ⟨"Sea", "url", "At the sea"⟩])]

/-- Ann edits the entry and leaves the details page by the system's back. -/
def backAfterEdit : List AdminEvent :=
  [.load 0 1, .openUser 0 0, .openNft 0 0, .pressEdit 0 0, .get 0 ⟨"Lake", "url", "At the lake"⟩,
    .update 0, .back 0]

/-- Ann edits the entry, goes back to the user list by the arrows and opens Bob again. -/
def reopenedAfterEdit : List AdminEvent :=
  [.load 0 1, .openUser 0 0, .openNft 0 0, .pressEdit 0 0, .get 0 ⟨"Lake", "url", "At the lake"⟩,
    .update 0, .arrow 0, .respond 0 2, .wake 0 2, .arrow 0, .openUser 0 0]

/-- Ann leaves an `NftaddPage` by its arrow. While the list that is read again has not appeared yet,
she presses 'Add an NFT' on another one and leaves it by the system's back before the `get` is
answered. -/
def backBeforeAnswer : List AdminEvent :=
  [.load 0 1, .openUser 0 0, .openAdd 0, .arrow 0, .respond 0 2, .openAdd 0, .pressAdd 0 0, .back 0,
    .settle 0, .get 0 ⟨"Lake", "url", "At the lake"⟩, .update 0, .wake 0 2]

/-- Each time the grid shows the entries as they were before. -/
theorem backAfterEdit_not_agrees :
    ((∀ e ∈ backAfterEdit, e.Browses 0) ∧
      ¬ (Machine.run AdminApp.step (AdminApp.start bobAtSea)
        (.login 0 0 (some "ann") :: backAfterEdit)).GridAgrees 0) ∧
    ((∀ e ∈ reopenedAfterEdit, e.Browses 0) ∧
      ¬ (Machine.run AdminApp.step (AdminApp.start bobAtSea)
        (.login 0 0 (some "ann") :: reopenedAfterEdit)).GridAgrees 0) ∧
    (∀ e ∈ backBeforeAnswer, e.Browses 0) ∧
      ¬ (Machine.run AdminApp.step (AdminApp.start bobAtSea)
        (.login 0 0 (some "ann") :: backBeforeAnswer)).GridAgrees 0 := by
  refine ⟨⟨by simp [backAfterEdit, AdminEvent.Browses], fun h => ?_⟩,
    ⟨by simp [reopenedAfterEdit, AdminEvent.Browses], fun h => ?_⟩,
    by simp [backBeforeAnswer, AdminEvent.Browses], fun h => ?_⟩
  · obtain ⟨doc, u, hdoc, hu, hnfts⟩ := h (fun p => by match p with | 0 => rfl | p + 1 => rfl) 2
      "bob" _ rfl
    obtain rfl := Option.some.inj hdoc
    obtain rfl := Except.ok.inj hu
    exact absurd hnfts (by decide)
  · obtain ⟨doc, u, hdoc, hu, hnfts⟩ := h (fun p => by match p with | 0 => rfl | p + 1 => rfl) 4
      "bob" _ rfl
    obtain rfl := Option.some.inj hdoc
    obtain rfl := Except.ok.inj hu
    exact absurd hnfts (by decide)
  · obtain ⟨doc, u, hdoc, hu, hnfts⟩ := h (fun p => by match p with | 0 => rfl | p + 1 => rfl) 2
      "bob" _ rfl
    obtain rfl := Option.some.inj hdoc
    obtain rfl := Except.ok.inj hu
    exact absurd hnfts (by decide)

end FlutterThree
