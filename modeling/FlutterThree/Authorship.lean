import FlutterThree.AdminAccess
import FlutterThree.Ownership
import FlutterThree.Wallet

/-!
# Where the entries of the wallets come from

An upload adds an entry to a wallet, and so does a handler of the admin app, which writes back the
whole list it has read; nothing in the store says who may do so.

`entries_have_authors`: still, an entry that a wallet did not have at first was uploaded by a client
app which had its user signed in, or its texts were typed in a session of the admin app that an
admin or a manager had opened.
-/

namespace FlutterThree

open Dart Firestore

/-! ## Entries in a list -/

/-- The list `v` has a map that shows the entry. -/
def ListsEntry (v : Value) (entry : Entry) : Prop :=
  ∃ xs x, v = .list xs ∧ x ∈ xs ∧ ShowsTexts x entry

/-- The texts an NFT handler writes. -/
def Handler.texts : Handler → Option NftArt
  | .addNft nft => some nft
  | .editNft _ nft => some nft
  | _ => none

section

variable {v v' : Value} {entry entry' : Entry} {nft : NftArt}

theorem ShowsTexts.unique (h : ShowsTexts v entry) (h' : ShowsTexts v entry') : entry = entry' := by
  obtain ⟨m, rfl, hname, himage, hdesc⟩ := h
  obtain ⟨m', hm, hname', himage', hdesc'⟩ := h'
  obtain rfl := Value.map.inj hm
  have htext : ∀ {k s s'}, m.lookup k = some (.str s) → m.lookup k = some (.str s') → s = s' :=
    fun h h' => Value.str.inj (Option.some.inj (h.symm.trans h'))
  obtain ⟨name, image, description⟩ := entry
  obtain rfl := htext hname hname'
  obtain rfl := htext himage himage'
  obtain rfl := htext hdesc hdesc'
  rfl

theorem showsTexts_nftMap : ShowsTexts (nftMap nft) nft.entry := ⟨_, rfl, rfl, rfl, rfl⟩

/-- 'Edit NFT' gives all three texts, so the entry shows them whatever it was. -/
theorem showsTexts_of_editTexts (h : editTexts nft v = .ok v') : ShowsTexts v' nft.entry := by
  cases v with
  | map m =>
    obtain rfl := Except.ok.inj h
    refine ⟨_, rfl, Fields.lookup_put_self _ _ _, ?_, ?_⟩
    · rw [Fields.lookup_put_ne _ (by decide), Fields.lookup_put_self]
      rfl
    · rw [Fields.lookup_put_ne _ (by decide), Fields.lookup_put_ne _ (by decide),
        Fields.lookup_put_self]
      rfl
  | _ => cases h

theorem listsEntry_append {xs : List Value} (h : ListsEntry (.list (xs ++ [nftMap nft])) entry) :
    ListsEntry (.list xs) entry ∨ nft.entry = entry := by
  obtain ⟨_, x, heq, hx, hshows⟩ := h
  obtain rfl := Value.list.inj heq
  rcases List.mem_append.mp hx with hold | hnew
  · exact .inl ⟨xs, x, rfl, hold, hshows⟩
  · rw [List.mem_singleton.mp hnew] at hshows
    exact .inr (showsTexts_nftMap.unique hshows)

/-- A handler takes over the entries it has read, and adds one with its texts at most. -/
theorem Handler.listsEntry_of_onNft {h : Handler} (hok : h.onNft v = .ok v')
    (hentry : ListsEntry v' entry) :
    ListsEntry v entry ∨ ∃ nft, h.texts = some nft ∧ nft.entry = entry := by
  cases h with
  | addNft nft =>
    cases v with
    | list xs =>
      obtain rfl := Except.ok.inj hok
      exact (listsEntry_append hentry).imp_right fun heq => ⟨nft, rfl, heq⟩
    | _ => cases hok
  | editNft n nft =>
    cases v with
    | list xs =>
      by_cases hn : n < xs.length
      · rw [onNft, editAt_list n nft hn, bind_eq_ok] at hok
        obtain ⟨y, hy, heq⟩ := hok
        obtain rfl := Except.ok.inj heq
        obtain ⟨_, x, heq, hx, hshows⟩ := hentry
        obtain rfl := Value.list.inj heq
        rcases List.mem_or_eq_of_mem_set hx with hold | rfl
        · exact .inl ⟨xs, x, rfl, hold, hshows⟩
        · exact .inr ⟨nft, rfl, (showsTexts_of_editTexts hy).unique hshows⟩
      · rw [onNft, editAt_list_out n nft (Nat.le_of_not_lt hn)] at hok
        cases hok
    | str s =>
      simp only [onNft, editAt, Value.assignAt] at hok
      split at hok <;> cases hok
    | _ => cases hok
  | deleteNft n =>
    cases v with
    | list xs =>
      simp only [onNft, Value.removeAt] at hok
      split at hok
      · obtain rfl := Except.ok.inj hok
        obtain ⟨_, x, heq, hx, hshows⟩ := hentry
        obtain rfl := Value.list.inj heq
        exact .inl ⟨xs, x, rfl, List.mem_of_mem_eraseIdx hx, hshows⟩
      · cases hok
    | _ => cases hok
  | chooseRole r =>
    obtain rfl := Except.ok.inj hok
    exact .inl hentry

/-- So does an upload. -/
theorem listsEntry_of_arrayUnion (hentry : ListsEntry (arrayUnion v [nftMap nft]) entry) :
    ListsEntry v entry ∨ nft.entry = entry := by
  have hunion : arrayUnion v [nftMap nft] = .list (elements v) ∨
      arrayUnion v [nftMap nft] = .list (elements v ++ [nftMap nft]) := by
    unfold arrayUnion
    simp only [List.foldl_cons, List.foldl_nil]
    split
    · exact .inl rfl
    · exact .inr rfl
  have helements : ListsEntry (.list (elements v)) entry → ListsEntry v entry := by
    rintro ⟨_, x, heq, hx, hshows⟩
    obtain rfl := Value.list.inj heq
    cases v with
    | list xs => exact ⟨xs, x, rfl, hx, hshows⟩
    | _ => cases hx
  rcases hunion with heq | heq
  · rw [heq] at hentry
    exact .inl (helements hentry)
  · rw [heq] at hentry
    exact (listsEntry_append hentry).imp_left helements

end

/-! ## Entries in the store -/

/-- The wallet of `uid` has the entry, or a handler is about to write it there. -/
def Db.HasEntry (s : Db) (uid : String) (entry : Entry) : Prop :=
  (∃ doc, s.users.get uid = some doc ∧ ListsEntry (doc.index "NFT") entry) ∨
    ∃ p w, s.writes p = some w ∧ w.uid = uid ∧ ListsEntry (w.data.index "NFT") entry

section

variable {s : Db} {e : Event} {uid : String} {entry : Entry}

/-- An entry in a document after a step. -/
theorem Db.hasEntry_of_doc_step {doc : Fields} (hdoc : (s.step e).users.get uid = some doc)
    (hentry : ListsEntry (doc.index "NFT") entry) :
    s.HasEntry uid entry ∨ ∃ nft, e = .upload uid nft ∧ nft.entry = entry := by
  have hstep := s.docStep e uid
  rw [hdoc] at hstep
  generalize (s.step e).log = log at hstep
  generalize hres : some doc = res at hstep
  cases hstep with
  | keep => exact .inl (.inl ⟨doc, hres.symm, hentry⟩)
  | other c hc => exact .inl (.inl ⟨doc, hres.symm, hentry⟩)
  | update p w doc' he hw huid hdoc' =>
    -- the list is the one of the map that is written, or, if that has none, stays
    obtain rfl := Option.some.inj hres
    unfold Fields.index at hentry
    rw [lookup_overwrite] at hentry
    cases hdata : w.data.lookup "NFT" with
    | none =>
      rw [hdata] at hentry
      exact .inl (.inl ⟨doc', hdoc', hentry⟩)
    | some v =>
      rw [hdata] at hentry
      refine .inl (.inr ⟨p, w, hw, huid, ?_⟩)
      rw [Fields.index_of_lookup hdata]
      exact hentry
  | upload nft doc' he hdoc' =>
    obtain rfl := Option.some.inj hres
    rw [index_nft_postNFT] at hentry
    rcases listsEntry_of_arrayUnion hentry with hold | hnew
    · exact .inl (.inl ⟨doc', hdoc', hold⟩)
    · exact .inr ⟨nft, he, hnew⟩
  | register name he =>
    obtain rfl := Option.some.inj hres
    obtain ⟨xs, x, heq, hx, -⟩ := hentry
    obtain rfl : [] = xs := Value.list.inj heq
    cases hx
  | delete he => cases hres

/-- An entry that a document or a pending write has after a step was there before, or an upload
brings it, or the `get` of a handler with its texts was answered. -/
theorem Db.hasEntry_step (h : (s.step e).HasEntry uid entry) :
    s.HasEntry uid entry ∨ (∃ nft, e = .upload uid nft ∧ nft.entry = entry) ∨
      ∃ p hd nft, e = .get p uid hd ∧ hd.texts = some nft ∧ nft.entry = entry := by
  rcases h with ⟨doc, hdoc, hentry⟩ | ⟨p, w, hw, rfl, hentry⟩
  · exact (Db.hasEntry_of_doc_step hdoc hentry).imp_right .inl
  · rcases Db.writes_step hw with hold | ⟨-, he, hseen⟩
    · exact .inl (.inr ⟨p, w, hold, rfl, hentry⟩)
    · obtain ⟨d, hd, hok⟩ := w.exists_seen
      rcases Handler.listsEntry_of_onNft (w.handler.index_nft_of_ok hok) hentry with
        hread | ⟨nft, htexts, hnew⟩
      · exact .inl (.inl ⟨d, hseen.symm.trans hd, hread⟩)
      · exact .inr (.inr ⟨p, w.handler, nft, he, htexts, hnew⟩)

end

/-! ## Their authors -/

/-- The step is the `update` of an upload of the entry, from client app `i`. -/
def Apps.Posts (s : Apps) (e : AppsEvent) (uid : String) (entry : Entry) (i : ℕ) : Prop :=
  ∃ q k file nft, e = .client i (.update q) ∧
    (s.clients i).jobs q = some (.upload ⟨k, .update file nft⟩) ∧
    uid = ((s.clients i).uploadPages k).uid ∧ nft.entry = entry

/-- The step is the answer to the `get` of 'Add an NFT' or 'Edit NFT', with the texts of the entry in
the fields. -/
def Apps.Types (s : Apps) (e : AppsEvent) (uid : String) (entry : Entry) (b : NftPress) : Prop :=
  ∃ p texts, e = .admin (.get p texts) ∧ s.admin.jobs p = some (.pressed b) ∧ b.uid = uid ∧
    (b.button = .add ∨ ∃ n, b.button = .edit n) ∧ texts.entry = entry

section

variable {s : Apps} {e : AppsEvent} {uid : String} {entry : Entry}

theorem Apps.posts_of_sent {nft : NftArt} (hsent : s.sent e = some (.upload uid nft)) :
    ∃ i, s.Posts e uid nft.entry i := by
  cases e with
  | client i a =>
    obtain ⟨q, k, file, rfl, hq, huid⟩ := Client.sent_upload hsent
    exact ⟨i, q, k, file, nft, rfl, hq, huid, rfl⟩
  | admin e =>
    cases e with
    | get q texts =>
      simp only [Apps.sent, AdminApp.sent] at hsent
      split at hsent <;> cases hsent
    | delete q =>
      simp only [Apps.sent, AdminApp.sent] at hsent
      split at hsent <;> cases hsent
    | _ => cases hsent

theorem Apps.types_of_sent {p : ℕ} {h : Handler} {nft : NftArt}
    (hsent : s.sent e = some (.get p uid h)) (htexts : h.texts = some nft) :
    ∃ b, s.Types e uid nft.entry b := by
  cases e with
  | client i a =>
    rcases Client.sent_cases hsent with ⟨_, _, he⟩ | ⟨_, _, he⟩ <;> cases he
  | admin e =>
    cases e with
    | get q texts =>
      simp only [Apps.sent, AdminApp.sent] at hsent
      split at hsent
      · obtain ⟨-, -, rfl⟩ := Event.get.inj (Option.some.inj hsent)
        cases htexts
      · rename_i b hb
        obtain ⟨-, huid, rfl⟩ := Event.get.inj (Option.some.inj hsent)
        cases hbutton : b.button with
        | add =>
          rw [hbutton] at htexts
          obtain rfl := Option.some.inj htexts
          exact ⟨b, q, _, rfl, hb, huid, .inl hbutton, rfl⟩
        | edit n =>
          rw [hbutton] at htexts
          obtain rfl := Option.some.inj htexts
          exact ⟨b, q, _, rfl, hb, huid, .inr ⟨n, hbutton⟩, rfl⟩
        | delete n =>
          rw [hbutton] at htexts
          cases htexts
      · cases hsent
    | delete q =>
      simp only [Apps.sent, AdminApp.sent] at hsent
      split at hsent <;> cases hsent
    | _ => cases hsent

theorem Apps.hasEntry_step (h : (s.step e).admin.db.HasEntry uid entry) :
    s.admin.db.HasEntry uid entry ∨ (∃ i, s.Posts e uid entry i) ∨
      ∃ b, s.Types e uid entry b := by
  rw [s.db_step e] at h
  cases hsent : s.sent e with
  | none =>
    rw [hsent] at h
    exact .inl h
  | some e' =>
    rw [hsent] at h
    have h' : (s.admin.db.step e').HasEntry uid entry := h
    rcases Db.hasEntry_step h' with hold | ⟨nft, rfl, rfl⟩ | ⟨p, hd, nft, rfl, htexts, rfl⟩
    · exact .inl hold
    · exact .inr (.inl (Apps.posts_of_sent hsent))
    · exact .inr (.inr (Apps.types_of_sent hsent htexts))

end

/-- **Entries have authors.** An entry that the wallet of a user did not have at first was uploaded by
a client app which had the user signed in before, or typed into a page of a session of the admin app
that was let in before. -/
theorem entries_have_authors {users : Users} {accounts : List Account}
    {accepts : String → String → Bool} {currentUsers : ℕ → Option String} {es : List AppsEvent}
    {s : Apps} (hs : s = Machine.run Apps.step (Apps.start users accounts accepts currentUsers) es)
    {uid : String} {doc : Fields} {entry : Entry} (hdoc : s.users.get uid = some doc)
    (hentry : ListsEntry (doc.index "NFT") entry)
    (hnew : ∀ doc, users.get uid = some doc → ¬ ListsEntry (doc.index "NFT") entry) :
    ∃ before e post, es = before ++ e :: post ∧
      ((∃ i pre mid, (Machine.run Apps.step (Apps.start users accounts accepts currentUsers)
          before).Posts e uid entry i ∧ before = pre ++ mid ∧
          ((Machine.run Apps.step (Apps.start users accounts accepts currentUsers)
            pre).clients i).currentUser = some uid) ∨
        ∃ b pre page user role mid, (Machine.run Apps.step
            (Apps.start users accounts accepts currentUsers) before).Types e uid entry b ∧
          before = pre ++ .admin (.login b.session page (some user)) :: mid ∧
          (role = "admin" ∨ role = "manager") ∧
          (Machine.run Apps.step (Apps.start users accounts accepts currentUsers)
            pre).admin.StoredRole user role) := by
  have hstart : ¬ (Apps.start users accounts accepts currentUsers).admin.db.HasEntry uid entry := by
    rintro (⟨doc, hdoc, h⟩ | ⟨p, w, hw, -⟩)
    · exact hnew doc hdoc h
    · cases hw
  have hhas : s.admin.db.HasEntry uid entry := .inl ⟨doc, hdoc, hentry⟩
  rw [hs] at hhas
  obtain ⟨before, e, post, rfl, hauthor⟩ := Machine.exists_split_of_run
    (fun s : Apps => s.admin.db.HasEntry uid entry) (fun s e h => Apps.hasEntry_step h) hstart hhas
  refine ⟨before, e, post, rfl, hauthor.imp ?_ ?_⟩
  · rintro ⟨i, hposts⟩
    obtain ⟨q, k, file, nft, -, hq, rfl, -⟩ := id hposts
    obtain ⟨pre, mid, hsplit, hcurrent⟩ :=
      (Apps.holds_run users accounts accepts currentUsers before i).uploads q _ hq
    exact ⟨i, pre, mid, hposts, hsplit, hcurrent⟩
  · rintro ⟨b, htypes⟩
    obtain ⟨p, texts, -, hjob, -⟩ := id htypes
    obtain ⟨pre, page, user, role, mid, hsplit, hrole, hstored⟩ :=
      Apps.exists_letsIn fun hshut => hshut.jobs p _ hjob rfl
    exact ⟨b, pre, page, user, role, mid, htypes, hsplit, hrole, hstored⟩

/-- Ann registers, and the admin adds an entry to her wallet. -/
def annGetsHill : List AppsEvent :=
  registering 0 "ann" "ann@mail.com" ++
    [.admin (.login 0 0 (some "root")), .admin (.load 0 1), .admin (.openUser 0 0),
      .admin (.openAdd 0), .admin (.pressAdd 0 0), .admin (.get 0 ⟨"Hill", "hill.png", "A hill"⟩),
      .admin (.update 0)]

theorem entries_have_authors_ann :
    ∃ before e post, annGetsHill = before ++ e :: post ∧
      ((∃ i pre mid, (Machine.run Apps.step adminAndGuests before).Posts e "ann"
          ⟨"Hill", "hill.png", "A hill"⟩ i ∧ before = pre ++ mid ∧
          ((Machine.run Apps.step adminAndGuests pre).clients i).currentUser = some "ann") ∨
        ∃ b pre page user role mid, (Machine.run Apps.step adminAndGuests before).Types e "ann"
            ⟨"Hill", "hill.png", "A hill"⟩ b ∧
          before = pre ++ .admin (.login b.session page (some user)) :: mid ∧
          (role = "admin" ∨ role = "manager") ∧
          (Machine.run Apps.step adminAndGuests pre).admin.StoredRole user role) := by
  have hdoc : (Machine.run Apps.step adminAndGuests annGetsHill).users.get "ann" = some _ := rfl
  exact entries_have_authors rfl hdoc ⟨_, _, rfl, List.mem_singleton_self _, _, rfl, rfl, rfl, rfl⟩
    fun _ hdoc => by cases hdoc

end FlutterThree
