import FlutterThree.Interleaving

/-!
# Which entry a details page hits

`NftPage` shows a wallet as it was when the list was loaded, and opens `NftDetailsPage` with the
index of the tapped cell. The page keeps that index; each Edit or Delete press applies it to the
list its own `get` returns.

To say which entry a press hits, entries get identities. `Tracked` adds to the store, for each
wallet, the list of the identities of its entries in order, and carries the identities along with
the maps that pending presses will write. No step of the store reads them (`Tracked.db_advance`);
they stay in step with the stored lists and never repeat within one (`Tracked.Sound`).
-/

namespace FlutterThree

open Dart Firestore

/-- A details page: the wallet, the index it addresses, and the entry it was opened at. -/
structure DetailsPage where
  nftUserID : String
  nftNumber : ℕ
  entry : ℕ
  deriving Repr, DecidableEq

/-- The store with the identities of the entries, and the pages open on it. -/
structure Tracked where
  db : Db
  /-- The identities of the entries of each stored wallet, in order. -/
  ids : String → List ℕ
  /-- The next unused identity of each wallet. -/
  next : String → ℕ
  /-- The identities of the entries a pending press had read. -/
  read : ℕ → List ℕ
  /-- The identities of the entries in the map a pending press will write. -/
  held : ℕ → List ℕ
  /-- Grids on screen: whose wallet, and the entries shown. -/
  grids : ℕ → Option (String × List ℕ)
  pages : ℕ → Option DetailsPage
  /-- The details page whose button a press is of. -/
  owner : ℕ → Option DetailsPage

/-- The entries of a stored wallet. -/
def Db.wallet (s : Db) (uid : String) : List Value :=
  elements (((s.users.get uid).map (·.index "NFT")).getD .null)

/-- Nothing open, the entries of every wallet numbered. -/
def Tracked.start (users : Users) : Tracked where
  db := Db.start users
  ids uid := List.range ((Db.start users).wallet uid).length
  next uid := ((Db.start users).wallet uid).length
  read _ := []
  held _ := []
  grids _ := none
  pages _ := none
  owner _ := none

/-- The identities after a handler: an added entry is new, an edited one stays itself. -/
def Handler.onIds (fresh : ℕ) : Handler → List ℕ → List ℕ
  | .addNft _, ids => ids ++ [fresh]
  | .deleteNft n, ids => ids.eraseIdx n
  | .editNft _ _, ids => ids
  | .chooseRole _, ids => ids

/-- A step of the store, with the identities kept up. `page` is the details page of the press that
a `get` belongs to. -/
def Tracked.advance (s : Tracked) (page : Option DetailsPage) (e : Event) : Tracked :=
  match e with
  | .get p uid h =>
    match s.db.writes p with
    | none =>
      { s with
        db := s.db.step e
        next := Function.update s.next uid (s.next uid + 1)
        read := Function.update s.read p (s.ids uid)
        held := Function.update s.held p (h.onIds (s.next uid) (s.ids uid))
        owner := Function.update s.owner p page }
    | some _ => s
  | .update p =>
    match s.db.writes p with
    | some w =>
      { s with
        db := s.db.step e
        -- a role choice may carry no list, and then leaves the stored one
        ids := if (s.db.users.get w.uid).isSome ∧ (w.data.lookup "NFT").isSome
          then Function.update s.ids w.uid (s.held p) else s.ids }
    | none => s
  | .upload uid _ =>
    { s with
      db := s.db.step e
      next := Function.update s.next uid (s.next uid + 1)
      ids := Function.update s.ids uid
        (if (s.db.wallet uid).length < ((s.db.step e).wallet uid).length
          then s.ids uid ++ [s.next uid] else s.ids uid) }
  | .register uid _ => { s with db := s.db.step e, ids := Function.update s.ids uid [] }
  | .deleteUser uid => { s with db := s.db.step e, ids := Function.update s.ids uid [] }

inductive PageEvent where
  /-- A step of any other page or session, or the `update` of any press. -/
  | other (e : Event)
  /-- `NftPage` shows the wallet of `uid` as it is stored now. -/
  | loadGrid (g : ℕ) (uid : String)
  /-- A tap on cell `index` of a grid. -/
  | openDetails (k g index : ℕ)
  /-- 'Edit NFT' on page `k`, with the texts of its fields: the `get` is answered. -/
  | pressEdit (k p : ℕ) (nft : NftArt)
  /-- 'Delete NFT' on page `k`: the `get` is answered. -/
  | pressDelete (k p : ℕ)

def Tracked.step (s : Tracked) : PageEvent → Tracked
  | .other e => s.advance none e
  | .loadGrid g uid => { s with grids := Function.update s.grids g (some (uid, s.ids uid)) }
  | .openDetails k g index =>
    match s.pages k, s.grids g with
    | none, some (uid, shown) =>
      { s with pages := Function.update s.pages k (shown[index]?.map fun i => ⟨uid, index, i⟩) }
    | _, _ => s
  | .pressEdit k p nft =>
    match s.pages k with
    | some page => s.advance (some page) (.get p page.nftUserID (.editNft page.nftNumber nft))
    | none => s
  | .pressDelete k p =>
    match s.pages k with
    | some page => s.advance (some page) (.get p page.nftUserID (.deleteNft page.nftNumber))
    | none => s

/-! ## The identities follow the store -/

/-- The store steps as it would without identities. -/
theorem Tracked.db_advance (s : Tracked) (page : Option DetailsPage) (e : Event) :
    (s.advance page e).db = s.db.step e := by
  cases e with
  | get p uid h =>
    cases hp : s.db.writes p with
    | none => simp only [advance, hp]
    | some w => simp only [advance, hp, Db.step]
  | update p =>
    cases hp : s.db.writes p with
    | none => simp only [advance, hp, Db.step]
    | some w => simp only [advance, hp]
  | upload uid nft => rfl
  | register uid name => rfl
  | deleteUser uid => rfl

/-- A handler changes the identities as it changes the list. -/
theorem Handler.length_onIds {h : Handler} {v v' : Value} (hok : h.onNft v = .ok v') (fresh : ℕ)
    {ids : List ℕ} (hlen : ids.length = (elements v).length) :
    (h.onIds fresh ids).length = (elements v').length := by
  cases h with
  | addNft nft =>
    cases v with
    | list xs =>
      obtain rfl := Except.ok.inj hok
      simpa [onIds, elements] using hlen
    | _ => cases hok
  | editNft n nft =>
    obtain ⟨xs, m, rfl, -, rfl⟩ := editAt_eq_ok.mp hok
    simpa [onIds, elements] using hlen
  | deleteNft n =>
    cases v with
    | list xs =>
      simp only [onNft, Value.removeAt] at hok
      split at hok
      · obtain rfl := Except.ok.inj hok
        have hxs : ids.length = xs.length := hlen
        simp only [onIds, elements, List.length_eraseIdx, hxs]
      · cases hok
    | _ => cases hok
  | chooseRole r =>
    obtain rfl := Except.ok.inj hok
    exact hlen

/-- The identities a handler leaves are old ones, or the fresh one. -/
theorem Handler.nodup_onIds (h : Handler) {fresh : ℕ} {ids : List ℕ} (hnodup : ids.Nodup)
    (hfresh : ∀ i ∈ ids, i < fresh) :
    (h.onIds fresh ids).Nodup ∧ ∀ i ∈ h.onIds fresh ids, i < fresh + 1 := by
  have hold : ∀ i ∈ ids, i < fresh + 1 := fun i hi => Nat.lt_succ_of_lt (hfresh i hi)
  cases h with
  | addNft nft =>
    refine ⟨List.nodup_append.mpr ⟨hnodup, List.nodup_singleton fresh, ?_⟩, fun i hi => ?_⟩
    · intro i hi j hj
      rw [List.mem_singleton.mp hj]
      exact (hfresh i hi).ne
    · rcases List.mem_append.mp hi with hi | hi
      · exact hold i hi
      · rw [List.mem_singleton.mp hi]
        exact Nat.lt_succ_self fresh
  | editNft n nft => exact ⟨hnodup, hold⟩
  | deleteNft n => exact ⟨hnodup.eraseIdx n, fun i hi => hold i (List.mem_of_mem_eraseIdx hi)⟩
  | chooseRole r => exact ⟨hnodup, hold⟩

/-- Each stored wallet has one identity for each entry, all different, and so has each map about to
be written. -/
structure Tracked.Sound (s : Tracked) : Prop where
  length : ∀ uid, (s.ids uid).length = (s.db.wallet uid).length
  nodup : ∀ uid, (s.ids uid).Nodup
  fresh : ∀ uid, ∀ i ∈ s.ids uid, i < s.next uid
  held_length : ∀ p w, s.db.writes p = some w →
    (s.held p).length = (elements (w.data.index "NFT")).length
  held_nodup : ∀ p w, s.db.writes p = some w → (s.held p).Nodup
  held_fresh : ∀ p w, s.db.writes p = some w → ∀ i ∈ s.held p, i < s.next w.uid

theorem Tracked.sound_start (users : Users) : (Tracked.start users).Sound where
  length _ := List.length_range
  nodup _ := List.nodup_range
  fresh _ _ hi := List.mem_range.mp hi
  held_length _ _ hw := by cases hw
  held_nodup _ _ hw := by cases hw
  held_fresh _ _ hw := by cases hw

theorem Db.wallet_of_get {s : Db} {uid : String} {doc : Fields}
    (h : s.users.get uid = some doc) : s.wallet uid = elements (doc.index "NFT") := by
  rw [wallet, h, Option.map_some, Option.getD_some]

theorem Db.wallet_congr {s s' : Db} {uid : String} (h : s'.users.get uid = s.users.get uid) :
    s'.wallet uid = s.wallet uid := by
  rw [wallet, wallet, h]

/-- The list of an overwritten document: the one carried, or the one there. -/
theorem elements_overwrite (data doc : Fields) :
    elements ((overwrite data doc).index "NFT") =
      if (data.lookup "NFT").isSome then elements (data.index "NFT")
      else elements (doc.index "NFT") := by
  unfold Fields.index
  rw [lookup_overwrite]
  cases data.lookup "NFT" with
  | some v =>
    rw [Option.some_or]
    rfl
  | none =>
    rw [Option.none_or]
    rfl

private theorem le_update_succ (next : String → ℕ) (uid u : String) :
    next u ≤ Function.update next uid (next uid + 1) u := by
  rw [Function.update_apply]
  split
  · rename_i hu
    rw [hu]
    exact Nat.le_succ _
  · exact le_rfl

theorem Tracked.Sound.advance_get {s : Tracked} (h : s.Sound) (page : Option DetailsPage)
    (p : ℕ) (uid : String) (hd : Handler) : (s.advance page (.get p uid hd)).Sound := by
  cases hp : s.db.writes p with
  | some w =>
    simp only [Tracked.advance, hp]
    exact h
  | none =>
    have hstep : s.db.step (.get p uid hd) = { s.db with
        writes := Function.update s.db.writes p (Write.begin uid hd (s.db.users.get uid)) } := by
      simp only [Db.step, hp]
    have hnext := le_update_succ s.next uid
    -- a pending map is an old one, or the one just computed from the stored document
    have hnew : ∀ q w, (s.db.step (.get p uid hd)).writes q = some w →
        (q ≠ p ∧ s.db.writes q = some w) ∨ (q = p ∧ w.uid = uid ∧ w.handler = hd ∧
          w.seen = s.db.users.get uid) := by
      intro q w hw
      rw [hstep] at hw
      rcases Machine.update_eq_some hw with ⟨hq, hbegun⟩ | hold
      · exact .inr ⟨hq, Write.begin_eq_some hbegun⟩
      · exact .inl hold
    obtain ⟨hnd, hlt⟩ := hd.nodup_onIds (h.nodup uid) (h.fresh uid)
    simp only [Tracked.advance, hp]
    constructor
    · intro u
      rw [h.length u, hstep]
      rfl
    · exact h.nodup
    · exact fun u i hi => (h.fresh u i hi).trans_le (hnext u)
    · intro q w hw
      rcases hnew q w hw with ⟨hq, hold⟩ | ⟨rfl, rfl, rfl, hseen⟩
      · simp only [Function.update_of_ne hq]
        exact h.held_length q w hold
      · obtain ⟨d, hd', hok⟩ := w.exists_seen
        have hlen := h.length w.uid
        rw [Db.wallet_of_get (hseen ▸ hd')] at hlen
        simp only [Function.update_self]
        exact w.handler.length_onIds (w.handler.index_nft_of_ok hok) _ hlen
    · intro q w hw
      rcases hnew q w hw with ⟨hq, hold⟩ | ⟨rfl, -, -, -⟩
      · simp only [Function.update_of_ne hq]
        exact h.held_nodup q w hold
      · simp only [Function.update_self]
        exact hnd
    · intro q w hw i hi
      rcases hnew q w hw with ⟨hq, hold⟩ | ⟨rfl, rfl, -, -⟩
      · simp only [Function.update_of_ne hq] at hi
        exact (h.held_fresh q w hold i hi).trans_le (hnext w.uid)
      · simp only [Function.update_self] at hi ⊢
        exact hlt i hi

/-- The wallets after an `update` that takes effect on the list. -/
theorem Db.wallet_step_update {s : Db} {p : ℕ} {w : Write} (hp : s.writes p = some w)
    (uid : String) :
    (s.step (.update p)).wallet uid =
      if uid = w.uid ∧ (s.users.get w.uid).isSome ∧ (w.data.lookup "NFT").isSome
        then elements (w.data.index "NFT") else s.wallet uid := by
  have husers : (s.step (.update p)).users = s.users.update w.uid (overwrite w.data) := by
    simp only [Db.step, hp]
  have hget := Collection.get_update s.users w.uid uid (overwrite w.data)
  by_cases huid : uid = w.uid
  · subst huid
    rw [if_pos rfl] at hget
    cases hdoc : s.users.get w.uid with
    | none =>
      rw [if_neg (by simp)]
      exact Db.wallet_congr (by rw [husers, hget, hdoc, Option.map_none])
    | some doc =>
      rw [Db.wallet_of_get (by rw [husers, hget, hdoc, Option.map_some]), elements_overwrite,
        Db.wallet_of_get hdoc]
      by_cases hnft : (w.data.lookup "NFT").isSome
      · rw [if_pos hnft, if_pos ⟨rfl, rfl, hnft⟩]
      · rw [if_neg hnft, if_neg fun hall => hnft hall.2.2]
  · rw [if_neg huid] at hget
    rw [if_neg fun h => huid h.1]
    exact Db.wallet_congr (by rw [husers, hget])

theorem Tracked.Sound.advance_update {s : Tracked} (h : s.Sound) (page : Option DetailsPage)
    (p : ℕ) : (s.advance page (.update p)).Sound := by
  cases hp : s.db.writes p with
  | none =>
    simp only [Tracked.advance, hp]
    exact h
  | some w =>
    have hwallet := Db.wallet_step_update hp
    have hwrites : ∀ q w', (s.db.step (.update p)).writes q = some w' →
        s.db.writes q = some w' := fun q w' hw' => by
      rcases Db.writes_step hw' with hold | ⟨-, he, -⟩
      · exact hold
      · cases he
    simp only [Tracked.advance, hp]
    -- the identities are replaced exactly when the stored list is
    by_cases heff : (s.db.users.get w.uid).isSome ∧ (w.data.lookup "NFT").isSome
    · rw [if_pos heff]
      have hids : ∀ u, Function.update s.ids w.uid (s.held p) u =
          if u = w.uid then s.held p else s.ids u := fun u => Function.update_apply _ _ _ u
      constructor
      · intro u
        simp only [hids, hwallet, heff, and_true]
        split
        · exact h.held_length p w hp
        · exact h.length u
      · intro u
        simp only [hids]
        split
        · exact h.held_nodup p w hp
        · exact h.nodup u
      · intro u i hi
        simp only [hids] at hi
        split at hi
        · rename_i hu
          rw [hu]
          exact h.held_fresh p w hp i hi
        · exact h.fresh u i hi
      · exact fun q w' hw' => h.held_length q w' (hwrites q w' hw')
      · exact fun q w' hw' => h.held_nodup q w' (hwrites q w' hw')
      · exact fun q w' hw' => h.held_fresh q w' (hwrites q w' hw')
    · rw [if_neg heff]
      constructor
      · intro u
        simp only [hwallet]
        rw [if_neg fun hall => heff hall.2]
        exact h.length u
      · exact h.nodup
      · exact h.fresh
      · exact fun q w' hw' => h.held_length q w' (hwrites q w' hw')
      · exact fun q w' hw' => h.held_nodup q w' (hwrites q w' hw')
      · exact fun q w' hw' => h.held_fresh q w' (hwrites q w' hw')

/-- An upload appends at most one entry. -/
theorem Db.length_wallet_upload (s : Db) (uid : String) (nft : NftArt) :
    ((s.step (.upload uid nft)).wallet uid).length = (s.wallet uid).length ∨
      ((s.step (.upload uid nft)).wallet uid).length = (s.wallet uid).length + 1 := by
  have hget : (s.step (.upload uid nft)).users.get uid =
      (s.users.get uid).map (postNFT nft) := by
    simp only [Db.step, Collection.get_update, if_pos]
  cases hdoc : s.users.get uid with
  | none =>
    rw [hdoc, Option.map_none] at hget
    exact .inl (congrArg List.length (Db.wallet_congr (hget.trans hdoc.symm)))
  | some doc =>
    rw [hdoc, Option.map_some] at hget
    rw [Db.wallet_of_get hget, Db.wallet_of_get hdoc, index_nft_postNFT]
    simp only [arrayUnion, List.foldl_cons, List.foldl_nil]
    split
    · exact .inl rfl
    · exact .inr (by simp [elements])

theorem Tracked.Sound.advance_upload {s : Tracked} (h : s.Sound) (page : Option DetailsPage)
    (uid : String) (nft : NftArt) : (s.advance page (.upload uid nft)).Sound := by
  have hother : ∀ u, u ≠ uid → (s.db.step (.upload uid nft)).wallet u = s.db.wallet u :=
    fun u hu => Db.wallet_congr (by simp only [Db.step, Collection.get_update, if_neg hu])
  have hnext := le_update_succ s.next uid
  -- an entry that is appended gets the identity an Add would give it
  obtain ⟨hnd, hlt⟩ := (Handler.addNft nft).nodup_onIds (h.nodup uid) (h.fresh uid)
  constructor
  · intro u
    simp only [Tracked.advance, Function.update_apply]
    split
    · rename_i hu
      subst hu
      rcases s.db.length_wallet_upload u nft with hsame | hmore
      · rw [if_neg (by omega), hsame]
        exact h.length u
      · rw [if_pos (by omega), hmore, List.length_append, h.length u]
        rfl
    · rename_i hu
      rw [hother u hu]
      exact h.length u
  · intro u
    simp only [Tracked.advance, Function.update_apply]
    split
    · split
      · exact hnd
      · exact h.nodup uid
    · exact h.nodup u
  · intro u i hi
    simp only [Tracked.advance, Function.update_apply] at hi ⊢
    split at hi
    · rename_i hu
      rw [if_pos hu]
      split at hi
      · exact hlt i hi
      · exact Nat.lt_succ_of_lt (h.fresh uid i hi)
    · rename_i hu
      rw [if_neg hu]
      exact h.fresh u i hi
  · exact h.held_length
  · exact h.held_nodup
  · exact fun p w hw i hi => (h.held_fresh p w hw i hi).trans_le (hnext w.uid)

/-- A registration or a deletion leaves an empty wallet. -/
theorem Tracked.Sound.empty {s : Tracked} (h : s.Sound) {uid : String} {db : Db}
    (hwrites : db.writes = s.db.writes) (hempty : db.wallet uid = [])
    (hother : ∀ u, u ≠ uid → db.wallet u = s.db.wallet u) :
    ({ s with db := db, ids := Function.update s.ids uid [] } : Tracked).Sound where
  length u := by
    simp only [Function.update_apply]
    split
    · rename_i hu
      rw [hu, hempty]
      rfl
    · rename_i hu
      rw [hother u hu]
      exact h.length u
  nodup u := by
    simp only [Function.update_apply]
    split
    · exact List.nodup_nil
    · exact h.nodup u
  fresh u i hi := by
    simp only [Function.update_apply] at hi
    split at hi
    · cases hi
    · exact h.fresh u i hi
  held_length p w hw := h.held_length p w (hwrites ▸ hw)
  held_nodup p w hw := h.held_nodup p w (hwrites ▸ hw)
  held_fresh p w hw := h.held_fresh p w (hwrites ▸ hw)

theorem Tracked.Sound.advance {s : Tracked} (h : s.Sound) (page : Option DetailsPage)
    (e : Event) : (s.advance page e).Sound := by
  cases e with
  | get p uid hd => exact h.advance_get page p uid hd
  | update p => exact h.advance_update page p
  | upload uid nft => exact h.advance_upload page uid nft
  | register uid name =>
    have hget := fun u => Collection.get_set s.db.users uid u (registerDoc name)
    refine h.empty rfl ?_ fun u hu => Db.wallet_congr ((hget u).trans (if_neg hu))
    have hreg : (s.db.step (.register uid name)).users.get uid = some (registerDoc name) :=
      (hget uid).trans (if_pos rfl)
    rw [Db.wallet_of_get hreg]
    rfl
  | deleteUser uid =>
    have hget := fun u => Collection.get_delete s.db.users uid u
    refine h.empty rfl ?_ fun u hu => Db.wallet_congr ((hget u).trans (if_neg hu))
    change elements (((s.db.users.delete uid).get uid).map (·.index "NFT") |>.getD .null) = []
    rw [hget, if_pos rfl]
    rfl

/-- The identities stay in step with the stored wallets, in every run. -/
theorem Tracked.Sound.step {s : Tracked} (h : s.Sound) (e : PageEvent) : (s.step e).Sound := by
  cases e with
  | other e => exact h.advance none e
  | loadGrid g uid => exact ⟨h.length, h.nodup, h.fresh, h.held_length, h.held_nodup, h.held_fresh⟩
  | openDetails k g index =>
    simp only [Tracked.step]
    split
    · exact ⟨h.length, h.nodup, h.fresh, h.held_length, h.held_nodup, h.held_fresh⟩
    · exact h
  | pressEdit k p nft =>
    simp only [Tracked.step]
    split
    · exact h.advance _ _
    · exact h
  | pressDelete k p =>
    simp only [Tracked.step]
    split
    · exact h.advance _ _
    · exact h

theorem Tracked.sound_run (users : Users) (es : List PageEvent) :
    (Machine.run Tracked.step (Tracked.start users) es).Sound :=
  Machine.run_invariant Tracked.step (fun _ e h => h.step e) (Tracked.sound_start users) es

/-! ## What a press of a details page hits -/

/-- The entries of a stored wallet with their identities. -/
def Tracked.entries (s : Tracked) (uid : String) : List (ℕ × Value) :=
  (s.ids uid).zip (s.db.wallet uid)

/-- Entry `i` of `L` is changed or removed in `L'`, and no other. -/
def OnlyEntry (i : ℕ) (L L' : List (ℕ × Value)) : Prop :=
  ∃ n v, L[n]? = some (i, v) ∧ (L' = L.eraseIdx n ∨ ∃ v', L' = L.set n (i, v'))

/-- A document before and after a write that changes none of its fields. -/
inductive Unchanged : Option Fields → Option Fields → Prop where
  | absent : Unchanged none none
  | present {doc doc' : Fields} (h : ∀ k, doc'.lookup k = doc.lookup k) :
      Unchanged (some doc) (some doc')

theorem Unchanged.index {before after : Option Fields} (h : Unchanged before after) (k : String) :
    after.map (·.index k) = before.map (·.index k) := by
  cases h with
  | absent => rfl
  | present h => simp only [Option.map_some, Fields.index, h k]

/-- A press of a details page writes nothing by itself, and its `update` changes or removes the
entry the page was opened at and no other, or leaves the document unchanged. -/
def HitsShown (s : Tracked) (e : PageEvent) : Prop :=
  (∀ k p nft, e = .pressEdit k p nft ∨ e = .pressDelete k p →
    (s.step e).db.users = s.db.users) ∧
  ∀ p w page, e = .other (.update p) → s.db.writes p = some w → s.owner p = some page →
    Unchanged (s.db.users.get page.nftUserID) ((s.step e).db.users.get page.nftUserID) ∨
      OnlyEntry page.entry (s.entries page.nftUserID) ((s.step e).entries page.nftUserID)

/-- The entries a pending press had read. -/
def Tracked.readEntries (s : Tracked) (p : ℕ) (seen : Fields) : List (ℕ × Value) :=
  (s.read p).zip (elements (seen.index "NFT"))

/-- A Delete of entry `n` finds it removed already, and every other field as it was read. -/
def AlreadyRemoved (n : ℕ) (h : Handler) (seen doc : Fields) : Prop :=
  h = .deleteNft n ∧
    (∃ xs, seen.index "NFT" = .list xs ∧ doc.lookup "NFT" = some (.list (xs.eraseIdx n))) ∧
    ∀ k v, k ≠ "NFT" → seen.lookup k = some v → doc.lookup k = some v

/-- The press read the entry its page was opened at at the page's index, and its `update` finds the
wallet it had read, up to the texts of that entry; or it is a Delete and that entry is gone
already. -/
def Aimed (s : Tracked) (e : PageEvent) : Prop :=
  ∀ p w page seen doc, e = .other (.update p) → s.db.writes p = some w →
    s.owner p = some page → w.seen = some seen → s.db.users.get w.uid = some doc →
      (∃ v₀ v, (s.readEntries p seen)[page.nftNumber]? = some (page.entry, v₀) ∧
        s.entries w.uid = (s.readEntries p seen).set page.nftNumber (page.entry, v)) ∨
      AlreadyRemoved page.nftNumber w.handler seen doc

/-- A pending press of a details page acts on the page's wallet at the page's index. -/
def Tracked.Linked (s : Tracked) : Prop :=
  ∀ p w page, s.db.writes p = some w → s.owner p = some page →
    w.uid = page.nftUserID ∧ w.handler.Addresses page.nftNumber ∧
      ∃ fresh, s.held p = w.handler.onIds fresh (s.read p)

theorem Tracked.Linked.advance_get {s : Tracked} (h : s.Linked) {page : Option DetailsPage}
    (p : ℕ) {uid : String} {hd : Handler}
    (hpage : ∀ pg, page = some pg → uid = pg.nftUserID ∧ hd.Addresses pg.nftNumber) :
    (s.advance page (.get p uid hd)).Linked := by
  cases hp : s.db.writes p with
  | some w =>
    simp only [advance, hp]
    exact h
  | none =>
    intro q w pg hw howner
    simp only [advance, hp] at hw howner ⊢
    by_cases hq : q = p
    · subst hq
      simp only [Function.update_self] at howner ⊢
      rcases Db.writes_step hw with hold | ⟨-, he, -⟩
      · rw [hp] at hold
        cases hold
      · obtain ⟨-, rfl, rfl⟩ := Event.get.inj he
        obtain ⟨huid, haddr⟩ := hpage pg howner
        exact ⟨huid, haddr, _, rfl⟩
    · simp only [Function.update_of_ne hq] at howner ⊢
      rcases Db.writes_step hw with hold | ⟨-, he, -⟩
      · exact h q w pg hold howner
      · exact absurd (Event.get.inj he).1.symm hq

/-- The other steps of the store begin no press. -/
theorem Tracked.Linked.advance_of_not_get {s : Tracked} (h : s.Linked)
    (page : Option DetailsPage) {e : Event} (he : ∀ p uid hd, e ≠ .get p uid hd) :
    (s.advance page e).Linked := by
  have hwrites : ∀ q w, (s.db.step e).writes q = some w → s.db.writes q = some w :=
    fun q w hw => by
      rcases Db.writes_step hw with hold | ⟨-, hget, -⟩
      · exact hold
      · exact absurd hget (he _ _ _)
  intro q w pg hw howner
  rw [db_advance] at hw
  cases e with
  | get p uid hd => exact absurd rfl (he p uid hd)
  | update p =>
    cases hp : s.db.writes p with
    | none =>
      simp only [advance, hp] at howner ⊢
      exact h q w pg (hwrites q w hw) howner
    | some w' =>
      simp only [advance, hp] at howner ⊢
      exact h q w pg (hwrites q w hw) howner
  | upload uid nft => exact h q w pg (hwrites q w hw) howner
  | register uid name => exact h q w pg (hwrites q w hw) howner
  | deleteUser uid => exact h q w pg (hwrites q w hw) howner

theorem Tracked.Linked.step {s : Tracked} (h : s.Linked) (e : PageEvent) : (s.step e).Linked := by
  cases e with
  | other e =>
    cases e with
    | get p uid hd => exact h.advance_get p fun pg hpg => by cases hpg
    | update p => exact h.advance_of_not_get none (by simp)
    | upload uid nft => exact h.advance_of_not_get none (by simp)
    | register uid name => exact h.advance_of_not_get none (by simp)
    | deleteUser uid => exact h.advance_of_not_get none (by simp)
  | loadGrid g uid => exact h
  | openDetails k g index =>
    simp only [Tracked.step]
    split
    · exact h
    · exact h
  | pressEdit k p nft =>
    simp only [Tracked.step]
    split
    · rename_i page hpage
      refine h.advance_get p fun pg hpg => ?_
      obtain rfl := Option.some.inj hpg
      exact ⟨rfl, .inr ⟨nft, rfl⟩⟩
    · exact h
  | pressDelete k p =>
    simp only [Tracked.step]
    split
    · rename_i page hpage
      refine h.advance_get p fun pg hpg => ?_
      obtain rfl := Option.some.inj hpg
      exact ⟨rfl, .inl rfl⟩
    · exact h

private theorem zip_set {ids : List ℕ} {xs : List Value} {n i : ℕ} (hi : ids[n]? = some i)
    (x : Value) : ids.zip (xs.set n x) = (ids.zip xs).set n (i, x) := by
  induction ids generalizing xs n with
  | nil => cases hi
  | cons j ids ih =>
    cases xs with
    | nil => rfl
    | cons y xs =>
      cases n with
      | zero =>
        obtain rfl := Option.some.inj hi
        rfl
      | succ n => exact congrArg _ (ih hi)

private theorem zip_eraseIdx (ids : List ℕ) (xs : List Value) (n : ℕ) :
    (ids.eraseIdx n).zip (xs.eraseIdx n) = (ids.zip xs).eraseIdx n := by
  induction ids generalizing xs n with
  | nil => rfl
  | cons j ids ih =>
    cases xs with
    | nil => simp
    | cons y xs =>
      cases n with
      | zero => rfl
      | succ n => exact congrArg _ (ih xs n)

/-- An NFT handler always carries a list. -/
theorem Write.isSome_nft {w : Write} (hr : w.handler.roleChoice = none) :
    (w.data.lookup "NFT").isSome := by
  obtain ⟨seen, -, hok⟩ := w.exists_seen
  obtain ⟨v, -, hdata⟩ := w.handler.data_of_nft hr hok
  rw [hdata, Fields.lookup_put_self]
  rfl

theorem Handler.Addresses.roleChoice {n : ℕ} {h : Handler} (ha : h.Addresses n) :
    h.roleChoice = none := by
  rcases ha with rfl | ⟨nft, rfl⟩ <;> rfl

/-- What Edit and Delete make of the entries they read: entry `n` changed, or removed. -/
theorem Handler.Addresses.zip_onIds {n i : ℕ} {h : Handler} (ha : h.Addresses n) {v v' v₀ : Value}
    (hok : h.onNft v = .ok v') {ids : List ℕ} (hi : (ids.zip (elements v))[n]? = some (i, v₀))
    (fresh : ℕ) :
    (h.onIds fresh ids).zip (elements v') = (ids.zip (elements v)).eraseIdx n ∨
      ∃ x, (h.onIds fresh ids).zip (elements v') = (ids.zip (elements v)).set n (i, x) := by
  rcases ha with rfl | ⟨nft, rfl⟩
  · cases v with
    | list xs =>
      simp only [onNft, Value.removeAt] at hok
      split at hok
      · obtain rfl := Except.ok.inj hok
        exact .inl (zip_eraseIdx ids xs n)
      · cases hok
    | _ => cases hok
  · obtain ⟨xs, m, rfl, -, rfl⟩ := editAt_eq_ok.mp hok
    have hid : ids[n]? = some i := by
      rw [List.getElem?_zip_eq_some] at hi
      exact hi.1
    exact .inr ⟨_, zip_set hid _⟩

/-- A Delete that finds its entry removed already changes no field. -/
theorem Write.lookup_of_alreadyRemoved {w : Write} {seen doc : Fields} {n : ℕ} {xs : List Value}
    (hok : w.handler.onPressed (some seen) = .ok w.data) (hdelete : w.handler = .deleteNft n)
    (hxs : seen.index "NFT" = .list xs)
    (hgone : doc.lookup "NFT" = some (.list (xs.eraseIdx n)))
    (hfields : ∀ k v, k ≠ "NFT" → seen.lookup k = some v → doc.lookup k = some v) (k : String) :
    (overwrite w.data doc).lookup k = doc.lookup k := by
  have hr : w.handler.roleChoice = none := by
    rw [hdelete]
    rfl
  by_cases hk : k = "NFT"
  · subst hk
    obtain ⟨v, hv, hdata⟩ := w.handler.data_of_nft hr hok
    rw [hdelete, hxs, Handler.onNft, Value.removeAt] at hv
    split at hv
    · obtain rfl := Except.ok.inj hv
      rw [hgone, hdata]
      exact lookup_overwrite_of_some (Fields.lookup_put_self seen "NFT" _)
    · cases hv
  · rw [lookup_overwrite, w.handler.lookup_of_ok hok hk fun hne => absurd hr hne]
    cases hv : seen.lookup k with
    | none => rw [Option.none_or]
    | some v => rw [Option.some_or, hfields k v hk hv]

/-- One step: an aimed `update` hits the entry the page was opened at. -/
theorem Tracked.Linked.hitsShown {s : Tracked} (h : s.Linked) {e : PageEvent}
    (haim : Aimed s e) : HitsShown s e := by
  refine ⟨?_, ?_⟩
  · intro k p nft he
    have hget : ∀ page uid hd, (s.advance page (.get p uid hd)).db.users = s.db.users :=
      fun page uid hd => by
        rw [db_advance]
        cases hp : s.db.writes p with
        | none => simp only [Db.step, hp]
        | some w => simp only [Db.step, hp]
    rcases he with rfl | rfl
    · simp only [Tracked.step]
      split
      · exact hget _ _ _
      · rfl
    · simp only [Tracked.step]
      split
      · exact hget _ _ _
      · rfl
  · rintro p w page rfl hw howner
    obtain ⟨huid, haddr, fresh, hheld⟩ := h p w page hw howner
    have hnft := w.isSome_nft haddr.roleChoice
    obtain ⟨seen, hseen, hok⟩ := w.exists_seen
    have hlist := w.handler.index_nft_of_ok hok
    rw [← huid]
    cases hdoc : s.db.users.get w.uid with
    | none =>
      left
      have hget : (s.db.step (.update p)).users.get w.uid = none := by
        simp only [Db.step, hw, Collection.get_update, if_pos, hdoc, Option.map_none]
      simp only [Tracked.step, db_advance, hget]
      exact .absent
    | some doc =>
      obtain ⟨hget, -⟩ := Db.step_update hw hdoc
      rcases haim p w page seen doc rfl hw howner hseen hdoc with
        ⟨v₀, v, hread, hstored⟩ | ⟨hdelete, ⟨xs, hxs, hgone⟩, hfields⟩
      · right
        have hlt : page.nftNumber < (s.readEntries p seen).length :=
          (List.getElem?_eq_some_iff.mp hread).1
        have hafter : (s.step (.other (.update p))).entries w.uid =
            (w.handler.onIds fresh (s.read p)).zip (elements (w.data.index "NFT")) := by
          have hboth : (s.db.users.get w.uid).isSome ∧ (w.data.lookup "NFT").isSome :=
            ⟨by rw [hdoc]; rfl, hnft⟩
          have hwallet : (s.db.step (.update p)).wallet w.uid = elements (w.data.index "NFT") :=
            (Db.wallet_step_update hw w.uid).trans (if_pos ⟨rfl, hboth⟩)
          simp only [entries, Tracked.step, advance, hw, if_pos hboth, Function.update_self,
            hwallet, hheld]
        refine ⟨page.nftNumber, v, by rw [hstored, List.getElem?_set_self hlt], ?_⟩
        rw [hafter, hstored, List.eraseIdx_set_eq]
        rcases haddr.zip_onIds hlist hread fresh with herase | ⟨x, hset⟩
        · exact .inl herase
        · exact .inr ⟨x, by rw [List.set_set]; exact hset⟩
      · left
        simp only [Tracked.step, db_advance, hget]
        exact .present (w.lookup_of_alreadyRemoved hok hdelete hxs hgone hfields)

/-- **Edit and Delete hit the entry on screen**, when every press is aimed at it. -/
theorem details_press_hits_shown {users : Users} {es : List PageEvent}
    (haim : Machine.Along Tracked.step Aimed (Tracked.start users) es) :
    Machine.Along Tracked.step HitsShown (Tracked.start users) es := by
  have hstart : (Tracked.start users).Linked := fun p w page hw => by cases hw
  exact haim.imp (fun s e h _ => h.step e) (fun s e h => h.hitsShown) hstart

/-- A wallet of two entries. -/
def twoEntries : Users :=
  Collection.set ∅ "ann" [("name", .str "Ann"), ("role", .str "user"),
    ("NFT", .list [nftMap ⟨"a", "i", "d"⟩, nftMap ⟨"b", "i", "d"⟩])]

/-- A page opened at the first entry, whose Delete is pressed once. -/
def oneDelete : List PageEvent :=
  [.loadGrid 0 "ann", .openDetails 0 0 0, .pressDelete 0 0, .other (.update 0)]

/-- The same page, with Delete pressed a second time after the first has finished. -/
def secondDelete : List PageEvent := oneDelete ++ [.pressDelete 0 1, .other (.update 1)]

theorem details_press_hits_shown_oneDelete :
    Machine.Along Tracked.step HitsShown (Tracked.start twoEntries) oneDelete := by
  refine details_press_hits_shown ⟨?_, ?_, ?_, ?_, trivial⟩
  · exact fun p w page seen doc he => by cases he
  · exact fun p w page seen doc he => by cases he
  · exact fun p w page seen doc he => by cases he
  · intro p w page seen doc he hw howner hseen hdoc
    obtain rfl : 0 = p := Event.update.inj (PageEvent.other.inj he)
    obtain rfl := Option.some.inj hw
    obtain rfl := Option.some.inj howner
    obtain rfl := Option.some.inj (hdoc.symm.trans hseen)
    obtain rfl := Option.some.inj hseen
    exact .inl ⟨nftMap ⟨"a", "i", "d"⟩, nftMap ⟨"a", "i", "d"⟩, rfl, rfl⟩

/-- The second Delete removes the entry that moved to the index of the first. -/
theorem secondDelete_not_hitsShown :
    ¬ Machine.Along Tracked.step HitsShown (Tracked.start twoEntries) secondDelete := by
  intro h
  obtain ⟨-, -, -, -, -, ⟨-, hlast⟩, -⟩ := h
  rcases hlast 1 _ ⟨"ann", 0, 0⟩ rfl rfl rfl with hsame | ⟨n, v, hn, -⟩
  · -- the stored list was `[b]` before the press and is empty after it
    have hlength := congrArg (fun v : Option Value => (elements (v.getD .null)).length)
      (hsame.index "NFT")
    exact absurd hlength (by decide)
  · -- the entry the page was opened at is not in the wallet any more
    cases n with
    | zero =>
      have hid : some 1 = some 0 := congrArg (Option.map Prod.fst) hn
      exact absurd hid (by decide)
    | succ n => cases hn

end FlutterThree
