import FlutterThree.Users

/-!
# The wallet the apps are about

`Profile.apply` states the purpose of each operation on what a document is about: append for Add,
append what is missing for an upload, replace or remove exactly entry `n` for Edit and Delete, set
the role for a role choice. Edit and Delete of an entry the wallet does not have are refused.

The handlers of `FlutterThree.Handlers` refine it: on a document that stores a profile they compute
a document storing the result, and raise where the operation is refused. The refinement is proved
once, for every relation between stored and shown entries that the apps' writes respect
(`EntryRel`); over runs of any interleaving it gives that every document ever stored or pending
stores some profile (`AllStore`).
-/

namespace FlutterThree

open Dart Firestore

/-! ## The abstract operations -/

/-- What an NFT handler is for; `none` when it is refused. -/
def Handler.onWallet : Handler → Wallet → Option Wallet
  | .addNft nft, w => some (w ++ [nft.entry])
  | .editNft n nft, w => if n < w.length then some (w.set n nft.entry) else none
  | .deleteNft n, w => if n < w.length then some (w.eraseIdx n) else none
  | .chooseRole _, w => some w

/-- What an upload is for. -/
def Wallet.upload (nft : NftArt) (w : Wallet) : Wallet :=
  if nft.entry ∈ w then w else w ++ [nft.entry]

/-- What an operation is for; `none` when it is refused. -/
def Profile.apply (p : Profile) : Op → Option Profile
  | .handler h =>
    (h.onWallet p.wallet).map fun w => { p with role := h.roleChoice.getD p.role, wallet := w }
  | .upload nft => some { p with wallet := Wallet.upload nft p.wallet }

/-- The profile after an operation that may be refused. -/
def Profile.after (p : Profile) (o : Op) : Profile := (p.apply o).getD p

/-! ## Stored entries -/

/-- The assignments of 'Edit NFT' on one entry. -/
def editTexts (nft : NftArt) (v : Value) : Except DartError Value := do
  let v ← v.assign "desc" nft.desc
  let v ← v.assign "image" nft.image
  v.assign "name" nft.name

/-- A relation between stored and shown entries that what the apps write respects. -/
structure EntryRel (R : Value → Entry → Prop) : Prop where
  literal : ∀ nft : NftArt, R (nftMap nft) nft.entry
  edit : ∀ v e (nft : NftArt), R v e → ∃ v', editTexts nft v = .ok v' ∧ R v' nft.entry

theorem entryRel_showsTexts : EntryRel ShowsTexts where
  literal _ := ⟨_, rfl, rfl, rfl, rfl⟩
  edit v e nft h := by
    obtain ⟨m, rfl, -⟩ := h
    refine ⟨_, rfl, _, rfl, ?_, ?_, ?_⟩
    · exact Fields.lookup_put_self _ _ _
    · rw [Fields.lookup_put_ne _ (by decide), Fields.lookup_put_self]
      rfl
    · rw [Fields.lookup_put_ne _ (by decide), Fields.lookup_put_ne _ (by decide),
        Fields.lookup_put_self]
      rfl

theorem entryRel_isLiteral : EntryRel IsLiteral where
  literal _ := rfl
  edit v e nft h := by
    obtain rfl : v = _ := h
    exact ⟨_, rfl, rfl⟩

/-- 'Edit NFT' on a list. -/
theorem editAt_list (n : ℕ) (nft : NftArt) {xs : List Value} (hn : n < xs.length) :
    editAt n nft (.list xs) = editTexts nft xs[n] >>= fun v => .ok (.list (xs.set n v)) := by
  have hset : ∀ v : Value, (xs.set n v)[n]? = some v := fun v => by
    rw [List.getElem?_set_self hn]
  unfold editAt editTexts
  simp only [Value.assignAt, List.getElem?_eq_getElem hn]
  cases xs[n].assign "desc" nft.desc with
  | error x => rfl
  | ok v₁ =>
    simp only [ok_bind, pure_eq_ok, hset, List.set_set]
    cases v₁.assign "image" nft.image with
    | error x => rfl
    | ok v₂ =>
      simp only [ok_bind, hset, List.set_set]

theorem editAt_list_out (n : ℕ) (nft : NftArt) {xs : List Value} (hn : xs.length ≤ n) :
    editAt n nft (.list xs) = .error .rangeError := by
  simp only [editAt, Value.assignAt, List.getElem?_eq_none hn, error_bind]

private theorem forall₂_set {R : Value → Entry → Prop} {xs : List Value} {w : Wallet}
    (h : List.Forall₂ R xs w) {v : Value} {e : Entry} (hve : R v e) (n : ℕ) :
    List.Forall₂ R (xs.set n v) (w.set n e) := by
  induction h generalizing n with
  | nil => exact .nil
  | cons hx hxs ih =>
    cases n with
    | zero => exact .cons hve hxs
    | succ n => exact .cons hx (ih n)

private theorem forall₂_eraseIdx {R : Value → Entry → Prop} {xs : List Value} {w : Wallet}
    (h : List.Forall₂ R xs w) (n : ℕ) : List.Forall₂ R (xs.eraseIdx n) (w.eraseIdx n) := by
  induction h generalizing n with
  | nil => exact .nil
  | cons hx hxs ih =>
    cases n with
    | zero => exact hxs
    | succ n => exact .cons hx (ih n)

section Refinement

variable {R : Value → Entry → Prop}

/-- On a stored list a handler does what it is for, or raises. -/
theorem Handler.onNft_refines (hR : EntryRel R) (h : Handler) {xs : List Value} {w : Wallet}
    (hxs : List.Forall₂ R xs w) :
    (∀ w', h.onWallet w = some w' →
      ∃ xs', h.onNft (.list xs) = .ok (.list xs') ∧ List.Forall₂ R xs' w') ∧
    (h.onWallet w = none → h.onNft (.list xs) = .error .rangeError) := by
  have hlen := hxs.length_eq
  cases h with
  | addNft nft =>
    refine ⟨fun w' hw' => ?_, fun hw' => by cases hw'⟩
    obtain rfl := Option.some.inj hw'
    exact ⟨_, rfl, List.rel_append hxs (.cons (hR.literal nft) .nil)⟩
  | editNft n nft =>
    simp only [onWallet, onNft]
    by_cases hn : n < w.length
    · have hn' : n < xs.length := by omega
      obtain ⟨v', hv', hRv'⟩ := hR.edit _ _ nft (hxs.get hn' hn)
      rw [if_pos hn, editAt_list n nft hn', show editTexts nft xs[n] = .ok v' from hv']
      refine ⟨fun w' hw' => ?_, fun hw' => by cases hw'⟩
      obtain rfl := Option.some.inj hw'
      exact ⟨_, rfl, forall₂_set hxs hRv' n⟩
    · rw [if_neg hn, editAt_list_out n nft (by omega)]
      refine ⟨fun w' hw' => ?_, fun _ => rfl⟩
      cases hw'
  | deleteNft n =>
    simp only [onWallet, onNft, Value.removeAt, hlen]
    by_cases hn : n < w.length
    · rw [if_pos hn, if_pos hn]
      refine ⟨fun w' hw' => ?_, fun hw' => by cases hw'⟩
      obtain rfl := Option.some.inj hw'
      exact ⟨_, rfl, forall₂_eraseIdx hxs n⟩
    · rw [if_neg hn, if_neg hn]
      refine ⟨fun w' hw' => ?_, fun _ => rfl⟩
      cases hw'
  | chooseRole r =>
    refine ⟨fun w' hw' => ?_, fun hw' => by cases hw'⟩
    obtain rfl := Option.some.inj hw'
    exact ⟨xs, rfl, hxs⟩

theorem Stores.index_nft {doc : Fields} {p : Profile} (h : Stores R doc p) :
    ∃ xs, doc.index "NFT" = .list xs ∧ List.Forall₂ R xs p.wallet := by
  obtain ⟨xs, hxs, hw⟩ := h.nft
  exact ⟨xs, Fields.index_of_lookup hxs, hw⟩

/-- A document that stores a profile stores it with the list replaced. -/
theorem Stores.put_nft {doc : Fields} {p : Profile} (h : Stores R doc p) {xs : List Value}
    {w : Wallet} (hxs : List.Forall₂ R xs w) :
    Stores R (doc.put "NFT" (.list xs)) { p with wallet := w } where
  name := (Fields.lookup_put_ne doc (by decide) _).trans h.name
  role := (Fields.lookup_put_ne doc (by decide) _).trans h.role
  nft := ⟨xs, Fields.lookup_put_self doc "NFT" _, hxs⟩

theorem Stores.put_role {doc : Fields} {p : Profile} (h : Stores R doc p) (r : RoleItem) :
    Stores R (doc.put "role" (.str r.value)) { p with role := r } where
  name := (Fields.lookup_put_ne doc (by decide) _).trans h.name
  role := Fields.lookup_put_self doc "role" _
  nft := by
    rw [Fields.lookup_put_ne doc (by decide)]
    exact h.nft

/-- Writing back a whole document leaves what it stores, whatever was there. -/
theorem Stores.writeBack {data : Fields} {p : Profile} (h : Stores R data p) (doc : Fields) :
    Stores R (overwrite data doc) p where
  name := lookup_overwrite_of_some h.name
  role := lookup_overwrite_of_some h.role
  nft := by
    obtain ⟨xs, hxs, hw⟩ := h.nft
    exact ⟨xs, lookup_overwrite_of_some hxs, hw⟩

/-- A handler computes a document storing the result of its operation, or raises. -/
theorem Handler.onPressed_refines (hR : EntryRel R) (h : Handler) {d : Fields} {p : Profile}
    (hd : Stores R d p) :
    (∀ p', p.apply (.handler h) = some p' →
      ∃ data, h.onPressed (some d) = .ok data ∧ Stores R data p') ∧
    (p.apply (.handler h) = none → h.onPressed (some d) = .error .rangeError) := by
  obtain ⟨xs, hxs, hw⟩ := hd.index_nft
  obtain ⟨hok, herr⟩ := h.onNft_refines hR hw
  cases hr : h.roleChoice with
  | some r =>
    cases h with
    | chooseRole r' =>
      refine ⟨fun p' hp' => ?_, fun hp' => by cases hp'⟩
      obtain rfl := Option.some.inj hp'
      exact ⟨_, rfl, hd.put_role r'⟩
    | _ => cases hr
  | none =>
    rw [h.onPressed_eq hr, hxs]
    cases happly : h.onWallet p.wallet with
    | none =>
      rw [herr happly]
      refine ⟨fun p' hp' => ?_, fun _ => rfl⟩
      rw [Profile.apply, happly] at hp'
      cases hp'
    | some w' =>
      obtain ⟨xs', hxs', hw'⟩ := hok w' happly
      rw [hxs']
      refine ⟨fun p' hp' => ?_, fun hp' => ?_⟩
      · rw [Profile.apply, happly, hr] at hp'
        obtain rfl := Option.some.inj hp'
        exact ⟨_, rfl, hd.put_nft hw'⟩
      · rw [Profile.apply, happly] at hp'
        cases hp'

/-- The list after an upload: the new map is appended unless an equal one is there. -/
theorem arrayUnion_singleton (xs : List Value) (x : Value) :
    arrayUnion (.list xs) [x] = .list (if xs.any (same x) then xs else xs ++ [x]) := rfl

/-- An upload keeps name and role, and replaces the list by what `arrayUnion` makes of it. -/
theorem Stores.upload {doc : Fields} {p : Profile} (h : Stores R doc p) {nft : NftArt}
    {xs : List Value} {w : Wallet} (hnft : arrayUnion (doc.index "NFT") [nftMap nft] = .list xs)
    (hxs : List.Forall₂ R xs w) : Stores R (postNFT nft doc) { p with wallet := w } where
  name := (lookup_postNFT nft doc (by decide)).trans h.name
  role := (lookup_postNFT nft doc (by decide)).trans h.role
  nft := ⟨xs, lookup_overwrite_of_some (by rw [hnft]; rfl), hxs⟩

/-- Whatever `arrayUnion` finds equal, an upload leaves a document that stores a profile. -/
theorem Stores.exists_upload (hR : EntryRel R) {doc : Fields} {p : Profile}
    (h : Stores R doc p) (nft : NftArt) : ∃ p', Stores R (postNFT nft doc) p' := by
  obtain ⟨xs, hxs, hw⟩ := h.index_nft
  have hunion := arrayUnion_singleton xs (nftMap nft)
  rw [← hxs] at hunion
  by_cases hany : xs.any (same (nftMap nft))
  · rw [if_pos hany] at hunion
    exact ⟨_, h.upload hunion hw⟩
  · rw [if_neg hany] at hunion
    exact ⟨_, h.upload hunion (List.rel_append hw (.cons (hR.literal nft) .nil))⟩

theorem stores_registerDoc (name : String) :
    Stores R (registerDoc name) ⟨name, .user, []⟩ where
  name := rfl
  role := rfl
  nft := ⟨[], rfl, .nil⟩

/-! ## Every document ever stored or pending stores a profile -/

/-- Every stored document, and every map a pending press will write, stores a profile. -/
structure AllStore (R : Value → Entry → Prop) (s : Db) : Prop where
  users : ∀ uid doc, s.users.get uid = some doc → ∃ p, Stores R doc p
  writes : ∀ i w, s.writes i = some w → ∃ p, Stores R w.data p

theorem AllStore.start {users : Users}
    (h : ∀ uid doc, users.get uid = some doc → ∃ p, Stores R doc p) :
    AllStore R (Db.start users) where
  users := h
  writes i w hw := by cases hw

/-- The map computed from a document that stores a profile stores one. -/
theorem Write.stores_data (hR : EntryRel R) (w : Write)
    (h : ∀ d, w.seen = some d → ∃ p, Stores R d p) : ∃ p, Stores R w.data p := by
  obtain ⟨d, hd, hok⟩ := w.exists_seen
  obtain ⟨p, hp⟩ := h d hd
  obtain ⟨hsome, hnone⟩ := w.handler.onPressed_refines hR hp
  cases happly : p.apply (.handler w.handler) with
  | none =>
    rw [hnone happly] at hok
    cases hok
  | some p' =>
    obtain ⟨data, hdata, hp'⟩ := hsome p' happly
    rw [hdata] at hok
    exact ⟨p', Except.ok.inj hok ▸ hp'⟩

/-- Every step keeps `AllStore`: each writer writes a document that stores a profile, and a stale
map still stores the one it was computed for. -/
theorem AllStore.step (hR : EntryRel R) {s : Db} (h : AllStore R s) (e : Event) :
    AllStore R (s.step e) where
  users uid doc hdoc := by
    have hstep := s.docStep e uid
    rw [hdoc] at hstep
    generalize hlog : (s.step e).log = log at hstep
    generalize hres : some doc = res at hstep
    cases hstep with
    | keep => exact h.users uid doc hres.symm
    | other c hc => exact h.users uid doc hres.symm
    | update p w doc' he hw huid hdoc' =>
      -- a stale map is as good as the document: it has all the fields
      obtain rfl := Option.some.inj hres
      obtain ⟨q, hq⟩ := h.writes p w hw
      exact ⟨q, hq.writeBack doc'⟩
    | upload nft doc' he hdoc' =>
      obtain rfl := Option.some.inj hres
      obtain ⟨q, hq⟩ := h.users uid doc' hdoc'
      exact hq.exists_upload hR nft
    | register name he =>
      obtain rfl := Option.some.inj hres
      exact ⟨_, stores_registerDoc name⟩
    | delete he => cases hres
  writes i w hw := by
    rcases Db.writes_step hw with hold | ⟨-, -, hseen⟩
    · exact h.writes i w hold
    · exact w.stores_data hR fun d hd => h.users w.uid d (hseen ▸ hd)

theorem AllStore.run (hR : EntryRel R) {s : Db} (h : AllStore R s) (es : List Event) :
    AllStore R (Machine.run Db.step s es) :=
  Machine.run_invariant Db.step (fun _ e hs => hs.step hR e) h es

end Refinement

end FlutterThree
