import FlutterThree.Wallet

/-!
# What holds of every stored document

`reachable_documents_decode`: from a well-formed collection, no interleaving of the apps' writes
stores a document that one of the two decoders refuses, and the two decode the same wallet.

`handlers_refine_wallet`: operations run one after another act on the decoded wallet as
`Wallet.after` says. Documents that go back to a registration hold their entries exactly as the apps
write them, so `arrayUnion` finds an entry present just when the wallet shows it.
-/

namespace FlutterThree

open Dart Firestore

/-! ## Documents stay well-formed -/

theorem allStore_start_of_wellFormed {users : Users}
    (h : ∀ uid doc, users.get uid = some doc → WellFormed doc) :
    AllStore ShowsTexts (Db.start users) :=
  .start fun uid doc hdoc => (h uid doc hdoc).exists_stores

/-- **Every reachable document decodes in both apps.** -/
theorem reachable_documents_decode {users : Users}
    (h : ∀ uid doc, users.get uid = some doc → WellFormed doc) (es : List Event) {uid : String}
    {doc : Fields} (hdoc : (Machine.run Db.step (Db.start users) es).users.get uid = some doc) :
    WellFormed doc ∧
      ∃ u a, NftUser.fromJson doc uid = .ok u ∧ AllNFT.fromJson doc = .ok a ∧
        u.nfts.map NftArt.entry = a.all.map NFT.entry ∧ u.role ∈ roleItems := by
  have hall := (allStore_start_of_wellFormed h).run entryRel_showsTexts es
  obtain ⟨p, hp⟩ := hall.users uid doc hdoc
  refine ⟨hp.wellFormed, _, _, NftUser.fromJson_of_stores hp uid, AllNFT.fromJson_of_stores hp,
    ?_, p.role.value_mem⟩
  rw [List.map_map, List.map_map]
  rfl

/-- A collection with one registered user. -/
def oneUser : Users := Collection.set ∅ "ann" (registerDoc "Ann")

theorem wellFormed_oneUser (uid : String) (doc : Fields) (h : oneUser.get uid = some doc) :
    WellFormed doc := by
  rw [oneUser, Collection.get_set] at h
  split at h
  · obtain rfl := Option.some.inj h
    exact (stores_registerDoc "Ann").wellFormed
  · cases h

/-- An Add that straddles the deletion and a new registration of its user. -/
theorem reachable_documents_decode_straddling :
    ∃ doc, (Machine.run Db.step (Db.start oneUser)
        [.get 0 "ann" (.addNft ⟨"a", "i", "d"⟩), .deleteUser "ann", .register "ann" "Anna",
          .update 0]).users.get "ann" = some doc ∧
      WellFormed doc ∧
        ∃ u a, NftUser.fromJson doc "ann" = .ok u ∧ AllNFT.fromJson doc = .ok a ∧
          u.nfts.map NftArt.entry = a.all.map NFT.entry ∧ u.role ∈ roleItems :=
  ⟨_, rfl, reachable_documents_decode wellFormed_oneUser
    [.get 0 "ann" (.addNft ⟨"a", "i", "d"⟩), .deleteUser "ann", .register "ann" "Anna", .update 0]
    rfl⟩

/-! ## Operations run one after another -/

/-- The steps of one operation, with nothing in between. -/
def Op.events (p : ℕ) (uid : String) : Op → List Event
  | .handler h => [.get p uid h, .update p]
  | .upload nft => [.upload uid nft]

/-- What an operation does to the wallet both apps show. -/
def Wallet.after (w : Wallet) : Op → Wallet
  | .handler h => (h.onWallet w).getD w
  | .upload nft => w.upload nft

theorem Write.begin_of_ok {uid : String} {h : Handler} {seen : Option Fields} {data : Fields}
    (hok : h.onPressed seen = .ok data) :
    Write.begin uid h seen = some ⟨uid, h, seen, data, hok⟩ := by
  unfold Write.begin
  split
  · rename_i data' hdata'
    obtain rfl := Except.ok.inj (hok.symm.trans hdata')
    rfl
  · rename_i x hx
    cases hok.symm.trans hx

theorem Write.begin_of_error {uid : String} {h : Handler} {seen : Option Fields} {x : DartError}
    (herr : h.onPressed seen = .error x) : Write.begin uid h seen = none := by
  unfold Write.begin
  split
  · rename_i data hdata
    cases herr.symm.trans hdata
  · rfl

/-- A press whose two steps have nothing in between and whose handler returns. -/
theorem Db.run_press_ok {s : Db} {p : ℕ} (hp : s.writes p = none) {uid : String} {h : Handler}
    {data : Fields} (hok : h.onPressed (s.users.get uid) = .ok data) :
    Machine.run Db.step s [.get p uid h, .update p] =
      { s with
        users := s.users.update uid (overwrite data)
        log := s.log ++ s.committed uid (.handler h) } := by
  have hget : s.step (.get p uid h) =
      { s with writes := Function.update s.writes p (some ⟨uid, h, _, data, hok⟩) } := by
    simp only [Db.step, hp, Write.begin_of_ok hok]
  have hidle : Function.update s.writes p none = s.writes := by
    rw [← hp, Function.update_eq_self]
  rw [Machine.run_cons, Machine.run_cons, Machine.run_nil, hget]
  simp only [Db.step, Function.update_self, Function.update_idem, hidle]
  rfl

/-- A press whose handler raises writes nothing. -/
theorem Db.run_press_error {s : Db} {p : ℕ} (hp : s.writes p = none) {uid : String} {h : Handler}
    {x : DartError} (herr : h.onPressed (s.users.get uid) = .error x) :
    Machine.run Db.step s [.get p uid h, .update p] = s := by
  have hidle : Function.update s.writes p none = s.writes := by
    rw [← hp, Function.update_eq_self]
  have hget : s.step (.get p uid h) = s := by
    simp only [Db.step, hp, Write.begin_of_error herr, hidle]
  rw [Machine.run_cons, Machine.run_cons, Machine.run_nil, hget]
  simp only [Db.step, hp]

/-- The maps of two NFTs are equal just when their texts are. -/
theorem same_nftMap (a b : NftArt) : same (nftMap a) (nftMap b) = true ↔ a.entry = b.entry := by
  simp only [nftMap, same, sameFields, Fields.lookup_cons, List.length_cons, List.length_nil,
    NftArt.entry, Entry.mk.injEq]
  simp

theorem any_same_iff_mem {xs : List Value} {w : Wallet} (h : List.Forall₂ IsLiteral xs w)
    (nft : NftArt) : xs.any (same (nftMap nft)) = true ↔ nft.entry ∈ w := by
  induction h with
  | nil => simp
  | @cons v e xs w hv _ ih =>
    obtain rfl : v = _ := hv
    rw [List.any_cons, Bool.or_eq_true, ih, same_nftMap, List.mem_cons]
    rfl

/-- On entries as the apps write them, an upload does what it is for. -/
theorem Stores.upload_literal {doc : Fields} {p : Profile} (h : Stores IsLiteral doc p)
    (nft : NftArt) : Stores IsLiteral (postNFT nft doc) (p.after (.upload nft)) := by
  obtain ⟨xs, hxs, hw⟩ := h.index_nft
  have hunion := arrayUnion_singleton xs (nftMap nft)
  rw [← hxs] at hunion
  change Stores IsLiteral (postNFT nft doc)
    { p with wallet := Wallet.upload nft p.wallet }
  unfold Wallet.upload
  by_cases hmem : nft.entry ∈ p.wallet
  · rw [if_pos ((any_same_iff_mem hw nft).mpr hmem)] at hunion
    rw [if_pos hmem]
    exact h.upload hunion hw
  · rw [if_neg (mt (any_same_iff_mem hw nft).mp hmem)] at hunion
    rw [if_neg hmem]
    exact h.upload hunion (List.rel_append hw (.cons (entryRel_isLiteral.literal nft) .nil))

/-- One operation, run to completion on a document that stores a profile. -/
theorem Db.run_op {s : Db} {p : ℕ} (hp : s.writes p = none) {uid : String} {doc : Fields}
    (hdoc : s.users.get uid = some doc) {q : Profile} (hq : Stores IsLiteral doc q) (o : Op) :
    ∃ doc', (Machine.run Db.step s (o.events p uid)).users.get uid = some doc' ∧
      Stores IsLiteral doc' (q.after o) ∧
      (Machine.run Db.step s (o.events p uid)).writes p = none := by
  cases o with
  | upload nft =>
    refine ⟨postNFT nft doc, ?_, hq.upload_literal nft, hp⟩
    change (s.users.update uid (postNFT nft)).get uid = _
    rw [Collection.get_update, if_pos rfl, hdoc, Option.map_some]
  | handler h =>
    obtain ⟨hsome, hnone⟩ := h.onPressed_refines entryRel_isLiteral hq
    rw [← hdoc] at hsome hnone
    unfold Op.events Profile.after
    cases happly : q.apply (.handler h) with
    | none =>
      -- refused on the wallet: the handler raises and writes nothing
      rw [Db.run_press_error hp (hnone happly)]
      exact ⟨doc, hdoc, hq, hp⟩
    | some q' =>
      obtain ⟨data, hdata, hq'⟩ := hsome q' happly
      rw [Db.run_press_ok hp hdata]
      refine ⟨overwrite data doc, ?_, hq'.writeBack doc, hp⟩
      rw [Collection.get_update, if_pos rfl, hdoc, Option.map_some]

/-- Operations run one after another. -/
theorem Db.run_ops {s : Db} {p : ℕ} (hp : s.writes p = none) {uid : String} {doc : Fields}
    (hdoc : s.users.get uid = some doc) {q : Profile} (hq : Stores IsLiteral doc q)
    (ops : List Op) :
    ∃ doc', (Machine.run Db.step s (ops.flatMap (Op.events p uid))).users.get uid = some doc' ∧
      Stores IsLiteral doc' (ops.foldl Profile.after q) ∧
      (Machine.run Db.step s (ops.flatMap (Op.events p uid))).writes p = none := by
  induction ops generalizing s doc q with
  | nil => exact ⟨doc, hdoc, hq, hp⟩
  | cons o ops ih =>
    obtain ⟨doc₁, hdoc₁, hq₁, hp₁⟩ := Db.run_op hp hdoc hq o
    rw [List.flatMap_cons, Machine.run_append, List.foldl_cons]
    exact ih hp₁ hdoc₁ hq₁

theorem Profile.wallet_after (p : Profile) (o : Op) : (p.after o).wallet = p.wallet.after o := by
  cases o with
  | upload nft => rfl
  | handler h =>
    simp only [Profile.after, Profile.apply, Wallet.after]
    cases h.onWallet p.wallet <;> rfl

theorem Profile.name_after (p : Profile) (o : Op) : (p.after o).name = p.name := by
  cases o with
  | upload nft => rfl
  | handler h =>
    simp only [Profile.after, Profile.apply]
    cases h.onWallet p.wallet <;> rfl

theorem Profile.role_after (p : Profile) {o : Op} (ho : o.roleChoice = none) :
    (p.after o).role = p.role := by
  cases o with
  | upload nft => rfl
  | handler h =>
    have hr : h.roleChoice = none := ho
    simp only [Profile.after, Profile.apply, hr]
    cases h.onWallet p.wallet <;> rfl

theorem Profile.wallet_foldl_after (p : Profile) (ops : List Op) :
    (ops.foldl Profile.after p).wallet = ops.foldl Wallet.after p.wallet := by
  induction ops generalizing p with
  | nil => rfl
  | cons o ops ih => rw [List.foldl_cons, List.foldl_cons, ih, p.wallet_after]

theorem Profile.name_foldl_after (p : Profile) (ops : List Op) :
    (ops.foldl Profile.after p).name = p.name := by
  induction ops generalizing p with
  | nil => rfl
  | cons o ops ih => rw [List.foldl_cons, ih, p.name_after]

theorem Profile.role_foldl_after (p : Profile) {ops : List Op} (hops : ∀ o ∈ ops, o.roleChoice = none) :
    (ops.foldl Profile.after p).role = p.role := by
  induction ops generalizing p with
  | nil => rfl
  | cons o ops ih =>
    rw [List.foldl_cons, ih (p.after o) fun o' ho' => hops o' (List.mem_cons_of_mem o ho'),
      p.role_after (hops o List.mem_cons_self)]

/-- A refused handler raises and leaves the collection as it was. -/
theorem Db.run_refused {s : Db} {p : ℕ} (hp : s.writes p = none) {uid : String} {doc : Fields}
    (hdoc : s.users.get uid = some doc) {q : Profile} (hq : Stores IsLiteral doc q) {h : Handler}
    (href : h.onWallet q.wallet = none) :
    h.onPressed (some doc) = .error .rangeError ∧
      (Machine.run Db.step s (Op.events p uid (.handler h))).users = s.users := by
  have hraise := (h.onPressed_refines entryRel_isLiteral hq).2
    (by rw [Profile.apply, href, Option.map_none])
  refine ⟨hraise, ?_⟩
  rw [← hdoc] at hraise
  exact congrArg Db.users (Db.run_press_error hp hraise)

/-- **The document-level handlers refine the wallet both apps show.** -/
theorem handlers_refine_wallet (es : List Event) (p : ℕ)
    (hp : (Machine.run Db.step (Db.start ∅) es).writes p = none) {uid : String} {doc : Fields}
    (hdoc : (Machine.run Db.step (Db.start ∅) es).users.get uid = some doc) (ops : List Op) :
    ∃ w doc', adminWallet doc uid = .ok w ∧ clientWallet doc = .ok w ∧
      (Machine.run Db.step (Db.start ∅) (es ++ ops.flatMap (Op.events p uid))).users.get uid =
        some doc' ∧
      adminWallet doc' uid = .ok (ops.foldl Wallet.after w) ∧
      clientWallet doc' = .ok (ops.foldl Wallet.after w) ∧
      (∀ n, (ops.foldl Wallet.after w).length ≤ n → ∀ h : Handler, h.Addresses n →
        (∃ x, h.onPressed (some doc') = .error x) ∧
        (Machine.run Db.step (Db.start ∅) (es ++ ops.flatMap (Op.events p uid) ++
          Op.events p uid (.handler h))).users =
          (Machine.run Db.step (Db.start ∅) (es ++ ops.flatMap (Op.events p uid))).users) ∧
      doc'.lookup "name" = doc.lookup "name" ∧
      ((∀ o ∈ ops, o.roleChoice = none) → doc'.lookup "role" = doc.lookup "role") := by
  have hall : AllStore IsLiteral (Machine.run Db.step (Db.start ∅) es) :=
    (AllStore.start fun _ _ hempty => by cases hempty).run entryRel_isLiteral es
  obtain ⟨q, hq⟩ := hall.users uid doc hdoc
  have hqt : Stores ShowsTexts doc q := hq.mono fun _ _ => IsLiteral.showsTexts
  obtain ⟨doc', hdoc', hq', hp'⟩ := Db.run_ops hp hdoc hq ops
  rw [← Machine.run_append] at hdoc' hp'
  have hqt' : Stores ShowsTexts doc' _ := hq'.mono fun _ _ => IsLiteral.showsTexts
  have hwallet := q.wallet_foldl_after ops
  refine ⟨q.wallet, doc', hqt.adminWallet uid, hqt.clientWallet, hdoc',
    hwallet ▸ hqt'.adminWallet uid, hwallet ▸ hqt'.clientWallet, ?_, ?_, ?_⟩
  · intro n hn h hh
    rw [← hwallet] at hn
    have href : h.onWallet (ops.foldl Profile.after q).wallet = none := by
      rcases hh with rfl | ⟨nft, rfl⟩
      · exact if_neg (by omega)
      · exact if_neg (by omega)
    obtain ⟨hraise, hkeep⟩ := Db.run_refused hp' hdoc' hq' href
    rw [Machine.run_append Db.step (Db.start ∅) (es ++ _)]
    exact ⟨⟨_, hraise⟩, hkeep⟩
  · rw [hq'.name, hq.name, q.name_foldl_after]
  · intro hops
    rw [hq'.role, hq.role, q.role_foldl_after hops]

/-- A registered user adds, uploads and deletes an entry. -/
theorem handlers_refine_wallet_registered :
    ∃ doc', (Machine.run Db.step (Db.start ∅)
        ([.register "ann" "Ann"] ++ [.handler (.addNft ⟨"a", "i", "d"⟩), .upload ⟨"b", "i", "d"⟩,
          .handler (.deleteNft 0)].flatMap (Op.events 0 "ann"))).users.get "ann" = some doc' ∧
      adminWallet doc' "ann" = .ok [⟨"b", "i", "d"⟩] ∧
      clientWallet doc' = .ok [⟨"b", "i", "d"⟩] := by
  have hdoc : (Machine.run Db.step (Db.start ∅) [.register "ann" "Ann"]).users.get "ann" =
      some (registerDoc "Ann") := rfl
  obtain ⟨w, doc', hw, -, hrun, hadmin, hclient, -⟩ :=
    handlers_refine_wallet [.register "ann" "Ann"] 0 rfl hdoc
      [.handler (.addNft ⟨"a", "i", "d"⟩), .upload ⟨"b", "i", "d"⟩, .handler (.deleteNft 0)]
  obtain rfl : [] = w := Except.ok.inj hw
  exact ⟨doc', hrun, hadmin, hclient⟩

end FlutterThree
