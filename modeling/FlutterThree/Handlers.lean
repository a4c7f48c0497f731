import FlutterThree.Lib.Firestore
import FlutterThree.Lib.Serial
import FlutterThree.Decode

/-!
# The handlers that write a user's document

The admin app's Add, Edit, Delete and role menu handlers all have one shape: `get` the document,
change the decoded map in memory, `update` the document with the whole map. The functions here are
the middle part, from what `docSnapshot.data()` returned to the map handed to `update`. The client
app's upload sends a single `update` with an `arrayUnion`.

Every NFT handler acts on the document through `data['NFT']` alone (`Handler.onPressed_eq`), so
`Handler.onNft`, the same change on that value, is what the concurrency results are stated with.
-/

namespace FlutterThree

open Dart Firestore

/-! ## `nftadd_page.dart`, `nftdetails_page.dart`, `main_page.dart` -/

/-- 'Add an NFT'. -/
def addNft (nft : NftArt) (data : Option Fields) : Except DartError Fields := do
  let data ← bang data
  return data.put "NFT" (← (data.index "NFT").add (nftMap nft))

/-- 'Edit NFT'. -/
def editNft (nftNumber : ℕ) (nft : NftArt) (data : Option Fields) : Except DartError Fields := do
  let data ← bang data
  let data := data.put "NFT" (← (data.index "NFT").assignAt nftNumber "desc" nft.desc)
  let data := data.put "NFT" (← (data.index "NFT").assignAt nftNumber "image" nft.image)
  let data := data.put "NFT" (← (data.index "NFT").assignAt nftNumber "name" nft.name)
  return data

/-- 'Delete NFT'. -/
def deleteNft (nftNumber : ℕ) (data : Option Fields) : Except DartError Fields := do
  let data ← bang data
  return data.put "NFT" (← (data.index "NFT").removeAt nftNumber)

/-- The role menu's `onChanged`. -/
def onChanged (newValue : RoleItem) (data : Option Fields) : Except DartError Fields := do
  let data ← bang data
  return data.put "role" (.str newValue.value)

/-- The handlers that read a document and write it back, with the texts their page supplies. -/
inductive Handler where
  | addNft (nft : NftArt)
  | editNft (nftNumber : ℕ) (nft : NftArt)
  | deleteNft (nftNumber : ℕ)
  | chooseRole (newValue : RoleItem)
  deriving Repr, DecidableEq

/-- From `docSnapshot.data()` to the map given to `update`. -/
def Handler.onPressed : Handler → Option Fields → Except DartError Fields
  | .addNft nft => FlutterThree.addNft nft
  | .editNft n nft => FlutterThree.editNft n nft
  | .deleteNft n => FlutterThree.deleteNft n
  | .chooseRole r => onChanged r

/-! ## `upload_page.dart`, `register_page.dart` -/

/-- The document after `postNFT`'s `update`. -/
def postNFT (nft : NftArt) (doc : Fields) : Fields :=
  overwrite [("NFT", arrayUnion (doc.index "NFT") [nftMap nft])] doc

/-- The document `postRegister` sets. -/
def registerDoc (name : String) : Fields :=
  [("role", .str "user"), ("name", .str name), ("NFT", .list [])]

/-! ## The handlers on `data['NFT']` -/

/-- The three assignments of 'Edit NFT' on the list itself. -/
def editAt (n : ℕ) (nft : NftArt) (v : Value) : Except DartError Value := do
  let v ← v.assignAt n "desc" nft.desc
  let v ← v.assignAt n "image" nft.image
  v.assignAt n "name" nft.name

/-- What a handler makes of `data['NFT']`. -/
def Handler.onNft : Handler → Value → Except DartError Value
  | .addNft nft, v => v.add (nftMap nft)
  | .editNft n nft, v => editAt n nft v
  | .deleteNft n, v => v.removeAt n
  | .chooseRole _, v => .ok v

theorem addNft_some (nft : NftArt) (d : Fields) :
    addNft nft (some d) = (d.index "NFT").add (nftMap nft) >>= fun v => .ok (d.put "NFT" v) := rfl

theorem editNft_some (n : ℕ) (nft : NftArt) (d : Fields) :
    editNft n nft (some d) = editAt n nft (d.index "NFT") >>= fun v => .ok (d.put "NFT" v) := by
  unfold editNft editAt
  simp only [bang, ok_bind]
  cases (d.index "NFT").assignAt n "desc" nft.desc with
  | error x => rfl
  | ok v₁ =>
    simp only [ok_bind, Fields.index_put_self, Fields.put_put]
    cases v₁.assignAt n "image" nft.image with
    | error x => rfl
    | ok v₂ =>
      simp only [ok_bind]
      cases v₂.assignAt n "name" nft.name with
      | error x => rfl
      | ok v₃ => rfl

theorem deleteNft_some (n : ℕ) (d : Fields) :
    deleteNft n (some d) = (d.index "NFT").removeAt n >>= fun v => .ok (d.put "NFT" v) := rfl

/-- The role choices among the handlers. -/
def Handler.roleChoice : Handler → Option RoleItem
  | .chooseRole r => some r
  | _ => none

/-- The handlers that address entry `n`: Edit and Delete. -/
def Handler.Addresses (n : ℕ) (h : Handler) : Prop :=
  h = .deleteNft n ∨ ∃ nft, h = .editNft n nft

/-- An NFT handler replaces `data['NFT']` and nothing else. -/
theorem Handler.onPressed_eq {h : Handler} (hnft : h.roleChoice = none) (d : Fields) :
    h.onPressed (some d) = h.onNft (d.index "NFT") >>= fun v => .ok (d.put "NFT" v) := by
  cases h with
  | addNft nft => exact addNft_some nft d
  | editNft n nft => exact editNft_some n nft d
  | deleteNft n => exact deleteNft_some n d
  | chooseRole r => cases hnft

/-- Every handler starts with `data!`. -/
theorem Handler.onPressed_none (h : Handler) : h.onPressed none = .error .nullCheck := by
  cases h <;> rfl

theorem Handler.exists_seen {h : Handler} {seen : Option Fields} {data : Fields}
    (hok : h.onPressed seen = .ok data) : ∃ d, seen = some d := by
  cases seen with
  | some d => exact ⟨d, rfl⟩
  | none =>
    rw [h.onPressed_none] at hok
    cases hok

/-- The map an NFT handler gives to `update`. -/
theorem Handler.data_of_nft {h : Handler} (hnft : h.roleChoice = none) {d data : Fields}
    (hok : h.onPressed (some d) = .ok data) :
    ∃ v, h.onNft (d.index "NFT") = .ok v ∧ data = d.put "NFT" v := by
  rw [h.onPressed_eq hnft, bind_eq_ok] at hok
  obtain ⟨v, hv, heq⟩ := hok
  exact ⟨v, hv, (Except.ok.inj heq).symm⟩

/-- The map a role choice gives to `update`. -/
theorem Handler.data_of_roleChoice {h : Handler} {r : RoleItem} (hr : h.roleChoice = some r)
    {d data : Fields} (hok : h.onPressed (some d) = .ok data) :
    data = d.put "role" (.str r.value) := by
  cases h with
  | chooseRole r' =>
    obtain rfl := Option.some.inj hr
    exact (Except.ok.inj hok).symm
  | _ => cases hr

/-- The NFT list in the map a handler gives to `update`. -/
theorem Handler.index_nft_of_ok {h : Handler} {d data : Fields}
    (hok : h.onPressed (some d) = .ok data) :
    h.onNft (d.index "NFT") = .ok (data.index "NFT") := by
  cases hr : h.roleChoice with
  | none =>
    obtain ⟨v, hv, rfl⟩ := h.data_of_nft hr hok
    rw [hv, Fields.index_put_self]
  | some r =>
    obtain rfl := h.data_of_roleChoice hr hok
    cases h with
    | chooseRole r' =>
      simp only [onNft, Fields.index, Fields.lookup_put_ne d (show "NFT" ≠ "role" by decide)]
    | _ => cases hr

/-- A handler keeps every field other than the one it is about. -/
theorem Handler.lookup_of_ok {h : Handler} {d data : Fields} {k : String}
    (hok : h.onPressed (some d) = .ok data) (hk : k ≠ "NFT") (hrole : h.roleChoice ≠ none → k ≠ "role") :
    data.lookup k = d.lookup k := by
  cases hr : h.roleChoice with
  | none =>
    obtain ⟨v, -, rfl⟩ := h.data_of_nft hr hok
    exact Fields.lookup_put_ne d hk v
  | some r =>
    obtain rfl := h.data_of_roleChoice hr hok
    exact Fields.lookup_put_ne d (hrole (by rw [hr]; simp)) _

/-! ## Operations, executed atomically -/

/-- The operations on an existing document: a handler, or an upload. -/
inductive Op where
  | handler (h : Handler)
  | upload (nft : NftArt)
  deriving Repr, DecidableEq

/-- The document after the operation, when nothing else touches it. -/
def Op.exec : Op → Fields → Except DartError Fields
  | .handler h, doc => do return overwrite (← h.onPressed (some doc)) doc
  | .upload nft, doc => .ok (postNFT nft doc)

/-- The role choices among the operations; the others are the NFT operations. -/
def Op.roleChoice : Op → Option RoleItem
  | .handler h => h.roleChoice
  | .upload _ => none

/-- What an operation makes of the stored NFT list. -/
def Op.onNft : Op → Value → Except DartError Value
  | .handler h, v => h.onNft v
  | .upload nft, v => .ok (arrayUnion v [nftMap nft])

/-- The NFT list in a document overwritten with what a handler computed from `d`. -/
theorem Handler.index_nft_overwrite {h : Handler} {d data doc : Fields}
    (hok : h.onPressed (some d) = .ok data)
    (hdoc : h.roleChoice ≠ none → doc.index "NFT" = d.index "NFT") :
    (overwrite data doc).index "NFT" = data.index "NFT" := by
  cases hr : h.roleChoice with
  | none =>
    obtain ⟨v, -, rfl⟩ := h.data_of_nft hr hok
    simp only [Fields.index, lookup_overwrite, Fields.lookup_put_self, Option.some_or]
  | some r =>
    have hsame := hdoc (by rw [hr]; simp)
    obtain rfl := h.data_of_roleChoice hr hok
    have hput := Fields.lookup_put_ne d (show "NFT" ≠ "role" by decide) (.str r.value)
    simp only [Fields.index, lookup_overwrite, hput] at hsame ⊢
    cases hd : d.lookup "NFT" with
    | some v => rw [Option.some_or]
    | none => rw [Option.none_or, hsame, hd]

/-- A role choice that has read no NFT list writes none. -/
theorem Handler.index_nft_overwrite_of_none {h : Handler} {d data : Fields}
    (hok : h.onPressed (some d) = .ok data) (hr : h.roleChoice ≠ none)
    (hnone : d.lookup "NFT" = none) (doc : Fields) :
    (overwrite data doc).index "NFT" = doc.index "NFT" := by
  obtain ⟨r, hr⟩ := Option.ne_none_iff_exists'.mp hr
  obtain rfl := h.data_of_roleChoice hr hok
  have hput : (d.put "role" (.str r.value)).lookup "NFT" = none :=
    (Fields.lookup_put_ne d (by decide) _).trans hnone
  simp only [Fields.index, lookup_overwrite, hput, Option.none_or]

theorem index_nft_postNFT (nft : NftArt) (doc : Fields) :
    (postNFT nft doc).index "NFT" = arrayUnion (doc.index "NFT") [nftMap nft] := by
  have hlookup : (postNFT nft doc).lookup "NFT" = some (arrayUnion (doc.index "NFT") [nftMap nft]) :=
    lookup_overwrite_of_some rfl
  exact Fields.index_of_lookup hlookup

theorem lookup_postNFT (nft : NftArt) (doc : Fields) {k : String} (hk : k ≠ "NFT") :
    (postNFT nft doc).lookup k = doc.lookup k := by
  rw [postNFT, lookup_overwrite, Fields.lookup_cons, if_neg hk]
  rfl

/-- On the NFT list, `exec` is `onNft`. -/
theorem Op.exec_nft (o : Op) {d : Fields} {v : Value} (h : o.onNft (d.index "NFT") = .ok v) :
    ∃ d', o.exec d = .ok d' ∧ d'.index "NFT" = v := by
  cases o with
  | upload nft =>
    refine ⟨_, rfl, ?_⟩
    rw [index_nft_postNFT]
    exact Except.ok.inj h
  | handler h' =>
    have hdata : ∃ data, h'.onPressed (some d) = .ok data := by
      cases hr : h'.roleChoice with
      | none =>
        rw [h'.onPressed_eq hr, show h'.onNft (d.index "NFT") = .ok v from h]
        exact ⟨_, rfl⟩
      | some r =>
        cases h' with
        | chooseRole r' => exact ⟨_, rfl⟩
        | _ => cases hr
    obtain ⟨data, hok⟩ := hdata
    have hexec : (Op.handler h').exec d = .ok (overwrite data d) := by
      simp only [Op.exec, hok, ok_bind, pure_eq_ok]
    refine ⟨_, hexec, ?_⟩
    rw [h'.index_nft_overwrite hok fun _ => rfl]
    have hidx := h'.index_nft_of_ok hok
    rw [show h'.onNft (d.index "NFT") = .ok v from h] at hidx
    exact (Except.ok.inj hidx).symm

end FlutterThree
