import FlutterThree.Lib.Dynamic
import Mathlib.Data.List.Forall2

/-!
# The documents of `users` and their two decoders

A document of the `users` collection carries a `name`, a `role` and the list `NFT`. The admin app
reads it with `NftUser.fromJson`, the client app with `AllNFT.fromJson`; both walk the list and cast
the three texts of each entry.

`Stores` is the relation between a stored document and what it is about, a `Profile`: its name, its
role and its wallet. It is stated over a relation `R` between a stored entry and the texts the entry
shows, so that one set of lemmas serves entries with further fields (`ShowsTexts`) and entries
exactly as the apps write them (`IsLiteral`).
-/

namespace FlutterThree

open Dart

/-! ## The admin app's decoder -/

/-- `class NftArt`. -/
structure NftArt where
  name : String
  image : String
  desc : String
  deriving Repr, DecidableEq

def NftArt.fromJson (json : Value) : Except DartError NftArt := do
  let json ← json.asMap
  let name ← (json.index "name").asString
  let image ← (json.index "image").asString
  let desc ← (json.index "desc").asString
  return { name, image, desc }

/-- `class NftUser`. -/
structure NftUser where
  id : String
  name : String
  role : String
  nfts : List NftArt
  deriving Repr, DecidableEq

def NftUser.fromJson (json : Fields) (id : String) : Except DartError NftUser := do
  let tmp := json.index "NFT"
  let tmpList ← tmp.forEach NftArt.fromJson
  let name ← (json.index "name").asString
  let role ← (json.index "role").asString
  return { id, name, role, nfts := tmpList }

/-! ## The client app's decoder -/

/-- `class NFT`. -/
structure NFT where
  name : String
  image : String
  description : String
  deriving Repr, DecidableEq

def NFT.fromJson (json : Value) : Except DartError NFT := do
  let json ← json.asMap
  let name ← (json.index "name").asString
  let image ← (json.index "image").asString
  let description ← (json.index "desc").asString
  return { name, image, description }

/-- `class AllNFT`. -/
structure AllNFT where
  all : List NFT
  deriving Repr, DecidableEq

def AllNFT.fromJson (json : Fields) : Except DartError AllNFT := do
  let data ← (json.index "NFT").forEach NFT.fromJson
  return { all := data }

/-! ## What the pages raise -/

/-- What is raised in the body of a call. -/
inductive Raised where
  /-- The fetch failed, with the text of its error. -/
  | remote (text : String)
  | dart (e : DartError)
  /-- `throw Exception(message)`. -/
  | exception (message : String)
  deriving Repr, DecidableEq

def raising {α : Type} : Except DartError α → Except Raised α
  | .ok a => .ok a
  | .error e => .error (.dart e)

/-! ## What a document is about -/

/-- The items of the role menu. -/
inductive RoleItem where
  | admin
  | manager
  | user
  deriving Repr, DecidableEq

/-- The text of a menu item, which is also the stored role. -/
def RoleItem.value : RoleItem → String
  | .admin => "admin"
  | .manager => "manager"
  | .user => "user"

/-- `<String>['admin', 'manager', 'user']`. -/
def roleItems : List String := ["admin", "manager", "user"]

theorem RoleItem.value_mem (r : RoleItem) : r.value ∈ roleItems := by
  cases r <;> decide

theorem RoleItem.exists_of_mem {s : String} (h : s ∈ roleItems) : ∃ r : RoleItem, r.value = s := by
  simp only [roleItems, List.mem_cons, List.not_mem_nil, or_false] at h
  rcases h with rfl | rfl | rfl
  · exact ⟨.admin, rfl⟩
  · exact ⟨.manager, rfl⟩
  · exact ⟨.user, rfl⟩

/-- An NFT as both apps show it. -/
structure Entry where
  name : String
  image : String
  description : String
  deriving Repr, DecidableEq

abbrev Wallet := List Entry

def NftArt.entry (a : NftArt) : Entry := ⟨a.name, a.image, a.desc⟩

def NFT.entry (a : NFT) : Entry := ⟨a.name, a.image, a.description⟩

/-- The user a document is about. -/
structure Profile where
  name : String
  role : RoleItem
  wallet : Wallet

/-- The map both apps write for a new NFT. -/
def nftMap (a : NftArt) : Value :=
  .map [("name", .str a.name), ("image", .str a.image), ("desc", .str a.desc)]

/-- `v` is a map with the texts of `e` under the three keys. -/
def ShowsTexts (v : Value) (e : Entry) : Prop :=
  ∃ m, v = .map m ∧ m.lookup "name" = some (.str e.name) ∧
    m.lookup "image" = some (.str e.image) ∧ m.lookup "desc" = some (.str e.description)

/-- `v` is the map the apps write for `e`, with no other field. -/
def IsLiteral (v : Value) (e : Entry) : Prop := v = nftMap ⟨e.name, e.image, e.description⟩

theorem IsLiteral.showsTexts {v : Value} {e : Entry} (h : IsLiteral v e) : ShowsTexts v e :=
  ⟨_, h, rfl, rfl, rfl⟩

/-- `doc` holds the name, the role and, entry by entry, the wallet of `p`. -/
structure Stores (R : Value → Entry → Prop) (doc : Fields) (p : Profile) : Prop where
  name : doc.lookup "name" = some (.str p.name)
  role : doc.lookup "role" = some (.str p.role.value)
  nft : ∃ xs, doc.lookup "NFT" = some (.list xs) ∧ List.Forall₂ R xs p.wallet

theorem Stores.mono {R S : Value → Entry → Prop} (hRS : ∀ v e, R v e → S v e) {doc : Fields}
    {p : Profile} (h : Stores R doc p) : Stores S doc p := by
  obtain ⟨xs, hxs, hR⟩ := h.nft
  exact ⟨h.name, h.role, xs, hxs, hR.imp hRS⟩

/-- A well-formed document: `name` a string, `role` an item of the role menu and `NFT` a list of
maps whose `name`, `image` and `desc` are strings. -/
structure WellFormed (doc : Fields) : Prop where
  name : ∃ s, doc.lookup "name" = some (.str s)
  role : ∃ s ∈ roleItems, doc.lookup "role" = some (.str s)
  nft : ∃ xs, doc.lookup "NFT" = some (.list xs) ∧ ∀ x ∈ xs, ∃ e, ShowsTexts x e

theorem Stores.wellFormed {doc : Fields} {p : Profile} (h : Stores ShowsTexts doc p) :
    WellFormed doc := by
  obtain ⟨xs, hxs, hR⟩ := h.nft
  refine ⟨⟨_, h.name⟩, ⟨_, p.role.value_mem, h.role⟩, xs, hxs, fun x hx => ?_⟩
  obtain ⟨i, hi, rfl⟩ := List.getElem_of_mem hx
  exact ⟨_, hR.get hi (hR.length_eq ▸ hi)⟩

/-- The entries of a list whose elements all show texts. -/
theorem exists_forall₂_of_forall {R : Value → Entry → Prop} {xs : List Value}
    (h : ∀ x ∈ xs, ∃ e, R x e) : ∃ w, List.Forall₂ R xs w := by
  induction xs with
  | nil => exact ⟨[], .nil⟩
  | cons x xs ih =>
    obtain ⟨e, he⟩ := h x List.mem_cons_self
    obtain ⟨w, hw⟩ := ih fun y hy => h y (List.mem_cons_of_mem x hy)
    exact ⟨e :: w, .cons he hw⟩

theorem WellFormed.exists_stores {doc : Fields} (h : WellFormed doc) :
    ∃ p, Stores ShowsTexts doc p := by
  obtain ⟨s, hs⟩ := h.name
  obtain ⟨_, hmem, hr⟩ := h.role
  obtain ⟨r, rfl⟩ := RoleItem.exists_of_mem hmem
  obtain ⟨xs, hxs, hall⟩ := h.nft
  obtain ⟨w, hw⟩ := exists_forall₂_of_forall hall
  exact ⟨⟨s, r, w⟩, hs, hr, xs, hxs, hw⟩

/-! ## Both decoders read the profile -/

theorem NftArt.fromJson_of_showsTexts {v : Value} {e : Entry} (h : ShowsTexts v e) :
    NftArt.fromJson v = .ok ⟨e.name, e.image, e.description⟩ := by
  obtain ⟨m, rfl, hn, hi, hd⟩ := h
  simp only [NftArt.fromJson, Value.asMap, ok_bind, Fields.index_of_lookup hn,
    Fields.index_of_lookup hi, Fields.index_of_lookup hd, Value.asString, pure_eq_ok]

theorem NFT.fromJson_of_showsTexts {v : Value} {e : Entry} (h : ShowsTexts v e) :
    NFT.fromJson v = .ok ⟨e.name, e.image, e.description⟩ := by
  obtain ⟨m, rfl, hn, hi, hd⟩ := h
  simp only [NFT.fromJson, Value.asMap, ok_bind, Fields.index_of_lookup hn,
    Fields.index_of_lookup hi, Fields.index_of_lookup hd, Value.asString, pure_eq_ok]

/-- Decoding a list element by element. -/
theorem forEach_of_forall₂ {α : Type} {R : Value → Entry → Prop}
    {xs : List Value} {w : Wallet} (h : List.Forall₂ R xs w) {f : Value → Except DartError α}
    {g : Entry → α} (hf : ∀ v e, R v e → f v = .ok (g e)) :
    (Value.list xs).forEach f = .ok (w.map g) := by
  change xs.mapM f = .ok (w.map g)
  induction h with
  | nil => rfl
  | cons hv _ ih =>
    rw [List.mapM_cons, hf _ _ hv, ih]
    rfl

theorem NftUser.fromJson_of_stores {doc : Fields} {p : Profile} (h : Stores ShowsTexts doc p)
    (id : String) :
    NftUser.fromJson doc id =
      .ok ⟨id, p.name, p.role.value, p.wallet.map fun e => ⟨e.name, e.image, e.description⟩⟩ := by
  obtain ⟨xs, hxs, hR⟩ := h.nft
  simp only [NftUser.fromJson, Fields.index_of_lookup hxs, Fields.index_of_lookup h.name,
    Fields.index_of_lookup h.role, Value.asString,
    forEach_of_forall₂ hR fun _ _ => NftArt.fromJson_of_showsTexts, ok_bind, pure_eq_ok]

theorem AllNFT.fromJson_of_stores {doc : Fields} {p : Profile} (h : Stores ShowsTexts doc p) :
    AllNFT.fromJson doc = .ok ⟨p.wallet.map fun e => ⟨e.name, e.image, e.description⟩⟩ := by
  obtain ⟨xs, hxs, hR⟩ := h.nft
  simp only [AllNFT.fromJson, Fields.index_of_lookup hxs,
    forEach_of_forall₂ hR fun _ _ => NFT.fromJson_of_showsTexts, ok_bind, pure_eq_ok]

/-- The wallet the admin app decodes. -/
def adminWallet (doc : Fields) (id : String) : Except DartError Wallet := do
  return (← NftUser.fromJson doc id).nfts.map NftArt.entry

/-- The wallet the client app decodes. -/
def clientWallet (doc : Fields) : Except DartError Wallet := do
  return (← AllNFT.fromJson doc).all.map NFT.entry

theorem Stores.adminWallet {doc : Fields} {p : Profile} (h : Stores ShowsTexts doc p)
    (id : String) : adminWallet doc id = .ok p.wallet := by
  simp only [FlutterThree.adminWallet, NftUser.fromJson_of_stores h id, ok_bind, pure_eq_ok]
  rw [List.map_map]
  exact congrArg Except.ok (List.map_id p.wallet)

theorem Stores.clientWallet {doc : Fields} {p : Profile} (h : Stores ShowsTexts doc p) :
    clientWallet doc = .ok p.wallet := by
  simp only [FlutterThree.clientWallet, AllNFT.fromJson_of_stores h, ok_bind, pure_eq_ok]
  rw [List.map_map]
  exact congrArg Except.ok (List.map_id p.wallet)

end FlutterThree
