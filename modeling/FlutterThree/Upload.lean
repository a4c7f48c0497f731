import FlutterThree.Documents
import FlutterThree.Lib.Storage

/-!
# Uploads

`postNFT` picks a file, puts it into Firebase Storage, asks for its download link and adds an entry
with that link to the user's document. Any number of presses on any number of `UploadPage`s are at
any of these stages at once, beside whatever else happens to the collection.

All users share one bucket, and the path of an object is built from the name of the picked file
alone (`objectPath`). `own_picture_iff` says exactly when every stored entry goes on showing the file
that was picked for it.
-/

namespace FlutterThree

open Dart Firestore Storage

abbrev Bytes := List UInt8

/-- What `pickImage` returns. -/
structure PickedFile where
  name : String
  bytes : Bytes
  deriving Repr, DecidableEq

/-- `FirebaseStorage.instance.ref(..).child(file.name)`. -/
def objectPath (file : PickedFile) : String := "gs://flutterthree.appspot.com/" ++ file.name

theorem objectPath_inj {f g : PickedFile} : objectPath f = objectPath g ↔ f.name = g.name :=
  String.append_right_inj _

/-- `UploadPage` of a user, with the texts in its fields. -/
structure UploadPage where
  uid : String
  name : String
  description : String

/-- The call a `postNFT` waits for. -/
inductive UploadStage where
  | pickImage
  /-- `putData` on the web, `putFile` elsewhere. -/
  | put (file : PickedFile)
  | getDownloadURL (file : PickedFile)
  /-- The `update`, with the texts and the link it was given. -/
  | update (file : PickedFile) (nft : NftArt)

structure UploadPress where
  page : ℕ
  stage : UploadStage

/-- An entry that `postNFT` has stored, and the file that was picked for it. -/
structure StoredNft where
  uid : String
  nft : NftArt
  file : PickedFile

structure Uploads where
  db : Db
  bucket : Bucket String String Bytes
  pages : ℕ → UploadPage
  presses : ℕ → Option UploadPress
  /-- The entries stored so far; no step reads them. -/
  stored : List StoredNft

def Uploads.start (users : Users) (pages : ℕ → UploadPage) : Uploads :=
  ⟨Db.start users, .empty, pages, fun _ => none, []⟩

inductive UploadEvent where
  /-- A step of anything else that uses the collection. -/
  | other (e : Event)
  | typeName (k : ℕ) (text : String)
  | typeDescription (k : ℕ) (text : String)
  /-- 'Select file and upload' on page `k`; `q` numbers the press. -/
  | press (k q : ℕ)
  /-- The picker closes, with a file or without. -/
  | pick (q : ℕ) (file : Option PickedFile)
  | put (q : ℕ)
  | link (q : ℕ) (url : String)
  | update (q : ℕ)
  /-- The call the press waits for raises. -/
  | fail (q : ℕ)

def Uploads.setPress (s : Uploads) (q : ℕ) (press : Option UploadPress) : Uploads :=
  { s with presses := Function.update s.presses q press }

def Uploads.setPage (s : Uploads) (k : ℕ) (page : UploadPage) : Uploads :=
  { s with pages := Function.update s.pages k page }

def Uploads.step (s : Uploads) : UploadEvent → Uploads
  | .other e => { s with db := s.db.step e }
  | .typeName k text => s.setPage k { s.pages k with name := text }
  | .typeDescription k text => s.setPage k { s.pages k with description := text }
  | .press k q =>
    match s.presses q with
    | none =>
      if (s.pages k).name = "" ∨ (s.pages k).description = "" then s
      else s.setPress q (some ⟨k, .pickImage⟩)
    | some _ => s
  | .pick q file =>
    match s.presses q with
    -- without a file, `file!` raises
    | some ⟨k, .pickImage⟩ => s.setPress q (file.map fun f => ⟨k, .put f⟩)
    | _ => s
  | .put q =>
    match s.presses q with
    | some ⟨k, .put file⟩ =>
      { s with bucket := s.bucket.put (objectPath file) file.bytes }.setPress q
        (some ⟨k, .getDownloadURL file⟩)
    | _ => s
  | .link q url =>
    match s.presses q with
    | some ⟨k, .getDownloadURL file⟩ =>
      if s.bucket.CanIssue url (objectPath file) then
        { s with bucket := s.bucket.issue url (objectPath file) }.setPress q
          (some ⟨k, .update file ⟨(s.pages k).name, url, (s.pages k).description⟩⟩)
      else s
    | _ => s
  | .update q =>
    match s.presses q with
    | some ⟨k, .update file nft⟩ =>
      { s with
        db := s.db.step (.upload (s.pages k).uid nft)
        stored := if (s.db.users.get (s.pages k).uid).isSome
          then s.stored ++ [StoredNft.mk (s.pages k).uid nft file] else s.stored }.setPress q none
    | _ => s
  | .fail q => s.setPress q none

/-! ## What a step does -/

/-- What a step can do to the state, with what has made it do so. -/
inductive Uploads.Effect (s : Uploads) (e : UploadEvent) : Uploads → Prop where
  | keep : Effect s e s
  | other (e' : Event) : Effect s e { s with db := s.db.step e' }
  | type (k : ℕ) (page : UploadPage) : Effect s e (s.setPage k page)
  | press (k q : ℕ) (he : e = .press k q) (hq : s.presses q = none)
      (hname : (s.pages k).name ≠ "") (hdesc : (s.pages k).description ≠ "") :
      Effect s e (s.setPress q (some ⟨k, .pickImage⟩))
  | pick (q k : ℕ) (file : PickedFile) (hq : s.presses q = some ⟨k, .pickImage⟩) :
      Effect s e (s.setPress q (some ⟨k, .put file⟩))
  | put (q k : ℕ) (file : PickedFile) (he : e = .put q)
      (hq : s.presses q = some ⟨k, .put file⟩) :
      Effect s e ({ s with bucket := s.bucket.put (objectPath file) file.bytes }.setPress q
        (some ⟨k, .getDownloadURL file⟩))
  | link (q k : ℕ) (file : PickedFile) (url : String) (he : e = .link q url)
      (hq : s.presses q = some ⟨k, .getDownloadURL file⟩)
      (hcan : s.bucket.CanIssue url (objectPath file)) :
      Effect s e ({ s with bucket := s.bucket.issue url (objectPath file) }.setPress q
        (some ⟨k, .update file ⟨(s.pages k).name, url, (s.pages k).description⟩⟩))
  | update (q k : ℕ) (file : PickedFile) (nft : NftArt) (he : e = .update q)
      (hq : s.presses q = some ⟨k, .update file nft⟩) :
      Effect s e ({ s with
        db := s.db.step (.upload (s.pages k).uid nft)
        stored := if (s.db.users.get (s.pages k).uid).isSome
          then s.stored ++ [StoredNft.mk (s.pages k).uid nft file] else s.stored }.setPress q none)
  | ended (q : ℕ) : Effect s e (s.setPress q none)

/-- Every step is one of these. -/
theorem Uploads.effect (s : Uploads) (e : UploadEvent) : s.Effect e (s.step e) := by
  cases e with
  | other e' => exact .other e'
  | typeName k text => exact .type k _
  | typeDescription k text => exact .type k _
  | press k q =>
    simp only [step]
    split
    · rename_i hq
      split
      · exact .keep
      · rename_i htexts
        obtain ⟨hname, hdesc⟩ := not_or.mp htexts
        exact .press k q rfl hq hname hdesc
    · exact .keep
  | pick q file =>
    simp only [step]
    split
    · rename_i k hq
      cases file with
      | none => exact .ended q
      | some f => exact .pick q k f hq
    · exact .keep
  | put q =>
    simp only [step]
    split
    · rename_i k file hq
      exact .put q k file rfl hq
    · exact .keep
  | link q url =>
    simp only [step]
    split
    · rename_i k file hq
      split
      · rename_i hcan
        exact .link q k file url rfl hq hcan
      · exact .keep
    · exact .keep
  | update q =>
    simp only [step]
    split
    · rename_i k file nft hq
      exact .update q k file nft rfl hq
    · exact .keep
  | fail q => exact .ended q

/-! ## Links and the objects they are for -/

/-- What a press at a stage has done to the bucket. -/
def UploadStage.Placed (b : Bucket String String Bytes) : UploadStage → Prop
  | .pickImage => True
  | .put _ => True
  | .getDownloadURL file => (b.objects (objectPath file)).isSome
  | .update file nft =>
    b.issued nft.image = some (objectPath file) ∧ (b.objects (objectPath file)).isSome

theorem UploadStage.Placed.bucket_put {b : Bucket String String Bytes} {stage : UploadStage}
    (h : stage.Placed b) (path : String) (x : Bytes) : stage.Placed (b.put path x) := by
  cases stage with
  | pickImage => trivial
  | put file => trivial
  | getDownloadURL file => exact Bucket.isSome_objects_put h path x
  | update file nft => exact ⟨h.1, Bucket.isSome_objects_put h.2 path x⟩

theorem UploadStage.Placed.bucket_issue {b : Bucket String String Bytes} {stage : UploadStage}
    (h : stage.Placed b) {link path : String} (hcan : b.CanIssue link path) :
    stage.Placed (b.issue link path) := by
  cases stage with
  | pickImage => trivial
  | put file => trivial
  | getDownloadURL file => exact h
  | update file nft => exact ⟨Bucket.issued_issue_of_some hcan h.1, h.2⟩

/-- Every press has done what its stage says, and the link of every stored entry is for the object
of its own file's name. -/
structure Uploads.Linked (s : Uploads) : Prop where
  presses : ∀ q press, s.presses q = some press → press.stage.Placed s.bucket
  stored : ∀ r ∈ s.stored, s.bucket.issued r.nft.image = some (objectPath r.file)

theorem Uploads.Linked.start (users : Users) (pages : ℕ → UploadPage) :
    (Uploads.start users pages).Linked where
  presses := nofun
  stored := nofun

theorem Uploads.Linked.setPress {s : Uploads} (h : s.Linked) (q : ℕ) {press : Option UploadPress}
    (hp : ∀ p, press = some p → p.stage.Placed s.bucket) : (s.setPress q press).Linked where
  presses q' p hp' := by
    rcases Machine.update_eq_some hp' with ⟨-, hnew⟩ | ⟨-, hold⟩
    · exact hp p hnew
    · exact h.presses q' p hold
  stored := h.stored

private theorem mem_stored_append {old : List StoredNft} {new r : StoredNft} {b : Bool}
    (h : r ∈ if b then old ++ [new] else old) : r ∈ old ∨ b ∧ r = new := by
  split at h
  · rename_i hb
    rcases List.mem_append.mp h with h | h
    · exact .inl h
    · exact .inr ⟨hb, List.mem_singleton.mp h⟩
  · exact .inl h

theorem Uploads.Linked.endPress {s : Uploads} (h : s.Linked) (q : ℕ) :
    (s.setPress q none).Linked :=
  h.setPress q fun _ hp => by cases hp

/-- A press goes on to a stage that the bucket is right for. -/
theorem Uploads.Linked.goOn {s : Uploads} (h : s.Linked) (q k : ℕ) {stage : UploadStage}
    (hstage : stage.Placed s.bucket) : (s.setPress q (some ⟨k, stage⟩)).Linked := by
  refine h.setPress q fun p hp => ?_
  obtain rfl := Option.some.inj hp
  exact hstage

theorem Uploads.Linked.step {s : Uploads} (h : s.Linked) (e : UploadEvent) : (s.step e).Linked := by
  have heffect := s.effect e
  generalize s.step e = t at heffect
  cases heffect with
  | keep => exact h
  | other e' => exact ⟨h.presses, h.stored⟩
  | type k page => exact ⟨h.presses, h.stored⟩
  | press k q he hq hname hdesc => exact h.goOn q k trivial
  | pick q k file hq => exact h.goOn q k trivial
  | put q k file he hq =>
    have hput : Uploads.Linked { s with bucket := s.bucket.put (objectPath file) file.bytes } :=
      ⟨fun q' p hp => (h.presses q' p hp).bucket_put _ _, h.stored⟩
    exact hput.goOn q k (congrArg Option.isSome (Function.update_self _ _ s.bucket.objects))
  | link q k file url he hq hcan =>
    have hissue : Uploads.Linked { s with bucket := s.bucket.issue url (objectPath file) } :=
      ⟨fun q' p hp => (h.presses q' p hp).bucket_issue hcan,
        fun r hr => Bucket.issued_issue_of_some hcan (h.stored r hr)⟩
    have hobject : (s.bucket.objects (objectPath file)).isSome := h.presses q _ hq
    exact hissue.goOn q k ⟨Bucket.issued_issue_self s.bucket url (objectPath file), hobject⟩
  | update q k file nft he hq =>
    have hupdate : Uploads.Linked { s with
        db := s.db.step (.upload (s.pages k).uid nft)
        stored := if (s.db.users.get (s.pages k).uid).isSome
          then s.stored ++ [StoredNft.mk (s.pages k).uid nft file] else s.stored } := by
      refine ⟨h.presses, fun r hr => ?_⟩
      rcases mem_stored_append hr with hr | ⟨-, rfl⟩
      · exact h.stored r hr
      · exact (h.presses q _ hq).1
    exact hupdate.endPress q
  | ended q => exact h.endPress q

/-- After an `arrayUnion` with the map of an NFT, the list has an element equal to it. -/
theorem exists_same_arrayUnion (v : Value) (nft : NftArt) :
    ∃ x ∈ elements (arrayUnion v [nftMap nft]), same (nftMap nft) x = true := by
  have hlist : elements (arrayUnion v [nftMap nft]) =
      if (elements v).any (same (nftMap nft)) then elements v
      else elements v ++ [nftMap nft] := rfl
  rw [hlist]
  split
  · rename_i hany
    exact List.any_eq_true.mp hany
  · exact ⟨nftMap nft, List.mem_append_right _ (List.mem_singleton_self _),
      (same_nftMap nft nft).mpr rfl⟩

/-- Only an `update` that reaches the store adds to the stored entries. -/
theorem Uploads.stored_step_of_ne {s : Uploads} {e : UploadEvent}
    (h : ∀ q k file nft, e = .update q → s.presses q ≠ some ⟨k, .update file nft⟩) :
    (s.step e).stored = s.stored := by
  have heffect := s.effect e
  generalize s.step e = t at heffect
  cases heffect with
  | update q k file nft he hq => exact absurd hq (h q k file nft he)
  | _ => rfl

/-- Only a `put` changes what an issued link serves. -/
theorem Uploads.serve_step_of_ne {s : Uploads} {e : UploadEvent}
    (h : ∀ q k file, e = .put q → s.presses q ≠ some ⟨k, .put file⟩) {link path : String}
    (hlink : s.bucket.issued link = some path) :
    (s.step e).bucket.serve link = s.bucket.serve link := by
  have heffect := s.effect e
  generalize s.step e = t at heffect
  cases heffect with
  | put q k file he hq => exact absurd hq (h q k file he)
  | link q k file url he hq hcan => exact Bucket.serve_issue_of_some hcan hlink
  | _ => rfl

/-- An entry counts as stored when its `update` has put it into the user's document. -/
theorem Uploads.stored_step {s : Uploads} {e : UploadEvent} {r : StoredNft}
    (hr : r ∈ (s.step e).stored) :
    r ∈ s.stored ∨ ∃ doc, (s.step e).db.users.get r.uid = some doc ∧
      ∃ x ∈ elements (doc.index "NFT"), same (nftMap r.nft) x = true := by
  by_cases hupdate : ∃ q k file nft, e = .update q ∧ s.presses q = some ⟨k, .update file nft⟩
  · obtain ⟨q, k, file, nft, rfl, hq⟩ := hupdate
    simp only [step, hq] at hr ⊢
    rcases mem_stored_append hr with hr | ⟨hdoc, rfl⟩
    · exact .inl hr
    · obtain ⟨doc, hdoc⟩ := Option.isSome_iff_exists.mp hdoc
      refine .inr ⟨postNFT nft doc, ?_, ?_⟩
      · change (s.db.users.update (s.pages k).uid (postNFT nft)).get (s.pages k).uid = _
        rw [Collection.get_update, if_pos rfl, hdoc, Option.map_some]
      · rw [index_nft_postNFT]
        exact exists_same_arrayUnion _ nft
  · rw [stored_step_of_ne fun q k file nft he hq => hupdate ⟨q, k, file, nft, he, hq⟩] at hr
    exact .inl hr

/-! ## Pictures -/

/-- The link of every stored entry yields the file picked for it, or nothing. -/
def OwnPicture (s : Uploads) : Prop :=
  ∀ r ∈ s.stored, ∀ b, s.bucket.serve r.nft.image = some b → b = r.file.bytes

/-- A file is put under the name of a stored entry's file only if it is the same, and an entry is
stored only while the object at its path is its own file. -/
def KeepsPictures (s : Uploads) (e : UploadEvent) : Prop :=
  (∀ q k file, e = .put q → s.presses q = some ⟨k, .put file⟩ →
    ∀ r ∈ s.stored, r.file.name = file.name → r.file.bytes = file.bytes) ∧
  ∀ q k file nft, e = .update q → s.presses q = some ⟨k, .update file nft⟩ →
    (s.db.users.get (s.pages k).uid).isSome →
      s.bucket.objects (objectPath file) = some file.bytes

theorem ownPicture_put_iff {s : Uploads} (h : s.Linked) (hown : OwnPicture s) {q k : ℕ}
    {file : PickedFile} (hq : s.presses q = some ⟨k, .put file⟩) :
    OwnPicture (s.step (.put q)) ↔
      ∀ r ∈ s.stored, r.file.name = file.name → r.file.bytes = file.bytes := by
  have hstep : OwnPicture (s.step (.put q)) ↔ ∀ r ∈ s.stored, ∀ b,
      (s.bucket.put (objectPath file) file.bytes).serve r.nft.image = some b →
        b = r.file.bytes := by
    simp only [Uploads.step, hq]
    rfl
  rw [hstep]
  constructor
  · intro hall r hr hname
    have hlink := h.stored r hr
    rw [objectPath_inj.mpr hname] at hlink
    exact (hall r hr _ (Bucket.serve_put_self hlink file.bytes)).symm
  · -- a stored link yields the new file if it is for the same path, and what it did otherwise
    intro hall r hr b hb
    have hlink := h.stored r hr
    by_cases hpath : objectPath r.file = objectPath file
    · rw [hpath] at hlink
      rw [Bucket.serve_put_self hlink] at hb
      rw [hall r hr (objectPath_inj.mp hpath), ← Option.some.inj hb]
    · rw [Bucket.serve_put_of_ne hlink hpath] at hb
      exact hown r hr b hb

theorem ownPicture_update_iff {s : Uploads} (h : s.Linked) (hown : OwnPicture s) {q k : ℕ}
    {file : PickedFile} {nft : NftArt} (hq : s.presses q = some ⟨k, .update file nft⟩) :
    OwnPicture (s.step (.update q)) ↔ ((s.db.users.get (s.pages k).uid).isSome →
      s.bucket.objects (objectPath file) = some file.bytes) := by
  obtain ⟨hlink, hobject⟩ : s.bucket.issued nft.image = some (objectPath file) ∧
    (s.bucket.objects (objectPath file)).isSome := h.presses q _ hq
  have hserve : s.bucket.serve nft.image = s.bucket.objects (objectPath file) := by
    rw [Bucket.serve, hlink, Option.bind_some]
  have hstep : OwnPicture (s.step (.update q)) ↔
      ∀ r ∈ (if (s.db.users.get (s.pages k).uid).isSome
        then s.stored ++ [StoredNft.mk (s.pages k).uid nft file] else s.stored), ∀ b,
        s.bucket.serve r.nft.image = some b → b = r.file.bytes := by
    simp only [Uploads.step, hq]
    rfl
  rw [hstep]
  constructor
  · -- the press has put an object there, so the link yields something
    intro hall hdoc
    obtain ⟨b, hb⟩ := Option.isSome_iff_exists.mp hobject
    have hmem : StoredNft.mk (s.pages k).uid nft file ∈ s.stored ++ [⟨(s.pages k).uid, nft, file⟩] :=
      List.mem_append_right _ (List.mem_singleton_self _)
    rw [if_pos hdoc] at hall
    rw [hb, hall _ hmem b (hserve.trans hb)]
  · intro hpicture r hr b hb
    rcases mem_stored_append hr with hr | ⟨hdoc, rfl⟩
    · exact hown r hr b hb
    · rw [hserve, hpicture hdoc] at hb
      exact (Option.some.inj hb).symm

/-- The other steps add no entry and change no object. -/
theorem ownPicture_step {s : Uploads} (h : s.Linked) (hown : OwnPicture s) {e : UploadEvent}
    (hput : ∀ q k file, e = .put q → s.presses q ≠ some ⟨k, .put file⟩)
    (hupdate : ∀ q k file nft, e = .update q → s.presses q ≠ some ⟨k, .update file nft⟩) :
    OwnPicture (s.step e) := by
  intro r hr b hb
  rw [Uploads.stored_step_of_ne hupdate] at hr
  rw [Uploads.serve_step_of_ne hput (h.stored r hr)] at hb
  exact hown r hr b hb

/-- One step keeps the pictures exactly when it meets the condition. -/
theorem keepsPictures_iff {s : Uploads} (h : s.Linked) (hown : OwnPicture s) (e : UploadEvent) :
    KeepsPictures s e ↔ OwnPicture (s.step e) := by
  by_cases hput : ∃ q k file, e = .put q ∧ s.presses q = some ⟨k, .put file⟩
  · obtain ⟨q, k, file, rfl, hq⟩ := hput
    rw [ownPicture_put_iff h hown hq]
    constructor
    · exact fun hkeep => hkeep.1 q k file rfl hq
    · refine fun hall => ⟨fun q' k' file' he hq' => ?_, nofun⟩
      obtain rfl := UploadEvent.put.inj he
      obtain ⟨-, hfile⟩ := UploadPress.mk.inj (Option.some.inj (hq.symm.trans hq'))
      rw [← UploadStage.put.inj hfile]
      exact hall
  by_cases hupdate : ∃ q k file nft, e = .update q ∧ s.presses q = some ⟨k, .update file nft⟩
  · obtain ⟨q, k, file, nft, rfl, hq⟩ := hupdate
    rw [ownPicture_update_iff h hown hq]
    constructor
    · exact fun hkeep => hkeep.2 q k file nft rfl hq
    · refine fun hall => ⟨nofun, fun q' k' file' nft' he hq' => ?_⟩
      obtain rfl := UploadEvent.update.inj he
      obtain ⟨rfl, hstage⟩ := UploadPress.mk.inj (Option.some.inj (hq.symm.trans hq'))
      rw [← (UploadStage.update.inj hstage).1]
      exact hall
  · have hput' : ∀ q k file, e = .put q → s.presses q ≠ some ⟨k, .put file⟩ :=
      fun q k file he hq => hput ⟨q, k, file, he, hq⟩
    have hupdate' : ∀ q k file nft, e = .update q → s.presses q ≠ some ⟨k, .update file nft⟩ :=
      fun q k file nft he hq => hupdate ⟨q, k, file, nft, he, hq⟩
    constructor
    · exact fun _ => ownPicture_step h hown hput' hupdate'
    · exact fun _ => ⟨fun q k file he hq => absurd hq (hput' q k file he),
        fun q k file nft he hq => absurd hq (hupdate' q k file nft he)⟩

/-- **An NFT keeps its own picture**, in every state of a run, exactly when every step of it meets the
condition. -/
theorem own_picture_iff {users : Users} {pages : ℕ → UploadPage} {es : List UploadEvent} :
    Machine.Along Uploads.step KeepsPictures (Uploads.start users pages) es ↔
      ∀ pre post, es = pre ++ post →
        OwnPicture (Machine.run Uploads.step (Uploads.start users pages) pre) := by
  have hstart : OwnPicture (Uploads.start users pages) := nofun
  exact Machine.along_iff_forall_states (fun s e (h : Uploads.Linked s) => h.step e)
    (fun s e _ h hown => keepsPictures_iff h hown e) (.start users pages) hstart

/-- Two clients with empty wallets. -/
def twoClients : Users :=
  Collection.set (Collection.set ∅ "ann" (registerDoc "Ann")) "bob" (registerDoc "Bob")

/-- The upload pages of the two, with texts typed in. -/
def twoPages : ℕ → UploadPage
  | 0 => ⟨"ann", "Sea", "At the sea"⟩
  | _ => ⟨"bob", "Hills", "In the hills"⟩

/-- Both pick a file with the name the camera gave it, and Bob's `put` comes after Ann's entry is
stored. -/
def sameName : List UploadEvent :=
  [.press 0 0, .pick 0 (some ⟨"IMG_0001.jpg", [1]⟩), .put 0, .link 0 "url", .update 0,
    .press 1 1, .pick 1 (some ⟨"IMG_0001.jpg", [2]⟩), .put 1]

/-- Ann's entry shows Bob's picture. -/
theorem sameName_not_ownPicture :
    ¬ OwnPicture (Machine.run Uploads.step (Uploads.start twoClients twoPages) sameName) := by
  intro h
  have hann := h ⟨"ann", ⟨"Sea", "url", "At the sea"⟩, ⟨"IMG_0001.jpg", [1]⟩⟩
    (List.mem_singleton_self _) [2] rfl
  exact absurd hann (by decide)

end FlutterThree
