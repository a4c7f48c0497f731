import FlutterThree.Reads

/-!
# The links of the uploads

All client apps put their files into one bucket, under the names of the files. An object there is
replaced by any file of the same name, also while a `postNFT` that has put another one is still
under way (`own_picture_iff` of `FlutterThree.Upload`).

`uploaded_links_serve`: the link that an upload has stored nevertheless serves something ever
after, and what it serves somebody has picked under the name of the file that was picked for the
upload.
-/

namespace FlutterThree

open Dart Firestore Storage

/-! ## The uploads of one app -/

/-- The file that was picked. -/
def UploadStage.file? : UploadStage → Option PickedFile
  | .pickImage => none
  | .put file => some file
  | .getDownloadURL file => some file
  | .update file _ => some file

theorem UploadStage.Placed.mono {b b' : Bucket String String Bytes} {stage : UploadStage}
    (h : stage.Placed b) (hb : b.Keeps b') : stage.Placed b' := by
  cases stage with
  | pickImage => trivial
  | put file => trivial
  | getDownloadURL file => exact hb.objects _ h
  | update file nft => exact ⟨hb.links _ _ h.1, hb.objects _ h.2⟩

section

variable {s : Uploads} {e : UploadEvent}

theorem Uploads.keeps_step (s : Uploads) (e : UploadEvent) : s.bucket.Keeps (s.step e).bucket := by
  have heffect := s.effect e
  generalize s.step e = t at heffect
  cases heffect with
  | put q k file he hq => exact Bucket.keeps_put _ _
  | link q k file url he hq hcan => exact Bucket.keeps_issue hcan
  | _ => exact .refl _

/-- A new object is the file of a press. -/
theorem Uploads.object_step {path : String} {x : Bytes}
    (h : (s.step e).bucket.objects path = some x) : s.bucket.objects path = some x ∨
      ∃ q k file, s.presses q = some ⟨k, .put file⟩ ∧ objectPath file = path ∧ file.bytes = x := by
  have heffect := s.effect e
  generalize s.step e = t at h heffect
  cases heffect with
  | put q k file he hq =>
    rcases Bucket.objects_put_eq_some h with ⟨rfl, hnew⟩ | hold
    · exact .inr ⟨q, k, file, hq, rfl, hnew⟩
    · exact .inl hold
  | _ => exact .inl h

/-- A press keeps its page and its file, once it has one. -/
theorem Uploads.file_step {q : ℕ} {press : UploadPress} {file : PickedFile}
    (h : (s.step e).presses q = some press) (hfile : press.stage.file? = some file) :
    (∃ p, s.presses q = some p ∧ p.page = press.page ∧ p.stage.file? = some file) ∨
      e = .pick q (some file) ∧ s.presses q = some ⟨press.page, .pickImage⟩ := by
  have hset : ∀ {q' p p'}, s.presses q' = some p →
      Function.update s.presses q' (some p') q = some press →
      p.page = p'.page ∧ p'.stage.file? = p.stage.file? →
      ∃ p, s.presses q = some p ∧ p.page = press.page ∧ p.stage.file? = some file := by
    rintro q' p p' hp h ⟨hpage, hsame⟩
    rcases Machine.update_eq_some h with ⟨rfl, hnew⟩ | ⟨-, hold⟩
    · obtain rfl := Option.some.inj hnew
      exact ⟨p, hp, hpage, hsame.symm.trans hfile⟩
    · exact ⟨press, hold, rfl, hfile⟩
  have hend : ∀ {q'}, Function.update s.presses q' none q = some press →
      ∃ p, s.presses q = some p ∧ p.page = press.page ∧ p.stage.file? = some file := by
    intro q' h
    rcases Machine.update_eq_some h with ⟨-, hnew⟩ | ⟨-, hold⟩
    · cases hnew
    · exact ⟨press, hold, rfl, hfile⟩
  cases e with
  | pick q' picked =>
    simp only [step] at h
    split at h
    · rename_i k hq'
      rcases Machine.update_eq_some h with ⟨rfl, hnew⟩ | ⟨-, hold⟩
      · obtain ⟨f, rfl, rfl⟩ := Option.map_eq_some_iff.mp hnew
        rw [← hfile]
        exact .inr ⟨rfl, hq'⟩
      · exact .inl ⟨press, hold, rfl, hfile⟩
    · exact .inl ⟨press, h, rfl, hfile⟩
  | press k q' =>
    simp only [step] at h
    split at h
    · split at h
      · exact .inl ⟨press, h, rfl, hfile⟩
      · rcases Machine.update_eq_some h with ⟨-, hnew⟩ | ⟨-, hold⟩
        · obtain rfl := Option.some.inj hnew
          cases hfile
        · exact .inl ⟨press, hold, rfl, hfile⟩
    · exact .inl ⟨press, h, rfl, hfile⟩
  | put q' =>
    simp only [step] at h
    split at h
    · rename_i k f hq'
      exact .inl (hset hq' h ⟨rfl, rfl⟩)
    · exact .inl ⟨press, h, rfl, hfile⟩
  | link q' url =>
    simp only [step] at h
    split at h
    · rename_i k f hq'
      split at h
      · exact .inl (hset hq' h ⟨rfl, rfl⟩)
      · exact .inl ⟨press, h, rfl, hfile⟩
    · exact .inl ⟨press, h, rfl, hfile⟩
  | update q' =>
    simp only [step] at h
    split at h
    · exact .inl (hend h)
    · exact .inl ⟨press, h, rfl, hfile⟩
  | fail q' => exact .inl (hend h)
  | _ => exact .inl ⟨press, h, rfl, hfile⟩

end

/-! ## The uploads of all apps -/

/-- Press `q` is an upload of page `k` that has this file. -/
def Client.Carries (c : Client) (q k : ℕ) (file : PickedFile) : Prop :=
  ∃ press, c.jobs q = some (.upload press) ∧ press.page = k ∧ press.stage.file? = some file

/-- The uploads of the app have done to the bucket what they should, with files of `A`. -/
structure Client.Pictured (A : PickedFile → Prop) (bucket : Bucket String String Bytes)
    (c : Client) : Prop where
  placed : ∀ q press, c.jobs q = some (.upload press) → press.stage.Placed bucket
  files : ∀ q k file, c.Carries q k file → A file

/-- Every object is a file of `A` under its name. -/
def Apps.Objects (A : PickedFile → Prop) (bucket : Bucket String String Bytes) : Prop :=
  ∀ path x, bucket.objects path = some x → ∃ file, A file ∧ objectPath file = path ∧ file.bytes = x

section

variable {A : PickedFile → Prop} {b : Backend} {c : Client} {a : ClientAction}
  {x : Backend × Client} {bucket bucket' : Bucket String String Bytes}

theorem Client.Pictured.mono (h : c.Pictured A bucket) (hb : bucket.Keeps bucket') :
    c.Pictured A bucket' :=
  ⟨fun q press hq => (h.placed q press hq).mono hb, h.files⟩

/-- A step is one of an upload, or leaves the uploads and the bucket as they are. -/
theorem Client.Effect.pictures (h : Effect b c a x) :
    (∃ q e, x = c.withUploads b q e ∧ ∀ q' file, e = .pick q' file → a = .pick q' file) ∨
      x.1.bucket = b.bucket ∧
        ∀ q press, x.2.jobs q = some (.upload press) → c.jobs q = some (.upload press) := by
  have hset : ∀ {q job}, (∀ press, job ≠ some (ClientJob.upload press)) → ∀ q' press,
      Function.update c.jobs q job q' = some (.upload press) → c.jobs q' = some (.upload press) := by
    intro q job hjob q' press hq'
    rcases Machine.update_eq_some hq' with ⟨-, hnew⟩ | ⟨-, hold⟩
    · exact absurd hnew (hjob press)
    · exact hold
  cases h with
  | uploads q e he hk ha => exact .inl ⟨q, e, rfl, ha⟩
  | opened e he =>
    rw [jobs_goTo]
    exact .inr ⟨rfl, fun q press hq => hq⟩
  | loaded k page e hk he ha =>
    rw [jobs_load]
    exact .inr ⟨rfl, fun q press hq => hq⟩
  | registration q e hnumber hk ha =>
    refine .inr ⟨rfl, hset fun press hj => ?_⟩
    obtain ⟨p, -, hp⟩ := Option.map_eq_some_iff.mp hj
    cases hp
  | refreshed q page k =>
    rw [jobs_load]
    exact .inr ⟨rfl, hset fun _ hj => by cases hj⟩
  | keep => exact .inr ⟨rfl, fun q press hq => hq⟩
  | moved e he => exact .inr ⟨rfl, fun q press hq => hq⟩
  | served k f page given hk hf hfree => exact .inr ⟨rfl, fun q press hq => hq⟩
  | signedOut => exact .inr ⟨rfl, fun q press hq => hq⟩
  | _ => exact .inr ⟨rfl, hset fun _ hj => by cases hj⟩

/-- The file of a press is the one that was picked for it. -/
theorem Client.carries_step {q k : ℕ} {file : PickedFile} (h : (c.step b a).2.Carries q k file) :
    c.Carries q k file ∨ a = .pick q (some file) ∧ c.jobs q = some (.upload ⟨k, .pickImage⟩) := by
  obtain ⟨press, hq, rfl, hfile⟩ := h
  rcases (c.effect b a).pictures with ⟨q', e, hx, he⟩ | ⟨-, hjobs⟩
  · rw [hx] at hq
    rcases Machine.update_eq_some hq with ⟨rfl, hnew⟩ | ⟨-, hold⟩
    · obtain ⟨p, hp, hpress⟩ := Option.map_eq_some_iff.mp hnew
      obtain rfl := ClientJob.upload.inj hpress
      rcases Uploads.file_step hp hfile with ⟨p', hp', hpage, hfile'⟩ | ⟨he', hpick⟩
      · exact .inl ⟨p', presses_uploads.mp hp', hpage, hfile'⟩
      · exact .inr ⟨he q (some file) he', presses_uploads.mp hpick⟩
    · exact .inl ⟨press, hold, rfl, hfile⟩
  · exact .inl ⟨press, hjobs q press hq, rfl, hfile⟩

theorem Client.placed_withUploads
    (h : ∀ q press, c.jobs q = some (.upload press) → press.stage.Placed b.bucket) (q : ℕ)
    (e : UploadEvent) {q' : ℕ} {press : UploadPress}
    (hq' : (c.withUploads b q e).2.jobs q' = some (.upload press)) :
    press.stage.Placed (c.withUploads b q e).1.bucket := by
  have hlinked : (c.uploads b).Linked :=
    ⟨fun q' press hq' => h q' press (presses_uploads.mp hq'),
      fun r hr => absurd hr List.not_mem_nil⟩
  rcases Machine.update_eq_some hq' with ⟨-, hnew⟩ | ⟨-, hold⟩
  · obtain ⟨p, hp, hpress⟩ := Option.map_eq_some_iff.mp hnew
    obtain rfl := ClientJob.upload.inj hpress
    exact (hlinked.step e).presses q p hp
  · exact (h q' press hold).mono ((c.uploads b).keeps_step e)

/-- A step of the app keeps what the bucket serves, and puts only files of `A` there. -/
theorem Client.Pictured.step (h : c.Pictured A b.bucket) (hobjects : Apps.Objects A b.bucket)
    (ha : ∀ q file, a = .pick q (some file) → A file) :
    b.bucket.Keeps (c.step b a).1.bucket ∧ (c.step b a).2.Pictured A (c.step b a).1.bucket ∧
      Apps.Objects A (c.step b a).1.bucket := by
  have hfiles : ∀ q k file, (c.step b a).2.Carries q k file → A file := by
    intro q k file hcarries
    rcases Client.carries_step hcarries with hold | ⟨hpick, -⟩
    · exact h.files q k file hold
    · exact ha q file hpick
  rcases (c.effect b a).pictures with ⟨q, e, hx, -⟩ | ⟨hbucket, hjobs⟩
  · rw [hx] at hfiles ⊢
    refine ⟨(c.uploads b).keeps_step e,
      ⟨fun q' press hq' => placed_withUploads h.placed q e hq', hfiles⟩, fun path y hy => ?_⟩
    rcases Uploads.object_step hy with hold | ⟨q', k, file, hq', hpath, hbytes⟩
    · exact hobjects path y hold
    · exact ⟨file, h.files q' k file ⟨_, presses_uploads.mp hq', rfl, rfl⟩, hpath, hbytes⟩
  · rw [hbucket]
    exact ⟨.refl _, ⟨fun q press hq => h.placed q press (hjobs q press hq), hfiles⟩, hobjects⟩

end

/-! ## What was uploaded -/

/-- The uploads of all apps have done to the bucket what they should, with files of `A`. -/
structure Apps.Pictured (A : PickedFile → Prop) (s : Apps) : Prop where
  clients : ∀ i, (s.clients i).Pictured A s.bucket
  objects : Objects A s.bucket

theorem Apps.Pictured.step {A : PickedFile → Prop} {s : Apps} (h : s.Pictured A) {e : AppsEvent}
    (he : ∀ i q file, e = .client i (.pick q (some file)) → A file) :
    s.bucket.Keeps (s.step e).bucket ∧ (s.step e).Pictured A := by
  cases e with
  | admin e => exact ⟨.refl _, h.clients, h.objects⟩
  | client i a =>
    have hclient : (s.clients i).Pictured A s.backend.bucket := h.clients i
    obtain ⟨hkeeps, hstep, hobjects⟩ := hclient.step h.objects fun q file ha =>
      he i q file (congrArg _ ha)
    refine ⟨hkeeps, fun j => ?_, hobjects⟩
    by_cases hij : j = i
    · subst hij
      rw [Apps.step, Apps.clients_setClient]
      exact hstep
    · have hother : (s.step (.client i a)).clients j = s.clients j := Function.update_of_ne hij _ _
      rw [hother]
      exact (h.clients j).mono hkeeps

theorem Apps.Pictured.run {A : PickedFile → Prop} {s : Apps} (h : s.Pictured A)
    {es : List AppsEvent} (hes : ∀ i q file, .client i (.pick q (some file)) ∈ es → A file) :
    s.bucket.Keeps (Machine.run Apps.step s es).bucket ∧
      (Machine.run Apps.step s es).Pictured A := by
  have hstep : ∀ t : Apps, ∀ e ∈ es, s.bucket.Keeps t.bucket ∧ t.Pictured A →
      s.bucket.Keeps (t.step e).bucket ∧ (t.step e).Pictured A := by
    rintro t e hmem ⟨hkeeps, ht⟩
    obtain ⟨hkeeps', ht'⟩ := ht.step fun i q file he => hes i q file (he ▸ hmem)
    exact ⟨hkeeps.trans hkeeps', ht'⟩
  exact Machine.run_invariant_of_mem Apps.step hstep ⟨.refl _, h⟩

/-- Somebody picks the file in one of the events. -/
def Picked (es : List AppsEvent) (file : PickedFile) : Prop :=
  ∃ i q, .client i (.pick q (some file)) ∈ es

section

variable {users : Users} {accounts : List Account} {accepts : String → String → Bool}
  {currentUsers : ℕ → Option String}

theorem Apps.pictured_start (A : PickedFile → Prop) :
    (Apps.start users accounts accepts currentUsers).Pictured A := by
  refine ⟨fun i => ⟨fun _ _ hq => (by cases hq), fun _ _ _ hcarries => ?_⟩,
    fun _ _ hx => (by cases hx)⟩
  obtain ⟨press, hq, -⟩ := hcarries
  cases hq

/-- The step picks the file for press `q` of page `k` of client app `i`. -/
def Apps.PicksFor (i q k : ℕ) (file : PickedFile) (s : Apps) (e : AppsEvent) : Prop :=
  e = .client i (.pick q (some file)) ∧ (s.clients i).jobs q = some (.upload ⟨k, .pickImage⟩)

theorem Apps.exists_picksFor {es : List AppsEvent} {i q k : ℕ} {file : PickedFile}
    (h : ((Machine.run Apps.step (Apps.start users accounts accepts currentUsers) es).clients
      i).Carries q k file) :
    ∃ pre e post, es = pre ++ e :: post ∧ Apps.PicksFor i q k file
      (Machine.run Apps.step (Apps.start users accounts accepts currentUsers) pre) e := by
  refine Machine.exists_split_of_run (fun s => (s.clients i).Carries q k file) (fun s e hnext => ?_)
    (fun ⟨_, hq, _⟩ => by cases hq) h
  rcases s.client_step e i with hkeep | ⟨a, rfl, hstep⟩
  · rw [hkeep] at hnext
    exact .inl hnext
  · rw [hstep, clients_setClient] at hnext
    exact (Client.carries_step hnext).imp_right fun ⟨ha, hq⟩ => ⟨congrArg _ ha, hq⟩

/-- **The link of an upload serves** something ever after: a file that somebody has picked, of the
name of the one that was picked for it. -/
theorem uploaded_links_serve {es before after : List AppsEvent} {s : Apps}
    (hs : s = Machine.run Apps.step (Apps.start users accounts accepts currentUsers) es) {i q k : ℕ}
    {own : PickedFile} {nft : NftArt} (hes : es = before ++ .client i (.update q) :: after)
    (hq : ((Machine.run Apps.step (Apps.start users accounts accepts currentUsers) before).clients
      i).jobs q = some (.upload ⟨k, .update own nft⟩)) :
    (∃ pre e post, before = pre ++ e :: post ∧ Apps.PicksFor i q k own
        (Machine.run Apps.step (Apps.start users accounts accepts currentUsers) pre) e) ∧
      ∃ file, Picked es file ∧ file.name = own.name ∧
        s.bucket.serve nft.image = some file.bytes := by
  refine ⟨Apps.exists_picksFor ⟨_, hq, rfl, rfl⟩, ?_⟩
  have hpicked : ∀ j p file, .client j (.pick p (some file)) ∈ es → Picked es file :=
    fun j p file hmem => ⟨j, p, hmem⟩
  have hstart : (Apps.start users accounts accepts currentUsers).Pictured (Picked es) :=
    Apps.pictured_start _
  -- the link is the one that was issued for the file of the press
  have hbefore := hstart.run fun j p file (hmem : _ ∈ before) =>
    hpicked j p file (hes ▸ List.mem_append_left _ hmem)
  obtain ⟨hissued, hobject⟩ := (hbefore.2.clients i).placed q _ hq
  obtain ⟨hkeeps, hpictured⟩ := hbefore.2.run
    fun j p file (hmem : _ ∈ .client i (.update q) :: after) =>
      hpicked j p file (hes ▸ List.mem_append_right _ hmem)
  rw [← Machine.run_append, ← hes, ← hs] at hkeeps hpictured
  obtain ⟨x, hx⟩ := Option.isSome_iff_exists.mp (hkeeps.objects _ hobject)
  obtain ⟨file, hfile, hpath, rfl⟩ := hpictured.objects _ x hx
  refine ⟨file, hfile, objectPath_inj.mp hpath, ?_⟩
  rw [Bucket.serve, hkeeps.links _ _ hissued, Option.bind_some]
  exact hx

end

/-- Ann uploads on one device; on her other one another file of the same name is put, later. -/
def hillReplaced : List AppsEvent :=
  signingIn 0 ++ [.client 0 .openUpload, .client 0 (.type .name "Hill"),
    .client 0 (.type .description "The same hill"), .client 0 (.press 1),
    .client 0 (.pick 1 (some ⟨"hill.png", [1]⟩)), .client 0 (.put 1)]

theorem uploaded_links_serve_hill :
    (∃ pre e post, signingIn 1 ++ uploading 1 = pre ++ e :: post ∧
      Apps.PicksFor 1 1 2 ⟨"hill.png", []⟩ (Machine.run Apps.step annsDevices pre) e) ∧
      ∃ file, Picked (signingIn 1 ++ uploading 1 ++ .client 1 (.update 1) :: hillReplaced) file ∧
        file.name = "hill.png" ∧ (Machine.run Apps.step annsDevices
          (signingIn 1 ++ uploading 1 ++ .client 1 (.update 1) :: hillReplaced)).bucket.serve
            "link" = some file.bytes := by
  have hq : ((Machine.run Apps.step annsDevices (signingIn 1 ++ uploading 1)).clients 1).jobs 1 =
    some (.upload ⟨2, .update ⟨"hill.png", []⟩ ⟨"Hill", "link", "On a hill"⟩⟩) := rfl
  exact uploaded_links_serve rfl rfl hq

end FlutterThree
