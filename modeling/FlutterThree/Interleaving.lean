import FlutterThree.Users
import Mathlib.Data.List.Permutation

/-!
# What overlapping presses do to the NFT list and to the role

A press writes back the whole document as its `get` returned it, so a write that lands between its
two steps is undone. Two results say when this does no harm.

`nft_list_serial`: if every write-back finds the NFT list its press had read (up to the entry the
press addresses), or carries none, the list is the one the committed operations produce one after
another.

`role_set_iff`: the stored role is the last one chosen, in every state of a run, exactly when no NFT
handler writes back a role other than the stored one.

Both views of a document, the list and the role, are changed by an operation through that view
alone; the list is an instance of `Serial.SerialFrom`.
-/

namespace FlutterThree

open Dart Firestore

/-! ## The NFT list -/

/-- The committed uploads, Adds, Edits and Deletes on the document of `uid`, in commit order. -/
def nftOps (uid : String) (log : List Commit) : List Op :=
  log.filterMap fun c => if c.uid = uid ∧ c.op.roleChoice = none then some c.op else none

/-- The NFT list left on the document of `uid` is the one its committed NFT operations produce,
executed one after another, each atomically, in some order. -/
def SerialNft (uid : String) (s₀ s : Db) : Prop :=
  ∀ d₀, s₀.users.get uid = some d₀ →
    ∃ d, s.users.get uid = some d ∧
      ∃ order d', order.Perm (nftOps uid s.log) ∧ Serial.SerialFrom Op.exec d₀ order d' ∧
        d'.index "NFT" = d.index "NFT"

/-- `v'` is the list `v` that a press had read, up to the entry the press addresses: an Edit of `n`
may find other texts in entry `n`, a Delete of `n` any entry there. -/
def Undisturbed : Handler → Value → Value → Prop
  | .editNft n _, v, v' => v' = v ∨ ∃ nft, editAt n nft v = .ok v'
  | .deleteNft n, v, v' => v' = v ∨ ∃ xs x, v = .list xs ∧ v' = .list (xs.set n x)
  | _, v, v' => v' = v

/-- A press that writes back to `uid` finds the NFT list it had read, up to the entry it addresses, or
it is a role choice that has read no NFT field. -/
def NftFresh (uid : String) (s : Db) (e : Event) : Prop :=
  ∀ p w seen doc, e = .update p → s.writes p = some w → w.uid = uid → w.seen = some seen →
    s.users.get uid = some doc →
      w.handler.roleChoice ≠ none ∧ seen.lookup "NFT" = none ∨
        Undisturbed w.handler (seen.index "NFT") (doc.index "NFT")

/-- The three assignments of 'Edit NFT' on the fields of an entry. -/
def putTexts (nft : NftArt) (m : Fields) : Fields :=
  ((m.put "desc" (.str nft.desc)).put "image" (.str nft.image)).put "name" (.str nft.name)

private theorem isSome_lookup_put {m : Fields} {k : String} (j : String) (v : Value)
    (h : (m.lookup k).isSome) : ((m.put j v).lookup k).isSome := by
  rw [Fields.lookup_put]
  split
  · rfl
  · exact h

/-- The texts of an earlier Edit of the same entry are gone after the next one. -/
theorem putTexts_putTexts (nft nft' : NftArt) (m : Fields) :
    putTexts nft (putTexts nft' m) = putTexts nft m := by
  have hdesc : ∀ (m : Fields) (v : Value), ((m.put "desc" v).lookup "desc").isSome := fun m v => by
    rw [Fields.lookup_put_self]
    rfl
  have himage : ∀ (m : Fields) (v : Value), ((m.put "image" v).lookup "image").isSome :=
    fun m v => by
      rw [Fields.lookup_put_self]
      rfl
  unfold putTexts
  rw [Fields.put_comm (isSome_lookup_put _ _ (hdesc _ _)) (by decide),
    Fields.put_comm (hdesc _ _) (by decide), Fields.put_put,
    Fields.put_comm (himage _ _) (by decide), Fields.put_put, Fields.put_put]

/-- An Edit that returns found a map at its index. -/
theorem editAt_eq_ok {n : ℕ} {nft : NftArt} {v v' : Value} :
    editAt n nft v = .ok v' ↔
      ∃ xs m, v = .list xs ∧ xs[n]? = some (.map m) ∧
        v' = .list (xs.set n (.map (putTexts nft m))) := by
  constructor
  · intro h
    unfold editAt at h
    rw [bind_eq_ok] at h
    obtain ⟨v₁, h₁, h⟩ := h
    cases v with
    | list xs =>
      simp only [Value.assignAt] at h₁
      cases hx : xs[n]? with
      | none => simp only [hx] at h₁; cases h₁
      | some x =>
        simp only [hx] at h₁
        cases x with
        | map m =>
          obtain rfl := Except.ok.inj h₁
          obtain ⟨hn, -⟩ := List.getElem?_eq_some_iff.mp hx
          simp only [Value.assignAt, List.getElem?_set_self hn, Value.assign, ok_bind, pure_eq_ok,
            List.set_set] at h
          exact ⟨xs, m, rfl, hx, (Except.ok.inj h).symm⟩
        | _ => cases h₁
    | str t =>
      simp only [Value.assignAt] at h₁
      split at h₁ <;> cases h₁
    | _ => cases h₁
  · rintro ⟨xs, m, rfl, hx, rfl⟩
    obtain ⟨hn, -⟩ := List.getElem?_eq_some_iff.mp hx
    simp only [editAt, Value.assignAt, hx, Value.assign, ok_bind, pure_eq_ok,
      List.getElem?_set_self hn, List.set_set]
    rfl

/-- What the press would compute now is what it computed. -/
theorem Undisturbed.coherent {h : Handler} {v v' : Value} (hu : Undisturbed h v v') :
    h.onNft v = h.onNft v' := by
  cases h with
  | addNft nft => rw [show v' = v from hu]
  | chooseRole r => rw [show v' = v from hu]
  | editNft n nft =>
    rcases hu with rfl | ⟨nft', hedit⟩
    · rfl
    · obtain ⟨xs, m, rfl, hx, rfl⟩ := editAt_eq_ok.mp hedit
      obtain ⟨hn, -⟩ := List.getElem?_eq_some_iff.mp hx
      have hread : editAt n nft (.list xs) = .ok (.list (xs.set n (.map (putTexts nft m)))) :=
        editAt_eq_ok.mpr ⟨xs, m, rfl, hx, rfl⟩
      have hfound : editAt n nft (.list (xs.set n (.map (putTexts nft' m)))) =
          .ok (.list (xs.set n (.map (putTexts nft m)))) :=
        editAt_eq_ok.mpr ⟨_, _, rfl, List.getElem?_set_self hn, by
          rw [List.set_set, putTexts_putTexts]⟩
      exact hread.trans hfound.symm
  | deleteNft n =>
    rcases hu with rfl | ⟨xs, x, rfl, rfl⟩
    · rfl
    · simp only [Handler.onNft, Value.removeAt, List.length_set, List.eraseIdx_set_eq]

theorem nftOps_append (uid : String) (log log' : List Commit) :
    nftOps uid (log ++ log') = nftOps uid log ++ nftOps uid log' :=
  List.filterMap_append

theorem nftOps_nft {uid : String} {o : Op} (ho : o.roleChoice = none) :
    nftOps uid [⟨uid, o⟩] = [o] := by
  simp [nftOps, ho]

theorem nftOps_roleChoice {uid : String} {o : Op} (ho : o.roleChoice ≠ none) :
    nftOps uid [⟨uid, o⟩] = [] := by
  simp [nftOps, ho]

theorem nftOps_other {uid : String} {log : List Commit} (h : ∀ c ∈ log, c.uid ≠ uid) :
    nftOps uid log = [] := by
  rw [nftOps, List.filterMap_eq_nil_iff]
  intro c hc
  rw [if_neg fun hboth => h c hc hboth.1]

/-- The NFT list of `uid` is `v₀` after the NFT operations committed so far. -/
def NftSerial (uid : String) (v₀ : Value) (s : Db) : Prop :=
  ∃ d, s.users.get uid = some d ∧
    Serial.SerialFrom Op.onNft v₀ (nftOps uid s.log) (d.index "NFT")

/-- One step: a fresh write-back extends the serial execution by its operation. -/
theorem NftSerial.step {uid : String} {v₀ : Value} {s : Db} {e : Event}
    (h : NftSerial uid v₀ s) (hfresh : NftFresh uid s e) (hkeep : ¬ e.ReplacesDoc uid) :
    NftSerial uid v₀ (s.step e) := by
  obtain ⟨d, hd, hserial⟩ := h
  have hstep := s.docStep e uid
  unfold NftSerial
  generalize hget : (s.step e).users.get uid = res at hstep
  generalize hlog : (s.step e).log = log at hstep
  cases hstep with
  | keep => exact ⟨d, hd, hserial⟩
  | other c hc =>
    refine ⟨d, hd, ?_⟩
    rw [nftOps_append, nftOps_other hc, List.append_nil]
    exact hserial
  | register name he => exact absurd (he ▸ rfl) hkeep
  | delete he => exact absurd (he ▸ rfl) hkeep
  | upload nft doc he hdoc =>
    obtain rfl := Option.some.inj (hd.symm.trans hdoc)
    refine ⟨_, rfl, ?_⟩
    rw [nftOps_append, nftOps_nft rfl, index_nft_postNFT]
    exact hserial.snoc rfl
  | update p w doc he hw huid hdoc =>
    obtain rfl := Option.some.inj (hd.symm.trans hdoc)
    obtain ⟨seen, hseen, hok⟩ := w.exists_seen
    have hdata := w.handler.index_nft_of_ok hok
    refine ⟨_, rfl, ?_⟩
    rw [nftOps_append]
    rcases hfresh p w seen d he hw huid hseen hdoc with ⟨hr, hnone⟩ | hu
    · -- a role choice without a list leaves the one that is there
      have hchoice : (Op.handler w.handler).roleChoice ≠ none := hr
      rw [nftOps_roleChoice hchoice, List.append_nil,
        w.handler.index_nft_overwrite_of_none hok hr hnone]
      exact hserial
    by_cases hr : (Op.handler w.handler).roleChoice = none
    · -- an NFT handler: its operation is stored coherently
      rw [nftOps_nft hr, w.handler.index_nft_overwrite hok fun hne => absurd hr hne]
      exact hserial.commit hu.coherent hdata
    · -- a role choice writes the list it had read, which is the stored one
      have hlist : d.index "NFT" = seen.index "NFT" := by
        cases hh : w.handler with
        | chooseRole r =>
          rw [hh] at hu
          exact hu
        | _ =>
          rw [hh] at hr
          exact absurd rfl hr
      have hsame : w.data.index "NFT" = seen.index "NFT" := by
        cases hh : w.handler with
        | chooseRole r =>
          rw [hh] at hdata
          exact (Except.ok.inj hdata).symm
        | _ =>
          rw [hh] at hr
          exact absurd rfl hr
      rw [nftOps_roleChoice hr, List.append_nil,
        w.handler.index_nft_overwrite hok fun _ => hlist, hsame, ← hlist]
      exact hserial

/-- **No lost or resurrected NFT writes**, when every write-back finds the list its press had
read. -/
theorem nft_list_serial {users : Users} {es : List Event} {uid : String}
    (hkeep : ∀ e ∈ es, ¬ e.ReplacesDoc uid)
    (hfresh : Machine.Along Db.step (NftFresh uid) (Db.start users) es) :
    SerialNft uid (Db.start users) (Machine.run Db.step (Db.start users) es) := by
  intro d₀ hd₀
  have hstart : NftSerial uid (d₀.index "NFT") (Db.start users) :=
    ⟨d₀, hd₀, Serial.SerialFrom.nil _⟩
  obtain ⟨d, hd, hserial⟩ := (hfresh.and_mem hkeep).invariant
    (fun s e hs hP => hs.step hP.1 hP.2) hstart
  obtain ⟨d', hd', hview⟩ := hserial.lift (Fields.index · "NFT") fun o _ _ => Op.exec_nft o
  exact ⟨d, hd, _, d', List.Perm.refl _, hd', hview⟩

/-- A document with an empty wallet. -/
def annDoc : Fields := [("name", .str "Ann"), ("role", .str "admin"), ("NFT", .list [])]

def annUsers : Users := Collection.set ∅ "ann" annDoc

/-- Edits and uploads that follow one another. -/
theorem nft_list_serial_sequential :
    SerialNft "ann" (Db.start annUsers) (Machine.run Db.step (Db.start annUsers)
      [.upload "ann" ⟨"a", "i", "d"⟩, .get 0 "ann" (.editNft 0 ⟨"b", "i", "d"⟩), .update 0]) := by
  refine nft_list_serial (by decide) ⟨?_, ?_, ?_, trivial⟩
  · exact fun p w seen doc he => by cases he
  · exact fun p w seen doc he => by cases he
  · intro p w seen doc he hw huid hseen hdoc
    obtain rfl : 0 = p := Event.update.inj he
    obtain rfl := Option.some.inj hw
    exact .inr (.inl (by rw [Option.some.inj (hdoc.symm.trans hseen)]))

/-- An upload between the two steps of an Add. -/
def lostUpload : List Event :=
  [.get 0 "ann" (.addNft ⟨"a", "i", "d"⟩), .upload "ann" ⟨"b", "i", "d"⟩, .update 0]

/-- The upload is lost: no order of the two committed operations leaves a single entry. -/
theorem lostUpload_not_serial :
    (∀ e ∈ lostUpload, ¬ e.ReplacesDoc "ann") ∧
      (Machine.run Db.step (Db.start annUsers) lostUpload).Idle ∧
      ¬ SerialNft "ann" (Db.start annUsers)
        (Machine.run Db.step (Db.start annUsers) lostUpload) := by
  refine ⟨by decide, fun p => ?_, fun h => ?_⟩
  · change Function.update (Function.update (fun _ => none) 0 _) 0 none p = none
    rw [Function.update_idem, Function.update_apply]
    split <;> rfl
  · obtain ⟨d, hd, order, d', hperm, hserial, hlist⟩ := h annDoc rfl
    have hleft : (((Machine.run Db.step (Db.start annUsers) lostUpload).users.get "ann").map
        (·.index "NFT")) = some (.list [nftMap ⟨"a", "i", "d"⟩]) := rfl
    rw [hd, Option.map_some, Option.some.injEq, ← hlist] at hleft
    have hlength := congrArg (fun v => (elements v).length) hleft
    rcases List.perm_pair.mp hperm with rfl | rfl
    · obtain rfl := Except.ok.inj hserial
      exact absurd hlength (by decide)
    · obtain rfl := Except.ok.inj hserial
      exact absurd hlength (by decide)

/-! ## The role -/

/-- The role chosen by the last committed role choice on the document of `uid`. -/
def lastChoice (uid : String) (log : List Commit) : Option RoleItem :=
  (log.filterMap fun c => if c.uid = uid then c.op.roleChoice else none).getLast?

/-- The stored role is the last one chosen, or the one of `d₀` when none was. -/
def RoleSet (uid : String) (d₀ : Fields) (s : Db) : Prop :=
  ∃ d, s.users.get uid = some d ∧
    d.lookup "role" = ((lastChoice uid s.log).map fun r => Value.str r.value).or (d₀.lookup "role")

/-- An NFT handler that writes back to `uid` carries no role, or the stored one. -/
def RoleFresh (uid : String) (s : Db) (e : Event) : Prop :=
  ∀ p w seen doc, e = .update p → s.writes p = some w → w.uid = uid →
    w.handler.roleChoice = none → w.seen = some seen → s.users.get uid = some doc →
      seen.lookup "role" = none ∨ seen.lookup "role" = doc.lookup "role"

theorem lastChoice_append_none {uid : String} {log log' : List Commit}
    (h : ∀ c ∈ log', c.uid = uid → c.op.roleChoice = none) :
    lastChoice uid (log ++ log') = lastChoice uid log := by
  have hnil : (log'.filterMap fun c => if c.uid = uid then c.op.roleChoice else none) = [] := by
    rw [List.filterMap_eq_nil_iff]
    intro c hc
    split
    · exact h c hc ‹_›
    · rfl
  rw [lastChoice, List.filterMap_append, hnil, List.append_nil]
  rfl

theorem lastChoice_snoc {uid : String} {log : List Commit} {o : Op} {r : RoleItem}
    (ho : o.roleChoice = some r) : lastChoice uid (log ++ [⟨uid, o⟩]) = some r := by
  simp [lastChoice, List.filterMap_append, ho]

/-- The role after an NFT handler's write-back: the one it carries, if any. -/
theorem Write.lookup_role {w : Write} (hr : w.handler.roleChoice = none) {seen : Fields}
    (hseen : w.seen = some seen) (doc : Fields) :
    (overwrite w.data doc).lookup "role" = (seen.lookup "role").or (doc.lookup "role") := by
  have hok : w.handler.onPressed (some seen) = .ok w.data := hseen ▸ w.computed
  rw [lookup_overwrite, w.handler.lookup_of_ok hok (by decide) fun hne => absurd hr hne]

/-- One step keeps the role set exactly when an NFT handler's write-back is fresh. -/
theorem roleFresh_iff {uid : String} {d₀ : Fields} {s : Db} {e : Event}
    (hkeep : ¬ e.ReplacesDoc uid) (h : RoleSet uid d₀ s) :
    RoleFresh uid s e ↔ RoleSet uid d₀ (s.step e) := by
  obtain ⟨d, hd, hrole⟩ := h
  constructor
  · intro hfresh
    have hstep := s.docStep e uid
    unfold RoleSet
    generalize hget : (s.step e).users.get uid = res at hstep
    generalize hlog : (s.step e).log = log at hstep
    cases hstep with
    | keep => exact ⟨d, hd, hrole⟩
    | other c hc =>
      refine ⟨d, hd, ?_⟩
      rw [lastChoice_append_none fun x hx huid => absurd huid (hc x hx)]
      exact hrole
    | register name he => exact absurd (he ▸ rfl) hkeep
    | delete he => exact absurd (he ▸ rfl) hkeep
    | upload nft doc he hdoc =>
      obtain rfl := Option.some.inj (hd.symm.trans hdoc)
      refine ⟨_, rfl, ?_⟩
      rw [lookup_postNFT nft d (by decide), lastChoice_append_none (by simp [Op.roleChoice])]
      exact hrole
    | update p w doc he hw huid hdoc =>
      obtain rfl := Option.some.inj (hd.symm.trans hdoc)
      obtain ⟨seen, hseen, hok⟩ := w.exists_seen
      refine ⟨_, rfl, ?_⟩
      cases hr : w.handler.roleChoice with
      | none =>
        -- what an NFT handler had read comes back; it is what is stored
        rw [w.lookup_role hr hseen, lastChoice_append_none (by simp [Op.roleChoice, hr]), ← hrole]
        rcases hfresh p w seen d he hw huid hr hseen hdoc with hnone | hsame
        · rw [hnone, Option.none_or]
        · rw [hsame, Option.or_self]
      | some r =>
        have hdata : w.data.lookup "role" = some (.str r.value) := by
          rw [w.handler.data_of_roleChoice hr hok, Fields.lookup_put_self]
        rw [lookup_overwrite_of_some hdata,
          lastChoice_snoc (show (Op.handler w.handler).roleChoice = some r from hr)]
        rfl
  · -- the role stored after the step is the carried one, so that was the stored one already
    rintro hset p w seen doc rfl hw rfl hr hseen hdoc
    obtain ⟨d', hd', hrole'⟩ := hset
    obtain ⟨hget, hlog⟩ := Db.step_update hw hdoc
    rw [hget, Option.some.injEq] at hd'
    rw [hdoc, Option.some.injEq] at hd
    rw [hlog, lastChoice_append_none (by simp [Op.roleChoice, hr]), ← hrole, ← hd', ← hd,
      w.lookup_role hr hseen] at hrole'
    cases hcarried : seen.lookup "role" with
    | none => exact .inl rfl
    | some v =>
      rw [hcarried, Option.some_or] at hrole'
      exact .inr hrole'

/-- **Only role choices set the role**, in every state of a run, exactly when every NFT handler's
write-back carries the stored role or none. -/
theorem role_set_iff {users : Users} {es : List Event} {uid : String} {d₀ : Fields}
    (hd₀ : users.get uid = some d₀) (hkeep : ∀ e ∈ es, ¬ e.ReplacesDoc uid) :
    Machine.Along Db.step (RoleFresh uid) (Db.start users) es ↔
      ∀ pre post, es = pre ++ post →
        RoleSet uid d₀ (Machine.run Db.step (Db.start users) pre) := by
  have htrue : ∀ (s : Db) (e : Event), True → True := fun _ _ h => h
  refine Machine.along_iff_forall_states htrue ?_ trivial ⟨d₀, hd₀, rfl⟩
  intro s e he _ hs
  exact roleFresh_iff (hkeep e he) hs

/-- A demotion, and an Add that it does not overlap. -/
def addAfterDemotion : List Event :=
  [.get 0 "ann" (.chooseRole .user), .update 0, .get 1 "ann" (.addNft ⟨"a", "i", "d"⟩), .update 1]

theorem role_set_iff_sequential :
    RoleSet "ann" annDoc (Machine.run Db.step (Db.start annUsers) addAfterDemotion) := by
  have hfresh : Machine.Along Db.step (RoleFresh "ann") (Db.start annUsers) addAfterDemotion := by
    refine ⟨fun p w seen doc he => (by cases he), ?_, fun p w seen doc he => (by cases he), ?_,
      trivial⟩
    · intro p w seen doc he hw _ hr
      obtain rfl : 0 = p := Event.update.inj he
      obtain rfl := Option.some.inj hw
      cases hr
    · -- the Add has read the new role, and finds it
      intro p w seen doc he hw _ _ hseen hdoc
      obtain rfl : 1 = p := Event.update.inj he
      obtain rfl := Option.some.inj hw
      exact .inr (by rw [Option.some.inj (hdoc.symm.trans hseen)])
  exact (role_set_iff (show annUsers.get "ann" = some annDoc from rfl) (by decide)).mp hfresh _ []
    (List.append_nil _).symm

/-- A demotion between the two steps of an Add. -/
def undoneDemotion : List Event :=
  [.get 0 "ann" (.addNft ⟨"a", "i", "d"⟩), .get 1 "ann" (.chooseRole .user), .update 1, .update 0]

/-- The Add gives the demoted user the former role back. -/
theorem undoneDemotion_not_roleSet :
    (∀ e ∈ undoneDemotion, ¬ e.ReplacesDoc "ann") ∧
      (Machine.run Db.step (Db.start annUsers) undoneDemotion).Idle ∧
      ¬ RoleSet "ann" annDoc (Machine.run Db.step (Db.start annUsers) undoneDemotion) := by
  refine ⟨by decide, fun p => ?_, fun h => ?_⟩
  · change Function.update (Function.update (Function.update (Function.update (fun _ => none)
      0 _) 1 _) 1 none) 0 none p = none
    simp only [Function.update_apply]
    split
    · rfl
    · split <;> rfl
  · obtain ⟨d, hd, hrole⟩ := h
    have hleft : ((Machine.run Db.step (Db.start annUsers) undoneDemotion).users.get "ann").map
        (·.lookup "role") = some (some (.str "admin")) := rfl
    rw [hd, Option.map_some, Option.some.injEq, hrole] at hleft
    have htexts : "user" = "admin" := Value.str.inj (Option.some.inj hleft)
    exact absurd htexts (by decide)

end FlutterThree
