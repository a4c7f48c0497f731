import FlutterThree.Lib.Machine
import FlutterThree.Handlers

/-!
# Sessions over the `users` collection

A press of Add, Edit, Delete or of a role menu item runs in two steps with anything in between: the
`get` whose answer its handler changes in memory, and the `update` that writes the whole map back.
Uploads, registrations and user deletions are single writes. `step` takes one such step; presses are
numbered, any number of them may be between their two steps, and a handler that raises ends there
without a write.

`log` records the operations whose write took effect, in the order of their writes. It is not part
of the apps' state: no step reads it.
-/

namespace FlutterThree

open Dart Firestore

abbrev Users := Collection String

/-- A press between its `get` and its `update`: what it read, and the map it will write. -/
structure Write where
  uid : String
  handler : Handler
  seen : Option Fields
  data : Fields
  computed : handler.onPressed seen = .ok data

/-- The handler resumed with the answer of its `get`: a pending write, unless it raises. -/
def Write.begin (uid : String) (h : Handler) (seen : Option Fields) : Option Write :=
  match hdata : h.onPressed seen with
  | .ok data => some ⟨uid, h, seen, data, hdata⟩
  | .error _ => none

theorem Write.begin_eq_some {uid : String} {h : Handler} {seen : Option Fields} {w : Write}
    (hw : Write.begin uid h seen = some w) : w.uid = uid ∧ w.handler = h ∧ w.seen = seen := by
  unfold Write.begin at hw
  split at hw
  · obtain rfl := Option.some.inj hw
    exact ⟨rfl, rfl, rfl⟩
  · cases hw

/-- The document the press had read. -/
theorem Write.exists_seen (w : Write) :
    ∃ d, w.seen = some d ∧ w.handler.onPressed (some d) = .ok w.data := by
  obtain ⟨d, hd⟩ := Handler.exists_seen w.computed
  exact ⟨d, hd, hd ▸ w.computed⟩

/-- A write that took effect. -/
structure Commit where
  uid : String
  op : Op
  deriving Repr, DecidableEq

/-- The collection, the presses between their two steps, and the history of effective writes. -/
structure Db where
  users : Users
  writes : ℕ → Option Write
  log : List Commit

/-- Nothing pending, nothing written yet. -/
def Db.start (users : Users) : Db := ⟨users, fun _ => none, []⟩

inductive Event where
  /-- Press `p` of a button: the handler's `get` is answered. -/
  | get (p : ℕ) (uid : String) (h : Handler)
  /-- The `update` of press `p` reaches the store. -/
  | update (p : ℕ)
  /-- The `update` of a `postNFT` reaches the store. -/
  | upload (uid : String) (nft : NftArt)
  /-- The `set` of a `postRegister` reaches the store. -/
  | register (uid : String) (name : String)
  /-- The `delete` of a user reaches the store. -/
  | deleteUser (uid : String)

/-- The log entry of an `update`, which has no effect on an absent document. -/
def Db.committed (s : Db) (uid : String) (op : Op) : List Commit :=
  if (s.users.get uid).isSome then [⟨uid, op⟩] else []

def Db.step (s : Db) : Event → Db
  | .get p uid h =>
    match s.writes p with
    | none =>
      { s with writes := Function.update s.writes p (Write.begin uid h (s.users.get uid)) }
    -- the number of a press under way is not used again
    | some _ => s
  | .update p =>
    match s.writes p with
    | some w =>
      { users := s.users.update w.uid (overwrite w.data)
        writes := Function.update s.writes p none
        log := s.log ++ s.committed w.uid (.handler w.handler) }
    | none => s
  | .upload uid nft =>
    { s with
      users := s.users.update uid (postNFT nft)
      log := s.log ++ s.committed uid (.upload nft) }
  | .register uid name => { s with users := s.users.set uid (registerDoc name) }
  | .deleteUser uid => { s with users := s.users.delete uid }

/-- All presses have finished. -/
def Db.Idle (s : Db) : Prop := ∀ p, s.writes p = none

/-- The event creates, replaces or removes the whole document of `uid`. -/
def Event.ReplacesDoc (uid : String) : Event → Prop
  | .register u _ => u = uid
  | .deleteUser u => u = uid
  | _ => False

instance (uid : String) : (e : Event) → Decidable (e.ReplacesDoc uid)
  | .register u _ => inferInstanceAs (Decidable (u = uid))
  | .deleteUser u => inferInstanceAs (Decidable (u = uid))
  | .get _ _ _ => .isFalse id
  | .update _ => .isFalse id
  | .upload _ _ => .isFalse id

/-! ## What a step does -/

/-- A pending write after a step was pending before, or was begun by the step's `get`. -/
theorem Db.writes_step {s : Db} {e : Event} {p : ℕ} {w : Write}
    (h : (s.step e).writes p = some w) :
    s.writes p = some w ∨
      (s.writes p = none ∧ e = .get p w.uid w.handler ∧ w.seen = s.users.get w.uid) := by
  cases e with
  | get q uid hd =>
    cases hq : s.writes q with
    | some _ =>
      simp only [Db.step, hq] at h
      exact .inl h
    | none =>
      simp only [Db.step, hq] at h
      rcases Machine.update_eq_some h with ⟨rfl, hnew⟩ | ⟨-, hold⟩
      · obtain ⟨rfl, rfl, hseen⟩ := Write.begin_eq_some hnew
        exact .inr ⟨hq, rfl, hseen⟩
      · exact .inl hold
  | update q =>
    cases hq : s.writes q with
    | none =>
      simp only [Db.step, hq] at h
      exact .inl h
    | some _ =>
      simp only [Db.step, hq] at h
      rcases Machine.update_eq_some h with ⟨-, hnew⟩ | ⟨-, hold⟩
      · cases hnew
      · exact .inl hold
  | upload _ _ => exact .inl h
  | register _ _ => exact .inl h
  | deleteUser _ => exact .inl h

/-- A handler that raises writes nothing. -/
theorem Db.writes_get_of_error {s : Db} {p : ℕ} {uid : String} {h : Handler} {x : DartError}
    (hfree : s.writes p = none) (hx : h.onPressed (s.users.get uid) = .error x) :
    (s.step (.get p uid h)).writes p = none := by
  have hnone : Write.begin uid h (s.users.get uid) = none := by
    cases hw : Write.begin uid h (s.users.get uid) with
    | none => rfl
    | some w =>
      obtain ⟨rfl, rfl, hseen⟩ := Write.begin_eq_some hw
      rw [← hseen, w.computed] at hx
      cases hx
  simp only [Db.step, hfree, Function.update_self, hnone]

/-- A `get` writes nothing. -/
theorem Db.users_step_get (s : Db) (p : ℕ) (uid : String) (h : Handler) :
    (s.step (.get p uid h)).users = s.users := by
  cases hp : s.writes p with
  | none => simp only [Db.step, hp]
  | some w => simp only [Db.step, hp]

/-- An `update` brings no document into being and removes none. -/
theorem Db.isSome_step_update (s : Db) (p : ℕ) (uid : String) :
    ((s.step (.update p)).users.get uid).isSome = (s.users.get uid).isSome := by
  cases hp : s.writes p with
  | none => simp only [Db.step, hp]
  | some w =>
    simp only [Db.step, hp, Collection.get_update]
    split
    · rename_i huid
      rw [huid, Option.isSome_map]
    · rfl

/-- An `update` leaves the documents of other users. -/
theorem Db.get_step_update_of_ne {s : Db} {p : ℕ} {id : String}
    (hid : ∀ w, s.writes p = some w → w.uid ≠ id) :
    (s.step (.update p)).users.get id = s.users.get id := by
  cases hw : s.writes p with
  | none => simp only [Db.step, hw]
  | some w => simp only [Db.step, hw, Collection.get_update, if_neg (hid w hw).symm]

theorem Db.writes_step_update (s : Db) (p : ℕ) : (s.step (.update p)).writes p = none := by
  cases hw : s.writes p with
  | none => simp only [Db.step, hw]
  | some w => simp only [Db.step, hw, Function.update_self]

theorem Db.writes_get_of_ne (s : Db) {p q : ℕ} (hne : p ≠ q) (uid : String) (h : Handler) :
    (s.step (.get q uid h)).writes p = s.writes p := by
  simp only [step]
  split
  · exact Function.update_of_ne hne _ _
  · rfl

theorem Db.writes_update_of_ne (s : Db) {p q : ℕ} (hne : p ≠ q) :
    (s.step (.update q)).writes p = s.writes p := by
  simp only [step]
  split
  · exact Function.update_of_ne hne _ _
  · rfl

/-- How one document and its part of the history change in a step. -/
inductive DocStep (uid : String) (s : Db) (e : Event) : Option Fields → List Commit → Prop where
  /-- The step writes nothing to the document. -/
  | keep : DocStep uid s e (s.users.get uid) s.log
  /-- The step writes to another document. -/
  | other (c : List Commit) (hc : ∀ x ∈ c, x.uid ≠ uid) :
      DocStep uid s e (s.users.get uid) (s.log ++ c)
  /-- A pending press writes its map back. -/
  | update (p : ℕ) (w : Write) (doc : Fields) (he : e = .update p) (hw : s.writes p = some w)
      (huid : w.uid = uid) (hdoc : s.users.get uid = some doc) :
      DocStep uid s e (some (overwrite w.data doc)) (s.log ++ [⟨uid, .handler w.handler⟩])
  | upload (nft : NftArt) (doc : Fields) (he : e = .upload uid nft)
      (hdoc : s.users.get uid = some doc) :
      DocStep uid s e (some (postNFT nft doc)) (s.log ++ [⟨uid, .upload nft⟩])
  | register (name : String) (he : e = .register uid name) :
      DocStep uid s e (some (registerDoc name)) s.log
  | delete (he : e = .deleteUser uid) : DocStep uid s e none s.log

/-- An `update` by `f`, seen from the document of `uid`. -/
private theorem docStep_update {s : Db} {e : Event} {uid v : String} {op : Op}
    {f : Fields → Fields}
    (hmine : v = uid → ∀ doc, s.users.get uid = some doc →
      DocStep uid s e (some (f doc)) (s.log ++ [⟨uid, op⟩])) :
    DocStep uid s e ((s.users.update v f).get uid) (s.log ++ s.committed v op) := by
  rw [Collection.get_update]
  by_cases huid : uid = v
  · subst huid
    rw [if_pos rfl]
    cases hdoc : s.users.get uid with
    | none =>
      have hnone : s.committed uid op = [] := by rw [Db.committed, hdoc]; rfl
      rw [hnone, List.append_nil, Option.map_none, ← hdoc]
      exact .keep
    | some doc =>
      have hsome : s.committed uid op = [⟨uid, op⟩] := by rw [Db.committed, hdoc]; rfl
      rw [hsome]
      exact hmine rfl doc hdoc
  · rw [if_neg huid]
    refine .other _ fun x hx => ?_
    unfold Db.committed at hx
    split at hx
    · rw [List.mem_singleton.mp hx]
      exact fun h => huid h.symm
    · cases hx

/-- Every step changes the document of `uid` in one of the ways of `DocStep`. -/
theorem Db.docStep (s : Db) (e : Event) (uid : String) :
    DocStep uid s e ((s.step e).users.get uid) (s.step e).log := by
  cases e with
  | get p v h =>
    cases hp : s.writes p with
    | some _ =>
      simp only [Db.step, hp]
      exact .keep
    | none =>
      simp only [Db.step, hp]
      exact .keep
  | update p =>
    cases hp : s.writes p with
    | none =>
      simp only [Db.step, hp]
      exact .keep
    | some w =>
      simp only [Db.step, hp]
      refine docStep_update fun huid doc hdoc => ?_
      exact .update p w doc rfl hp huid hdoc
  | upload v nft =>
    refine docStep_update fun huid doc hdoc => ?_
    subst huid
    exact .upload nft doc rfl hdoc
  | register v name =>
    simp only [Db.step]
    rw [Collection.get_set]
    split
    · rename_i h
      subst h
      exact .register name rfl
    · exact .keep
  | deleteUser v =>
    simp only [Db.step]
    rw [Collection.get_delete]
    split
    · rename_i h
      subst h
      exact .delete rfl
    · exact .keep

/-- An `update` of an existing document, and its entry in the history. -/
theorem Db.step_update {s : Db} {p : ℕ} {w : Write} {doc : Fields} (hw : s.writes p = some w)
    (hdoc : s.users.get w.uid = some doc) :
    (s.step (.update p)).users.get w.uid = some (overwrite w.data doc) ∧
      (s.step (.update p)).log = s.log ++ [⟨w.uid, .handler w.handler⟩] := by
  have hcommitted : s.committed w.uid (.handler w.handler) = [⟨w.uid, .handler w.handler⟩] := by
    rw [Db.committed, hdoc]
    rfl
  simp only [Db.step, hw, hcommitted, Collection.get_update, if_pos, hdoc, Option.map_some,
    and_self]

end FlutterThree
