import FlutterThree.AdminApp
import FlutterThree.Lib.Future
import Mathlib.Data.List.Infix

/-!
# Loading and refreshing a wallet

`ProfilePage` of the client app and `NftPage` of the admin app hold a future of what they show. A
refresh starts a new call of `refreshNFTs`, hands it the future held so far, and holds the new one.
Calls are answered in any order. Where the fetch fails or the document does not decode, the call
returns the future it was given, through a parameter without a type.

`refresh_keeps_wallet`: in the client app this makes a chain of futures that ends at the last refresh
with a result of its own. `failed_refresh_loses_grid`: in the admin app the future given is none of
the declared type, and the check of the returned value raises; the list comes back only by a later
refresh. `NftPage.route_run` says that the page of `AdminApp` is this one, without the calls whose
future it no longer holds.
-/

namespace FlutterThree

open Dart Async

/-! ## The calls -/

/-- The answer to `collection("users").get()`. -/
abbrev Response := Except String (List (String × Fields))

/-- The loop over the answer: the first document with the id is decoded. -/
def forUser {α : Type} (uid : String) (decode : Fields → Except Raised α) :
    Response → Except Raised (Option α)
  | .error text => .error (.remote text)
  | .ok docs =>
    match docs.find? fun element => element.1 = uid with
    | some element =>
      match decode element.2 with
      | .ok a => .ok (some a)
      | .error e => .error e
    | none => .ok none

/-- `e.toString().contains(text)`; the errors of the decoder are taken not to contain it. -/
def Raised.mentions (text : String) : Raised → Bool
  | .remote t => text.toList <:+: t.toList
  | .exception m => text.toList <:+: m.toList
  | .dart _ => false

/-- `initNFTs` of the client app. -/
def initNFTs (uid : String) (response : Response) : Except Raised (Option AllNFT) :=
  let tried := forUser uid (fun data => do
    if (← raising (data.index "NFT").length) = 0 then throw (.exception "Add your first NFT")
    raising (AllNFT.fromJson data)) response
  match tried with
  | .ok tmp => .ok tmp
  | .error e =>
    if e.mentions "Add your first NFT" then .error (.exception "Add your first NFT")
    else .error (.exception "Invalid internet connexion or API is down")

/-- The types of the futures that the two apps hold. -/
inductive FutureType where
  /-- `Future<AllNFT?>`. -/
  | allNFT
  /-- `Future<NftUser?>`. -/
  | nftUser
  /-- `Future<List<NftArt>?>`. -/
  | nftArts
  deriving Repr, DecidableEq

/-- A future in a variable without a type. -/
structure DynamicFuture where
  type : FutureType
  number : ℕ

/-- `return v` in an async function that declares a future of type `declared`: `v` is awaited if it
is one, and is no value either. -/
def returnDynamic {α : Type} (declared : FutureType) (v : DynamicFuture) : Finish Raised α :=
  if v.type = declared then .future v.number else .returned (.error (.dart .typeError))

/-- A call: waiting for its answer, with the future it was given if it is a refresh; then, with what
it has decoded, in its sleep; then ended. -/
inductive Call (β : Type) where
  | fetching (given : Option ℕ)
  | sleeping (tmp : β)
  | ended (x : Finish Raised (Option β))

/-- What a page calls: its first call, and how a call goes on once it is answered, with the number of
the future it was given if it is a refresh. -/
structure Fetch (β : Type) where
  first : Call β
  body : Option ℕ → Response → Finish Raised (Option β)

/-- The `try` block of the client app's `refreshNFTs`. -/
def ProfilePage.tried (uid : String) : Response → Except Raised (Option AllNFT) :=
  forUser uid fun data => raising (AllNFT.fromJson data)

/-- `refreshNFTs` of the client app. -/
def ProfilePage.refreshNFTs (uid : String) (allNFTs : DynamicFuture) (response : Response) :
    Finish Raised (Option AllNFT) :=
  match ProfilePage.tried uid response with
  | .ok tmp => .returned (.ok tmp)
  | .error _ => returnDynamic .allNFT allNFTs

/-- `initState` and `_refresh` of `ProfilePage`. -/
def ProfilePage.fetch (uid : String) : Fetch AllNFT where
  first := .fetching none
  body
    | none, response => .returned (initNFTs uid response)
    | some allNFTs, response => ProfilePage.refreshNFTs uid ⟨.allNFT, allNFTs⟩ response

/-- The `try` block of the admin app's `refreshNFTs`. -/
def NftPage.tried (uid : String) : Response → Except Raised (Option NftUser) :=
  forUser uid fun data => raising (NftUser.fromJson data uid)

/-- `refreshNFTs` of the admin app. -/
def NftPage.refreshNFTs (uid : String) (allNFTs : DynamicFuture) (response : Response) :
    Finish Raised (Option NftUser) :=
  match NftPage.tried uid response with
  | .ok userDetails => .returned (.ok userDetails)
  | .error _ => returnDynamic .nftUser allNFTs

/-- `refreshNFTs(..).then((value) => value?.nfts)`. -/
def NftPage.thenNfts : Finish Raised (Option NftUser) → Finish Raised (Option (List NftArt))
  | .returned (.ok value) => .returned (.ok (value.map NftUser.nfts))
  | .returned (.error e) => .returned (.error e)
  | .future g => .future g

/-- `_init` and `_refresh` of an `NftPage` that was handed `nfts`; `_init` fetches nothing. -/
def NftPage.fetch (uid : String) (nfts : List NftArt) : Fetch (List NftArt) where
  first := .ended (.returned (.ok (some nfts)))
  body
    | none, _ => .returned (.ok (some nfts))
    | some currentNft, response =>
      NftPage.thenNfts (NftPage.refreshNFTs uid ⟨.nftArts, currentNft⟩ response)

/-! ## The page -/

structure Loader (β : Type) where
  calls : ℕ → Option (Call β)
  /-- The number of the future the page holds. -/
  current : ℕ
  /-- The answers so far; no step reads them. -/
  responses : ℕ → Option Response

inductive LoaderEvent where
  /-- `_refresh`. -/
  | refresh
  | respond (f : ℕ) (response : Response)
  /-- The sleep of a call ends. -/
  | wake (f : ℕ)

variable {β : Type}

/-- `initState`. -/
def Loader.start (code : Fetch β) : Loader β where
  calls := Function.update (fun _ => none) 0 (some code.first)
  current := 0
  responses := fun _ => none

/-- What was decoded is returned after a sleep. -/
def Call.next : Finish Raised (Option β) → Call β
  | .returned (.ok (some tmp)) => .sleeping tmp
  | x => .ended x

def Loader.step (code : Fetch β) (s : Loader β) : LoaderEvent → Loader β
  | .refresh =>
    { s with
      calls := Function.update s.calls (s.current + 1) (some (.fetching (some s.current)))
      current := s.current + 1 }
  | .respond f response =>
    match s.calls f with
    | some (.fetching given) =>
      { s with
        calls := Function.update s.calls f (some (Call.next (code.body given response)))
        responses := Function.update s.responses f (some response) }
    | _ => s
  | .wake f =>
    match s.calls f with
    | some (.sleeping tmp) =>
      { s with calls := Function.update s.calls f (some (.ended (.returned (.ok (some tmp))))) }
    | _ => s

/-- The futures of the calls. -/
def Loader.futures (s : Loader β) : Futures Raised (Option β) := fun f =>
  match s.calls f with
  | some (.ended x) => some x
  | _ => none

/-- The page's future is complete, and the page shows `r`. -/
def Loader.Shows (s : Loader β) (r : Except Raised (Option β)) : Prop :=
  Completes s.futures s.current r

/-! ## How the calls have come about -/

/-- The future that is given to the refresh with number `f`; the first call is given none. -/
def givenTo : ℕ → Option ℕ
  | 0 => none
  | f + 1 => some f

theorem Call.next_ne_fetching (x : Finish Raised (Option β)) (given : Option ℕ) :
    Call.next x ≠ .fetching given := by
  unfold next
  split
  · nofun
  · nofun

theorem Call.eq_of_next_sleeping {x : Finish Raised (Option β)} {tmp : β}
    (h : Call.next x = .sleeping tmp) : x = .returned (.ok (some tmp)) := by
  unfold next at h
  split at h
  · rw [Call.sleeping.inj h]
  · cases h

theorem Call.eq_of_next_ended {x y : Finish Raised (Option β)} (h : Call.next x = .ended y) :
    x = y := by
  unfold next at h
  split at h
  · cases h
  · exact Call.ended.inj h

/-- A call was given the future before its own, and has gone on as its body says on its answer. -/
def Call.Follows (code : Fetch β) (f : ℕ) (answer : Option Response) : Call β → Prop
  | .fetching given => given = givenTo f
  | .sleeping tmp => ∃ response, answer = some response ∧
      code.body (givenTo f) response = .returned (.ok (some tmp))
  | .ended x => (f = 0 ∧ code.first = .ended x) ∨ ∃ response, answer = some response ∧
      code.body (givenTo f) response = x

theorem Call.Follows.next {code : Fetch β} {f : ℕ} {given : Option ℕ} (h : given = givenTo f)
    (response : Response) :
    (Call.next (code.body given response)).Follows code f (some response) := by
  subst h
  cases hnext : Call.next (code.body (givenTo f) response) with
  | fetching g => exact absurd hnext (Call.next_ne_fetching _ g)
  | sleeping tmp => exact ⟨response, rfl, Call.eq_of_next_sleeping hnext⟩
  | ended x => exact .inr ⟨response, rfl, Call.eq_of_next_ended hnext⟩

/-- The calls up to the current one have been started, and each follows its body. -/
structure Loader.Sound (code : Fetch β) (s : Loader β) : Prop where
  started : ∀ f, s.current < f → s.calls f = none
  follows : ∀ f call, s.calls f = some call → call.Follows code f (s.responses f)

theorem Loader.Sound.start {code : Fetch β}
    (hfirst : code.first = .fetching none ∨ ∃ x, code.first = .ended x) :
    (Loader.start code).Sound code := by
  refine ⟨fun f hf => ?_, fun f call hcall => ?_⟩
  · have hne : f ≠ 0 := Nat.ne_of_gt hf
    change Function.update (fun _ => none) 0 (some code.first) f = none
    rw [Function.update_of_ne hne]
  · change Function.update (fun _ => none) 0 (some code.first) f = some call at hcall
    by_cases h0 : f = 0
    · subst h0
      rw [Function.update_self] at hcall
      obtain rfl := Option.some.inj hcall
      rcases hfirst with hfirst | ⟨x, hfirst⟩
      · rw [hfirst]
        rfl
      · rw [hfirst]
        exact .inl ⟨rfl, hfirst⟩
    · rw [Function.update_of_ne h0] at hcall
      cases hcall

/-- One call goes on, or is started. -/
theorem Loader.Sound.setCall {code : Fetch β} {s : Loader β} (h : s.Sound code) {f current : ℕ}
    (hcurrent : s.current ≤ current) (hf : f ≤ current) {call : Call β} {answer : Option Response}
    (hcall : call.Follows code f answer) :
    Loader.Sound code ⟨Function.update s.calls f (some call), current,
      Function.update s.responses f answer⟩ := by
  refine ⟨fun f' hf' => ?_, fun f' call' hcall' => ?_⟩
  · have hlt : current < f' := hf'
    have hne : f' ≠ f := Nat.ne_of_gt (Nat.lt_of_le_of_lt hf hlt)
    exact (Function.update_of_ne hne _ _).trans (h.started f' (Nat.lt_of_le_of_lt hcurrent hlt))
  · dsimp only at hcall' ⊢
    by_cases heq : f' = f
    · subst heq
      rw [Function.update_self] at hcall' ⊢
      obtain rfl := Option.some.inj hcall'
      exact hcall
    · rw [Function.update_of_ne heq] at hcall' ⊢
      exact h.follows f' call' hcall'

theorem Loader.Sound.le_current {code : Fetch β} {s : Loader β} (h : s.Sound code) {f : ℕ}
    {call : Call β} (hcall : s.calls f = some call) : f ≤ s.current := by
  by_contra hlt
  rw [h.started f (Nat.lt_of_not_le hlt)] at hcall
  cases hcall

theorem Loader.Sound.step {code : Fetch β} {s : Loader β} (h : s.Sound code) (e : LoaderEvent) :
    (s.step code e).Sound code := by
  cases e with
  | refresh =>
    have hstart : (Call.fetching (some s.current)).Follows code (s.current + 1)
      (s.responses (s.current + 1)) := rfl
    have hset := h.setCall (Nat.le_succ s.current) (Nat.le_refl _) hstart
    rw [Function.update_eq_self] at hset
    exact hset
  | respond f response =>
    simp only [Loader.step]
    split
    · rename_i given hf
      exact h.setCall (Nat.le_refl _) (h.le_current hf) (.next (h.follows f _ hf) response)
    · exact h
  | wake f =>
    simp only [Loader.step]
    split
    · rename_i tmp hf
      have hended : (Call.ended (.returned (.ok (some tmp)))).Follows code f (s.responses f) :=
        .inr (h.follows f _ hf)
      have hset := h.setCall (Nat.le_refl _) (h.le_current hf) hended
      rw [Function.update_eq_self] at hset
      exact hset
    · exact h

theorem Loader.futures_eq_some {s : Loader β} {f : ℕ} {x : Finish Raised (Option β)} :
    s.futures f = some x ↔ s.calls f = some (.ended x) := by
  unfold futures
  constructor
  · intro h
    split at h
    · rename_i y hf
      rw [hf, Option.some.inj h]
    · cases h
  · intro h
    rw [h]

/-! ## The client app -/

/-- The fetch of call `f`, or the decoding of its answer, has raised. -/
def ProfilePage.Raises (uid : String) (s : Loader AllNFT) (f : ℕ) : Prop :=
  ∃ response e, s.responses f = some response ∧ ProfilePage.tried uid response = .error e

/-- The result of the latest-started refresh whose fetch and decoding did not raise, and that of
`initNFTs` if there is none. -/
inductive ProfilePage.Latest (uid : String) (s : Loader AllNFT) :
    Except Raised (Option AllNFT) → Prop where
  | refreshed (f : ℕ) (response : Response) (v : Option AllNFT) (hpos : 0 < f) (hf : f ≤ s.current)
      (hresponse : s.responses f = some response) (hv : ProfilePage.tried uid response = .ok v)
      (hlater : ∀ j, f < j → j ≤ s.current → ProfilePage.Raises uid s j) : Latest uid s (.ok v)
  | initial (response : Response) (hresponse : s.responses 0 = some response)
      (hlater : ∀ j, 0 < j → j ≤ s.current → ProfilePage.Raises uid s j) :
      Latest uid s (initNFTs uid response)

section

variable {uid : String} {s : Loader AllNFT}

/-- A call that has ended, by its answer. -/
theorem ProfilePage.exists_response (h : s.Sound (ProfilePage.fetch uid)) {f : ℕ}
    {x : Finish Raised (Option AllNFT)} (hf : s.calls f = some (.ended x)) :
    ∃ response, s.responses f = some response ∧
      (ProfilePage.fetch uid).body (givenTo f) response = x := by
  rcases h.follows f _ hf with ⟨-, hfirst⟩ | hanswered
  · cases hfirst
  · exact hanswered

/-- A refresh that raised has returned the future it was given, which is one of its own type. -/
theorem ProfilePage.futures_of_raises (h : s.Sound (ProfilePage.fetch uid)) {f : ℕ}
    (hended : ∃ x, s.calls (f + 1) = some (.ended x)) (hraises : ProfilePage.Raises uid s (f + 1)) :
    s.futures (f + 1) = some (.future f) := by
  obtain ⟨x, hx⟩ := hended
  obtain ⟨response, hresponse, rfl⟩ := ProfilePage.exists_response h hx
  obtain ⟨response', e, hresponse', he⟩ := hraises
  obtain rfl := Option.some.inj (hresponse.symm.trans hresponse')
  rw [Loader.futures_eq_some, hx]
  simp only [givenTo, ProfilePage.fetch, ProfilePage.refreshNFTs, he, returnDynamic, if_true]

theorem ProfilePage.Latest.shows (h : s.Sound (ProfilePage.fetch uid))
    (hended : ∀ f ≤ s.current, ∃ x, s.calls f = some (.ended x)) {r : Except Raised (Option AllNFT)}
    (hr : ProfilePage.Latest uid s r) : s.Shows r := by
  have hfallback : ∀ f, (∀ j, f < j → j ≤ s.current → ProfilePage.Raises uid s j) →
      ∀ j, f ≤ j → j < s.current → s.futures (j + 1) = some (.future j) := fun f hlater j hfj hj =>
    ProfilePage.futures_of_raises h (hended (j + 1) hj) (hlater (j + 1) (Nat.lt_succ_of_le hfj) hj)
  cases hr with
  | refreshed f response v hpos hf hresponse hv hlater =>
    refine completes_of_handed_on hf ?_ (hfallback f hlater)
    obtain ⟨x, hx⟩ := hended f hf
    obtain ⟨response', hresponse', rfl⟩ := ProfilePage.exists_response h hx
    obtain rfl := Option.some.inj (hresponse.symm.trans hresponse')
    rw [Loader.futures_eq_some, hx]
    cases f with
    | zero => exact absurd hpos (Nat.lt_irrefl 0)
    | succ f => simp only [givenTo, ProfilePage.fetch, ProfilePage.refreshNFTs, hv]
  | initial response hresponse hlater =>
    refine completes_of_handed_on (Nat.zero_le _) ?_ (hfallback 0 hlater)
    obtain ⟨x, hx⟩ := hended 0 (Nat.zero_le _)
    obtain ⟨response', hresponse', rfl⟩ := ProfilePage.exists_response h hx
    obtain rfl := Option.some.inj (hresponse.symm.trans hresponse')
    rw [Loader.futures_eq_some, hx]
    rfl

/-- Among the calls up to any one, there is a latest one that did not raise, or the first. -/
theorem ProfilePage.exists_latest (h : s.Sound (ProfilePage.fetch uid))
    (hended : ∀ f ≤ s.current, ∃ x, s.calls f = some (.ended x)) :
    ∃ r, ProfilePage.Latest uid s r := by
  have hresponse : ∀ f ≤ s.current, ∃ response, s.responses f = some response := by
    intro f hf
    obtain ⟨x, hx⟩ := hended f hf
    obtain ⟨response, hr, -⟩ := ProfilePage.exists_response h hx
    exact ⟨response, hr⟩
  -- backwards from the current call, as long as the refreshes have raised
  suffices hdown : ∀ f ≤ s.current,
      (∀ j, f < j → j ≤ s.current → ProfilePage.Raises uid s j) → ∃ r, ProfilePage.Latest uid s r from
    hdown s.current (Nat.le_refl _) fun j hlt hle => absurd hle (Nat.not_le_of_gt hlt)
  intro f
  induction f with
  | zero =>
    intro hf hlater
    obtain ⟨response, hr⟩ := hresponse 0 hf
    exact ⟨_, .initial response hr hlater⟩
  | succ f ih =>
    intro hf hlater
    obtain ⟨response, hr⟩ := hresponse (f + 1) hf
    cases htried : ProfilePage.tried uid response with
    | ok v => exact ⟨_, .refreshed (f + 1) response v (Nat.succ_pos f) hf hr htried hlater⟩
    | error e =>
      refine ih (Nat.le_of_succ_le hf) fun j hlt hle => ?_
      rcases Nat.eq_or_lt_of_le (Nat.succ_le_of_lt hlt) with rfl | hlt'
      · exact ⟨response, e, hr, htried⟩
      · exact hlater j hlt' hle

end

/-- **A refresh keeps what was shown.** When all calls have completed, the page holds the result of the
latest refresh that did not raise, or else the outcome of `initNFTs`. -/
theorem refresh_keeps_wallet {uid : String} {es : List LoaderEvent} {s : Loader AllNFT}
    (hs : s = Machine.run (Loader.step (ProfilePage.fetch uid))
      (Loader.start (ProfilePage.fetch uid)) es)
    (hended : ∀ f ≤ s.current, ∃ x, s.calls f = some (.ended x)) :
    (∃ r, s.Shows r) ∧ ∀ r, s.Shows r ↔ ProfilePage.Latest uid s r := by
  have hsound : s.Sound (ProfilePage.fetch uid) := by
    rw [hs]
    have hstep : ∀ (s : Loader AllNFT) e, s.Sound (ProfilePage.fetch uid) →
        (s.step (ProfilePage.fetch uid) e).Sound (ProfilePage.fetch uid) := fun s e h => h.step e
    exact Machine.run_invariant _ hstep (.start (.inl rfl)) es
  obtain ⟨r, hr⟩ := ProfilePage.exists_latest hsound hended
  have hshows := hr.shows hsound hended
  refine ⟨⟨r, hshows⟩, fun r' => ⟨fun h => ?_, fun h => h.shows hsound hended⟩⟩
  rw [Completes.unique h hshows]
  exact hr

/-- A wallet of one entry, as it is stored. -/
def seaDocs : List (String × Fields) :=
  [("ann", [("name", .str "Ann"), ("role", .str "user"),
    ("NFT", .list [nftMap ⟨"Sea", "url", "At the sea"⟩])])]

/-- A refresh finds the wallet while the first call is still out, a second one fails before that, and
the first call finds no document. -/
def overlappingRefreshes : List LoaderEvent :=
  [.refresh, .refresh, .respond 2 (.error "offline"), .respond 1 (.ok seaDocs), .wake 1,
    .respond 0 (.ok [])]

theorem refresh_keeps_wallet_overlapping :
    (Machine.run (Loader.step (ProfilePage.fetch "ann")) (Loader.start (ProfilePage.fetch "ann"))
      overlappingRefreshes).Shows (.ok (some ⟨[⟨"Sea", "url", "At the sea"⟩]⟩)) := by
  refine ((refresh_keeps_wallet rfl ?_).2 _).mpr ?_
  · intro f hf
    have hcurrent : f ≤ 2 := hf
    obtain rfl | rfl | rfl : f = 0 ∨ f = 1 ∨ f = 2 := by omega
    · exact ⟨_, rfl⟩
    · exact ⟨_, rfl⟩
    · exact ⟨_, rfl⟩
  · refine .refreshed 1 (.ok seaDocs) _ Nat.one_pos (by decide) rfl rfl fun j hlt hle => ?_
    have hcurrent : j ≤ 2 := hle
    obtain rfl : j = 2 := by omega
    exact ⟨.error "offline", .remote "offline", rfl, rfl⟩

/-! ## The admin app -/

/-- Whatever a refresh of `NftPage` falls back on is no `NftUser?` and no future of one. -/
theorem NftPage.body_of_error {uid : String} {nfts : List NftArt} {response : Response} {e : Raised}
    (he : NftPage.tried uid response = .error e) (currentNft : ℕ) :
    (NftPage.fetch uid nfts).body (some currentNft) response =
      .returned (.error (.dart .typeError)) := by
  simp only [NftPage.fetch, NftPage.refreshNFTs, he, returnDynamic, NftPage.thenNfts]
  rfl

theorem NftPage.body_of_ok {uid : String} {nfts : List NftArt} {response : Response}
    {value : Option NftUser} (hok : NftPage.tried uid response = .ok value) (currentNft : ℕ) :
    (NftPage.fetch uid nfts).body (some currentNft) response =
      .returned (.ok (value.map NftUser.nfts)) := by
  simp only [NftPage.fetch, NftPage.refreshNFTs, hok, NftPage.thenNfts]

/-- No refresh of `NftPage` hands on the future it was given. -/
theorem NftPage.exists_returned (uid : String) (nfts : List NftArt) (given : Option ℕ)
    (response : Response) :
    ∃ r, (NftPage.fetch uid nfts).body given response = .returned r := by
  cases given with
  | none => exact ⟨_, rfl⟩
  | some currentNft =>
    cases htried : NftPage.tried uid response with
    | ok value => exact ⟨_, NftPage.body_of_ok htried currentNft⟩
    | error e => exact ⟨_, NftPage.body_of_error htried currentNft⟩

/-- The page after a run. -/
def NftPage.run (uid : String) (nfts : List NftArt) (es : List LoaderEvent) : Loader (List NftArt) :=
  Machine.run (Loader.step (NftPage.fetch uid nfts)) (Loader.start (NftPage.fetch uid nfts)) es

theorem NftPage.sound_run (uid : String) (nfts : List NftArt) (es : List LoaderEvent) :
    (NftPage.run uid nfts es).Sound (NftPage.fetch uid nfts) := by
  have hstep : ∀ (s : Loader (List NftArt)) e, s.Sound (NftPage.fetch uid nfts) →
      (s.step (NftPage.fetch uid nfts) e).Sound (NftPage.fetch uid nfts) := fun s e h => h.step e
  exact Machine.run_invariant _ hstep (.start (.inr ⟨_, rfl⟩)) es

/-- What the page shows is what its current call has returned. -/
theorem NftPage.shows_iff {uid : String} {nfts : List NftArt} {s : Loader (List NftArt)}
    (h : s.Sound (NftPage.fetch uid nfts)) {r : Except Raised (Option (List NftArt))} :
    s.Shows r ↔ s.calls s.current = some (.ended (.returned r)) := by
  constructor
  · intro hr
    cases hr with
    | returned _ _ hf => exact Loader.futures_eq_some.mp hf
    | future _ g _ hf _ =>
      rw [Loader.futures_eq_some] at hf
      rcases h.follows _ _ hf with ⟨-, hfirst⟩ | ⟨response, -, hbody⟩
      · cases hfirst
      · obtain ⟨r', hr'⟩ := NftPage.exists_returned uid nfts (givenTo s.current) response
        cases hbody.symm.trans hr'
  · intro hcall
    exact .returned _ _ (Loader.futures_eq_some.mpr hcall)

/-- What was answered is no longer waiting for its answer. -/
def Loader.Answered (s : Loader β) : Prop :=
  ∀ f response, s.responses f = some response →
    ∃ call, s.calls f = some call ∧ ∀ given, call ≠ .fetching given

theorem Loader.Answered.step {code : Fetch β} {s : Loader β} (hs : s.Sound code) (h : s.Answered)
    (e : LoaderEvent) : (s.step code e).Answered := by
  intro f response hresponse
  cases e with
  | refresh =>
    obtain ⟨call, hcall, hne⟩ := h f response hresponse
    have hf : f ≠ s.current + 1 := Nat.ne_of_lt (Nat.lt_succ_of_le (hs.le_current hcall))
    exact ⟨call, (Function.update_of_ne hf _ _).trans hcall, hne⟩
  | respond g response' =>
    simp only [Loader.step] at hresponse ⊢
    split at hresponse
    · rename_i given hg
      rcases Machine.update_eq_some hresponse with ⟨rfl, -⟩ | ⟨hf, hold⟩
      · exact ⟨_, Function.update_self _ _ _, Call.next_ne_fetching _⟩
      · obtain ⟨call, hcall, hne⟩ := h f response hold
        exact ⟨call, (Function.update_of_ne hf _ _).trans hcall, hne⟩
    · exact h f response hresponse
  | wake g =>
    simp only [Loader.step] at hresponse ⊢
    split at hresponse
    · obtain ⟨call, hcall, hne⟩ := h f response hresponse
      by_cases hf : f = g
      · subst hf
        exact ⟨_, Function.update_self _ _ _, nofun⟩
      · exact ⟨call, (Function.update_of_ne hf _ _).trans hcall, hne⟩
    · exact h f response hresponse

theorem NftPage.answered_run (uid : String) (nfts : List NftArt) (es : List LoaderEvent) :
    (NftPage.run uid nfts es).Answered := by
  have hstep : ∀ (s : Loader (List NftArt)) e,
      s.Sound (NftPage.fetch uid nfts) ∧ s.Answered →
      (s.step (NftPage.fetch uid nfts) e).Sound (NftPage.fetch uid nfts) ∧
        (s.step (NftPage.fetch uid nfts) e).Answered := fun s e h => ⟨h.1.step e, h.2.step h.1 e⟩
  exact (Machine.run_invariant _ hstep ⟨.start (.inr ⟨_, rfl⟩), nofun⟩ es).2

theorem Loader.current_le_step (code : Fetch β) (s : Loader β) (e : LoaderEvent) :
    s.current ≤ (s.step code e).current := by
  cases e with
  | refresh => exact Nat.le_succ _
  | respond f response =>
    simp only [Loader.step]
    split
    · exact Nat.le_refl _
    · exact Nat.le_refl _
  | wake f =>
    simp only [Loader.step]
    split
    · exact Nat.le_refl _
    · exact Nat.le_refl _

theorem Loader.current_le_run (code : Fetch β) (s : Loader β) (es : List LoaderEvent) :
    s.current ≤ (Machine.run (Loader.step code) s es).current := by
  have hstep : ∀ (t : Loader β) e, s.current ≤ t.current → s.current ≤ (t.step code e).current :=
    fun t e h => Nat.le_trans h (t.current_le_step code e)
  exact Machine.run_invariant _ hstep (Nat.le_refl _) es

/-- An answered refresh of `NftPage` that failed has returned the error of the type check. -/
theorem NftPage.calls_of_fails {uid : String} {nfts : List NftArt} {s : Loader (List NftArt)}
    (hs : s.Sound (NftPage.fetch uid nfts)) (h : s.Answered) {f : ℕ} {response : Response}
    {e : Raised} (hanswer : s.responses (f + 1) = some response)
    (hfails : NftPage.tried uid response = .error e) :
    s.calls (f + 1) = some (.ended (.returned (.error (.dart .typeError)))) := by
  obtain ⟨call, hcall, hne⟩ := h _ response hanswer
  have hbody : (NftPage.fetch uid nfts).body (some f) response =
      .returned (.error (.dart .typeError)) := NftPage.body_of_error hfails f
  have hfollows := hs.follows _ call hcall
  rw [hanswer] at hfollows
  rw [hcall]
  cases call with
  | fetching given => exact absurd rfl (hne given)
  | sleeping tmp =>
    obtain ⟨response', hresponse', hbody'⟩ := hfollows
    obtain rfl := Option.some.inj hresponse'
    cases hbody.symm.trans hbody'
  | ended x =>
    rcases hfollows with ⟨hzero, -⟩ | ⟨response', hresponse', hbody'⟩
    · cases hzero
    · obtain rfl := Option.some.inj hresponse'
      rw [← hbody', ← hbody]
      rfl

/-- A refresh of `NftPage` has returned a list just when it is over and its document decodes to a
user with that list. -/
theorem NftPage.calls_found_iff {uid : String} {nfts l : List NftArt} {s : Loader (List NftArt)}
    (hs : s.Sound (NftPage.fetch uid nfts)) {f : ℕ} :
    s.calls (f + 1) = some (.ended (.returned (.ok (some l)))) ↔
      ∃ response user x, s.responses (f + 1) = some response ∧
        NftPage.tried uid response = .ok (some user) ∧ user.nfts = l ∧
        s.calls (f + 1) = some (.ended x) := by
  constructor
  · intro hcall
    rcases hs.follows _ _ hcall with ⟨hzero, -⟩ | ⟨response, hresponse, hbody⟩
    · cases hzero
    · cases htried : NftPage.tried uid response with
      | error e => cases (NftPage.body_of_error htried f).symm.trans hbody
      | ok value =>
        have hvalue := (NftPage.body_of_ok htried f).symm.trans hbody
        cases value with
        | none => cases hvalue
        | some user =>
          injection hvalue with hvalue
          injection hvalue with hvalue
          exact ⟨response, user, _, hresponse, htried, Option.some.inj hvalue, hcall⟩
  · rintro ⟨response, user, x, hresponse, hok, rfl, hcall⟩
    rcases hs.follows _ _ hcall with ⟨hzero, -⟩ | ⟨response', hresponse', hbody⟩
    · cases hzero
    · obtain rfl := Option.some.inj (hresponse.symm.trans hresponse')
      rw [hcall, ← hbody]
      exact congrArg (some ∘ Call.ended) (NftPage.body_of_ok hok f)

/-- A list the page showed is the one it shows now. -/
def KeepsGrid (s s' : Loader (List NftArt)) : Prop :=
  ∀ l, s.Shows (.ok (some l)) → s'.Shows (.ok (some l))

/-- The page's latest refresh was started after call `f`, its document decodes to a user with the
list `l`, and its sleep is over. -/
def NftPage.Overtaken (uid : String) (s : Loader (List NftArt)) (f : ℕ) (l : List NftArt) : Prop :=
  f < s.current ∧ ∃ response user x, s.responses s.current = some response ∧
    NftPage.tried uid response = .ok (some user) ∧ user.nfts = l ∧
    s.calls s.current = some (.ended x)

/-- **A refresh of `NftPage` that fails loses the grid**, whatever list the page showed and whatever
other refreshes are under way: once it has failed, the page shows the list again only by a later
refresh that found the same one. Where no other refresh was started, it shows the error of the type
check. -/
theorem failed_refresh_loses_grid {uid : String} {nfts l : List NftArt} {es es' : List LoaderEvent}
    {s t : Loader (List NftArt)} {response : Response} {e : Raised} (hs : s = NftPage.run uid nfts es)
    (ht : t = NftPage.run uid nfts (es ++ .refresh :: es')) (hlist : s.Shows (.ok (some l)))
    (hanswer : t.responses (s.current + 1) = some response)
    (hfails : NftPage.tried uid response = .error e) :
    (KeepsGrid s t ↔ NftPage.Overtaken uid t (s.current + 1) l) ∧
      (t.current = s.current + 1 → t.Shows (.error (.dart .typeError))) := by
  have hsound : t.Sound (NftPage.fetch uid nfts) := ht ▸ NftPage.sound_run uid nfts _
  have hanswered : t.Answered := ht ▸ NftPage.answered_run uid nfts _
  have hcurrent : s.current + 1 ≤ t.current := by
    have hrun : t = Machine.run (Loader.step (NftPage.fetch uid nfts))
        (s.step (NftPage.fetch uid nfts) .refresh) es' := by
      rw [ht, hs, NftPage.run, Machine.run_append, Machine.run_cons]
      rfl
    rw [hrun]
    exact Loader.current_le_run _ (s.step (NftPage.fetch uid nfts) .refresh) es'
  have hcall := NftPage.calls_of_fails hsound hanswered hanswer hfails
  obtain ⟨c, hc⟩ : ∃ c, t.current = c + 1 := ⟨t.current - 1, by omega⟩
  refine ⟨⟨fun hkept => ?_, fun hover => ?_⟩, fun heq => ?_⟩
  · have hshown := (NftPage.shows_iff hsound).mp (hkept l hlist)
    -- the current call is a refresh that has found the list
    refine ⟨Nat.lt_of_le_of_ne hcurrent fun heq => ?_, ?_⟩
    · rw [heq, hshown] at hcall
      cases hcall
    · rw [hc] at hshown ⊢
      exact (NftPage.calls_found_iff hsound).mp hshown
  · obtain ⟨-, hfound⟩ := hover
    intro l' hl'
    cases Completes.unique hl' hlist
    rw [hc] at hfound
    rw [NftPage.shows_iff hsound, hc]
    exact (NftPage.calls_found_iff hsound).mpr hfound
  · rw [NftPage.shows_iff hsound, heq]
    exact hcall

/-- Two refreshes are out at once. The second one finds the list again and the page shows it, and
goes on showing it when the first one fails. -/
theorem failed_refresh_loses_grid_overtaken :
    KeepsGrid (NftPage.run "ann" [⟨"Sea", "url", "At the sea"⟩] [])
      (NftPage.run "ann" [⟨"Sea", "url", "At the sea"⟩] ([] ++ .refresh ::
        [.refresh, .respond 2 (.ok seaDocs), .wake 2, .respond 1 (.error "offline")])) := by
  have hlist : (NftPage.run "ann" [⟨"Sea", "url", "At the sea"⟩] []).Shows
    (.ok (some [⟨"Sea", "url", "At the sea"⟩])) := .returned _ _ rfl
  have hfails : NftPage.tried "ann" (.error "offline") = .error (.remote "offline") := rfl
  refine (failed_refresh_loses_grid rfl rfl hlist rfl hfails).1.mpr ⟨?_, ?_⟩
  · exact Nat.lt_succ_self 1
  · exact ⟨.ok seaDocs, _, _, rfl, rfl, rfl, rfl⟩

/-- A document without a role: the decoder raises. -/
def roleless : List (String × Fields) :=
  [("ann", [("name", .str "Ann"), ("NFT", .list [nftMap ⟨"Sea", "url", "At the sea"⟩])])]

/-- After an Add or an Edit the page refreshes, and its grid is gone. -/
theorem roleless_not_keepsGrid :
    ¬ KeepsGrid (NftPage.run "ann" [⟨"Sea", "url", "At the sea"⟩] [])
      (NftPage.run "ann" [⟨"Sea", "url", "At the sea"⟩] [.refresh, .respond 1 (.ok roleless)]) := by
  intro h
  have herror : (NftPage.run "ann" [⟨"Sea", "url", "At the sea"⟩]
      [.refresh, .respond 1 (.ok roleless)]).Shows (.error (.dart .typeError)) := .returned _ _ rfl
  cases Completes.unique herror (h [⟨"Sea", "url", "At the sea"⟩] (.returned _ _ rfl))

/-! ## The page among the others -/

/-- What a page shows whose future is that of this call, when no call hands on a future. -/
def Call.snapshot : Call β → Snapshot (Option β)
  | .fetching _ => .waiting
  | .sleeping tmp => .answered (some tmp)
  | .ended (.returned r) => .done r
  | .ended (.future _) => .waiting

/-- The page of `AdminApp` with the calls of `s`: it keeps the current one. -/
def NftPage.route (uid : String) (s : Loader (List NftArt)) : AdminRoute :=
  .nft uid ((s.calls s.current).elim .waiting Call.snapshot)

/-- How the page of `AdminApp` follows its calls. -/
def NftPage.follow (current : ℕ) : LoaderEvent → AdminRoute → AdminRoute
  | .refresh => AdminRoute.refresh
  | .respond f (.ok docs) => if f = current then AdminRoute.responded docs else id
  | .respond f (.error text) => if f = current then AdminRoute.failed text else id
  | .wake f => if f = current then AdminRoute.woken else id

/-- How a refresh of the page goes on with an answer from the store. -/
theorem NftPage.responded_eq (uid : String) (nfts : List NftArt) (docs : List (String × Fields))
    (currentNft : ℕ) :
    (AdminRoute.nft uid .waiting).responded docs =
      .nft uid (Call.next ((NftPage.fetch uid nfts).body (some currentNft) (.ok docs))).snapshot := by
  cases hfind : docs.find? fun element => element.1 = uid with
  | none =>
    have htried : NftPage.tried uid (.ok docs) = .ok none := by
      simp only [NftPage.tried, forUser, hfind]
    rw [NftPage.body_of_ok htried]
    simp only [AdminRoute.responded, FlutterThree.refreshNFTs, hfind]
    rfl
  | some element =>
    have hid : element.1 = uid := by simpa using List.find?_some hfind
    cases hjson : NftUser.fromJson element.2 uid with
    | ok user =>
      have htried : NftPage.tried uid (.ok docs) = .ok (some user) := by
        simp only [NftPage.tried, forUser, hfind, hjson, raising]
      rw [NftPage.body_of_ok htried]
      simp only [AdminRoute.responded, FlutterThree.refreshNFTs, hfind, hid, hjson]
      rfl
    | error e =>
      have htried : NftPage.tried uid (.ok docs) = .error (.dart e) := by
        simp only [NftPage.tried, forUser, hfind, hjson, raising]
      rw [NftPage.body_of_error htried]
      simp only [AdminRoute.responded, FlutterThree.refreshNFTs, hfind, hid, hjson]
      rfl

/-- A call of `NftPage` has been given a future, and returns none. -/
def Call.Settles : Call β → Prop
  | .fetching given => ∃ currentNft, given = some currentNft
  | .sleeping _ => True
  | .ended x => ∃ r, x = .returned r

/-- A call that was started is there, at some stage. -/
theorem Loader.exists_call_step {code : Fetch β} {s : Loader β}
    (h : ∀ f ≤ s.current, ∃ call, s.calls f = some call) (e : LoaderEvent) :
    ∀ f ≤ (s.step code e).current, ∃ call, (s.step code e).calls f = some call := by
  have hset : ∀ g call, ∀ f ≤ s.current,
      ∃ call', Function.update s.calls g (some call) f = some call' := by
    intro g call f hf
    by_cases hfg : f = g
    · exact ⟨call, hfg ▸ Function.update_self _ _ _⟩
    · exact (h f hf).imp fun _ hold => (Function.update_of_ne hfg _ _).trans hold
  cases e with
  | refresh =>
    intro f hf
    rcases Nat.le_succ_iff.mp hf with hold | rfl
    · exact hset _ _ f hold
    · exact ⟨_, Function.update_self _ _ _⟩
  | respond g response =>
    simp only [Loader.step]
    split
    · exact hset _ _
    · exact h
  | wake g =>
    simp only [Loader.step]
    split
    · exact hset _ _
    · exact h

/-- The calls of an `NftPage`, the first one among them. -/
structure NftPage.Regular (s : Loader (List NftArt)) : Prop where
  started : ∀ f ≤ s.current, ∃ call, s.calls f = some call
  settles : ∀ f call, s.calls f = some call → call.Settles

theorem Call.Settles.next (r : Except Raised (Option β)) :
    (Call.next (.returned r) : Call β).Settles := by
  cases r with
  | error e => exact ⟨_, rfl⟩
  | ok value =>
    cases value with
    | none => exact ⟨_, rfl⟩
    | some tmp => trivial

theorem NftPage.Regular.step {uid : String} {nfts : List NftArt} {s : Loader (List NftArt)}
    (h : NftPage.Regular s) (e : LoaderEvent) :
    NftPage.Regular (s.step (NftPage.fetch uid nfts) e) := by
  have hset : ∀ g {call : Call (List NftArt)}, call.Settles → ∀ f call',
      Function.update s.calls g (some call) f = some call' → call'.Settles := by
    intro g call hcall f call' hcall'
    rcases Machine.update_eq_some hcall' with ⟨-, hnew⟩ | ⟨-, hold⟩
    · exact Option.some.inj hnew ▸ hcall
    · exact h.settles f call' hold
  refine ⟨Loader.exists_call_step h.started e, ?_⟩
  cases e with
  | refresh =>
    have hcall : (Call.fetching (some s.current) : Call (List NftArt)).Settles := ⟨_, rfl⟩
    exact hset _ hcall
  | respond f response =>
    simp only [Loader.step]
    split
    · rename_i given hf
      obtain ⟨r, hr⟩ := NftPage.exists_returned uid nfts given response
      rw [hr]
      exact hset f (.next r)
    · exact h.settles
  | wake f =>
    simp only [Loader.step]
    split
    · rename_i tmp hf
      have hcall : (Call.ended (.returned (.ok (some tmp))) : Call (List NftArt)).Settles :=
        ⟨_, rfl⟩
      exact hset f hcall
    · exact h.settles

theorem NftPage.route_of_calls (uid : String) {s : Loader (List NftArt)} {call : Call (List NftArt)}
    (hcall : s.calls s.current = some call) : NftPage.route uid s = .nft uid call.snapshot := by
  simp only [NftPage.route, hcall, Option.elim]

theorem NftPage.route_setCall_self (uid : String) (s : Loader (List NftArt))
    (call : Call (List NftArt)) (current : ℕ) (responses : ℕ → Option Response) :
    NftPage.route uid ⟨Function.update s.calls current (some call), current, responses⟩ =
      .nft uid call.snapshot := by
  simp only [NftPage.route, Function.update_self, Option.elim]

theorem NftPage.route_setCall_of_ne (uid : String) (s : Loader (List NftArt)) {f : ℕ}
    (hf : f ≠ s.current) (call : Call (List NftArt)) (responses : ℕ → Option Response) :
    NftPage.route uid ⟨Function.update s.calls f (some call), s.current, responses⟩ =
      NftPage.route uid s := by
  simp only [NftPage.route, Function.update_of_ne hf.symm]

/-- An answer means nothing to a page that waits for none. -/
theorem NftPage.follow_respond_of_ne (uid : String) (current f : ℕ) (response : Response)
    {shown : Snapshot (Option (List NftArt))} (h : shown ≠ .waiting) :
    NftPage.follow current (.respond f response) (.nft uid shown) = .nft uid shown := by
  cases response with
  | ok docs =>
    simp only [NftPage.follow]
    split
    · cases shown with
      | waiting => exact absurd rfl h
      | answered a => rfl
      | done result => rfl
    · rfl
  | error text =>
    simp only [NftPage.follow]
    split
    · cases shown with
      | waiting => exact absurd rfl h
      | answered a => rfl
      | done result => rfl
    · rfl

/-- The page's current call is answered. -/
theorem NftPage.route_respond {uid : String} {nfts : List NftArt} {s : Loader (List NftArt)}
    {call : Call (List NftArt)} (hcall : s.calls s.current = some call) (hsettles : call.Settles)
    (response : Response) :
    NftPage.route uid (s.step (NftPage.fetch uid nfts) (.respond s.current response)) =
      NftPage.follow s.current (.respond s.current response) (.nft uid call.snapshot) := by
  have hroute := NftPage.route_of_calls uid hcall
  cases call with
  | fetching given =>
    obtain ⟨currentNft, rfl⟩ := hsettles
    simp only [Loader.step, hcall, NftPage.route_setCall_self]
    cases response with
    | ok docs =>
      simp only [NftPage.follow, if_true]
      exact (NftPage.responded_eq uid nfts docs currentNft).symm
    | error text =>
      rw [NftPage.body_of_error (e := .remote text) rfl]
      simp only [NftPage.follow, if_true]
      rfl
  | sleeping tmp =>
    have hshown : (Call.sleeping tmp).snapshot ≠ .waiting := nofun
    simp only [Loader.step, hcall, hroute]
    exact (NftPage.follow_respond_of_ne uid _ _ response hshown).symm
  | ended x =>
    obtain ⟨r, rfl⟩ := hsettles
    have hshown : (Call.ended (.returned r)).snapshot ≠ .waiting := nofun
    simp only [Loader.step, hcall, hroute]
    exact (NftPage.follow_respond_of_ne uid _ _ response hshown).symm

/-- The sleep of the page's current call ends, if it is in one. -/
theorem NftPage.route_wake {uid : String} {nfts : List NftArt} {s : Loader (List NftArt)}
    {call : Call (List NftArt)} (hcall : s.calls s.current = some call) (hsettles : call.Settles) :
    NftPage.route uid (s.step (NftPage.fetch uid nfts) (.wake s.current)) =
      (AdminRoute.nft uid call.snapshot).woken := by
  have hroute := NftPage.route_of_calls uid hcall
  cases call with
  | fetching given =>
    simp only [Loader.step, hcall, hroute]
    rfl
  | sleeping tmp =>
    simp only [Loader.step, hcall, NftPage.route_setCall_self]
    rfl
  | ended x =>
    obtain ⟨r, rfl⟩ := hsettles
    simp only [Loader.step, hcall, hroute]
    rfl

/-- Each step of the calls is one of the page of `AdminApp`, which takes the answers of its current
call and no others. -/
theorem NftPage.route_step {uid : String} {nfts : List NftArt} {s : Loader (List NftArt)}
    (h : NftPage.Regular s) (e : LoaderEvent) :
    NftPage.route uid (s.step (NftPage.fetch uid nfts) e) =
      NftPage.follow s.current e (NftPage.route uid s) := by
  obtain ⟨call, hcall⟩ := h.started s.current (Nat.le_refl _)
  have hsettles := h.settles _ _ hcall
  have hroute := NftPage.route_of_calls uid hcall
  cases e with
  | refresh => exact NftPage.route_setCall_self uid s _ _ _
  | respond f response =>
    by_cases hf : f = s.current
    · subst hf
      rw [hroute]
      exact NftPage.route_respond hcall hsettles response
    · have hfollow : NftPage.follow s.current (.respond f response) = id := by
        cases response with
        | ok docs => simp only [NftPage.follow, if_neg hf]
        | error text => simp only [NftPage.follow, if_neg hf]
      rw [hfollow]
      simp only [Loader.step]
      split
      · exact NftPage.route_setCall_of_ne uid s hf _ _
      · rfl
  | wake f =>
    by_cases hf : f = s.current
    · subst hf
      simp only [NftPage.follow, if_true, hroute]
      exact NftPage.route_wake hcall hsettles
    · simp only [NftPage.follow, if_neg hf, Loader.step]
      split
      · exact NftPage.route_setCall_of_ne uid s hf _ _
      · rfl

/-- The page of `AdminApp` over a run of its calls. -/
theorem NftPage.route_run (uid : String) (nfts : List NftArt) (es : List LoaderEvent)
    (e : LoaderEvent) :
    NftPage.route uid (NftPage.run uid nfts (es ++ [e])) =
      NftPage.follow (NftPage.run uid nfts es).current e
        (NftPage.route uid (NftPage.run uid nfts es)) := by
  have hregular : NftPage.Regular (NftPage.run uid nfts es) := by
    have hstep : ∀ (s : Loader (List NftArt)) e, NftPage.Regular s →
        NftPage.Regular (s.step (NftPage.fetch uid nfts) e) := fun s e h => h.step e
    refine Machine.run_invariant _ hstep ⟨fun f hf => ?_, fun f call hcall => ?_⟩ es
    · obtain rfl := Nat.le_zero.mp hf
      exact ⟨_, rfl⟩
    · have hstart : Function.update (fun _ => none) 0 (some (NftPage.fetch uid nfts).first) f =
        some call := hcall
      rcases Machine.update_eq_some hstart with ⟨-, hfirst⟩ | ⟨-, hnone⟩
      · obtain rfl := Option.some.inj hfirst
        exact ⟨_, rfl⟩
      · cases hnone
  rw [NftPage.run, Machine.run_snoc]
  exact NftPage.route_step hregular e

end FlutterThree
