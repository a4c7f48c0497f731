import Mathlib.Data.List.Basic

/-!
# Dart's dynamic values

The values a decoded JSON-like document is made of, with the member calls that Dart resolves at run
time: index assignment, `add`, `removeAt`, `forEach` and the implicit casts. A call on a receiver
that lacks the member, an index out of range, a failing cast and a `!` on `null` raise.

A `Map<String, dynamic>` is an association list read at the first entry of a key; nothing here
depends on the order of the keys.
-/

namespace Dart

/-- What a failing dynamic operation raises. -/
inductive DartError where
  | noSuchMethod
  | typeError
  | rangeError
  | nullCheck
  deriving Repr, DecidableEq

@[simp] theorem ok_bind {α β : Type} (a : α) (f : α → Except DartError β) :
    (Except.ok a >>= f) = f a := rfl

@[simp] theorem error_bind {α β : Type} (x : DartError) (f : α → Except DartError β) :
    (Except.error x >>= f) = .error x := rfl

@[simp] theorem pure_eq_ok {α : Type} (a : α) : (pure a : Except DartError α) = .ok a := rfl

/-- A computation that returned, split at a bind. -/
theorem bind_eq_ok {α β : Type} {x : Except DartError α} {f : α → Except DartError β} {b : β} :
    x >>= f = .ok b ↔ ∃ a, x = .ok a ∧ f a = .ok b := by
  cases x with
  | ok a => simp
  | error e => simp

inductive Value where
  | null
  | bool (b : Bool)
  | num (n : Int)
  | str (s : String)
  | list (xs : List Value)
  | map (fields : List (String × Value))
  deriving Repr

/-- A `Map<String, dynamic>`. -/
abbrev Fields := List (String × Value)

/-- `String.length`: the number of UTF-16 code units. -/
def length (s : String) : ℕ :=
  s.toList.foldl (fun n c => n + if c.toNat ≤ 0xFFFF then 1 else 2) 0

/-- `x!`. -/
def bang {α : Type} : Option α → Except DartError α
  | some a => .ok a
  | none => .error .nullCheck

namespace Fields

/-- `m[k]`, which is `null` when `k` is absent. -/
def index (m : Fields) (k : String) : Value := (m.lookup k).getD .null

/-- `m[k] = v`. -/
def put : Fields → String → Value → Fields
  | [], k, v => [(k, v)]
  | (k', v') :: m, k, v => if k' = k then (k, v) :: m else (k', v') :: put m k v

theorem lookup_cons (k' : String) (v' : Value) (m : Fields) (k : String) :
    List.lookup k ((k', v') :: m) = if k = k' then some v' else m.lookup k := by
  rw [List.lookup_cons]
  split
  · rename_i h
    rw [if_pos (beq_iff_eq.mp h)]
  · rename_i h
    rw [if_neg (beq_eq_false_iff_ne.mp h)]

theorem lookup_put (m : Fields) (k j : String) (v : Value) :
    (m.put k v).lookup j = if j = k then some v else m.lookup j := by
  induction m with
  | nil => exact lookup_cons k v [] j
  | cons kv m ih =>
    obtain ⟨k', v'⟩ := kv
    rw [put]
    split
    · rename_i hk
      subst hk
      rw [lookup_cons, lookup_cons]
      split <;> rfl
    · rename_i hk
      rw [lookup_cons, lookup_cons, ih]
      by_cases hj : j = k'
      · subst hj
        rw [if_pos rfl, if_neg hk, if_pos rfl]
      · rw [if_neg hj, if_neg hj]

@[simp] theorem lookup_put_self (m : Fields) (k : String) (v : Value) :
    (m.put k v).lookup k = some v := by
  rw [lookup_put, if_pos rfl]

theorem lookup_put_ne (m : Fields) {k j : String} (h : j ≠ k) (v : Value) :
    (m.put k v).lookup j = m.lookup j := by
  rw [lookup_put, if_neg h]

theorem index_of_lookup {m : Fields} {k : String} {v : Value} (h : m.lookup k = some v) :
    m.index k = v := by
  rw [index, h, Option.getD_some]

@[simp] theorem index_put_self (m : Fields) (k : String) (v : Value) :
    (m.put k v).index k = v :=
  index_of_lookup (lookup_put_self m k v)

theorem put_put (m : Fields) (k : String) (v w : Value) : (m.put k v).put k w = m.put k w := by
  induction m with
  | nil => simp only [put, if_true]
  | cons kv m ih =>
    obtain ⟨k', v'⟩ := kv
    by_cases hk : k' = k
    · simp only [put, if_pos hk, if_true]
    · simp only [put, if_neg hk, ih]

/-- Assignments to two keys commute once one of the keys is present, and so has its place. -/
theorem put_comm {m : Fields} {k j : String} (hk : (m.lookup k).isSome) (hjk : j ≠ k)
    (v w : Value) : (m.put j w).put k v = (m.put k v).put j w := by
  induction m with
  | nil => cases hk
  | cons kv m ih =>
    obtain ⟨k', v'⟩ := kv
    by_cases hk' : k' = k
    · subst hk'
      simp only [put, if_neg hjk.symm, if_true]
    · by_cases hj' : k' = j
      · subst hj'
        simp only [put, if_neg hk', if_true]
      · have hm : (m.lookup k).isSome := by
          rw [lookup_cons, if_neg fun h => hk' h.symm] at hk
          exact hk
        simp only [put, if_neg hk', if_neg hj', ih hm]

end Fields

namespace Value

/-- `v[key] = text`. -/
def assign (v : Value) (key text : String) : Except DartError Value :=
  match v with
  | .map m => .ok (.map (Fields.put m key (.str text)))
  -- a list has `[]=`, but not at a string
  | .list _ => .error .typeError
  | _ => .error .noSuchMethod

/-- `v[n][key] = text`. -/
def assignAt (v : Value) (n : ℕ) (key text : String) : Except DartError Value :=
  match v with
  | .list xs =>
    match xs[n]? with
    | some x => do return .list (xs.set n (← x.assign key text))
    | none => .error .rangeError
  -- a string has `[]`, but the character it returns has no `[]=`
  | .str s => if n < length s then .error .noSuchMethod else .error .rangeError
  -- an int is no key of a `Map<String, dynamic>`, and `null` has no `[]=`
  | _ => .error .noSuchMethod

/-- `v.add(x)`. -/
def add (v x : Value) : Except DartError Value :=
  match v with
  | .list xs => .ok (.list (xs ++ [x]))
  | _ => .error .noSuchMethod

/-- `v.removeAt(n)`. -/
def removeAt (v : Value) (n : ℕ) : Except DartError Value :=
  match v with
  | .list xs => if n < xs.length then .ok (.list (xs.eraseIdx n)) else .error .rangeError
  | _ => .error .noSuchMethod

/-- `v.length`. -/
def length : Value → Except DartError ℕ
  | .list xs => .ok xs.length
  | .str s => .ok (Dart.length s)
  | .map m => .ok m.length
  | _ => .error .noSuchMethod

/-- The implicit cast to `String`. -/
def asString : Value → Except DartError String
  | .str s => .ok s
  | _ => .error .typeError

/-- The implicit cast to `Map`. -/
def asMap : Value → Except DartError Fields
  | .map m => .ok m
  | _ => .error .typeError

/-- `v.forEach(f)` for an `f` of one argument, collecting what `f` returns. -/
def forEach {α : Type} (v : Value) (f : Value → Except DartError α) : Except DartError (List α) :=
  match v with
  | .list xs => xs.mapM f
  -- `Map.forEach` calls its argument with a key and a value
  | .map _ => .error .typeError
  | _ => .error .noSuchMethod

end Value

end Dart
