import FlutterThree.Lib.Dynamic
import Mathlib.Data.List.AList

/-!
# A document store

A collection maps document ids to documents, each id to at most one. `get`, `set`, `update` and
`delete` act on one document, atomically: `set` creates or replaces it, `update` replaces the given
top-level fields of an existing document and fails on an absent one, and `FieldValue.arrayUnion`
appends to an array the elements it does not hold yet.
-/

namespace Firestore

open Dart

mutual

/-- Equality of stored values; the fields of a map have no order. -/
def same : Value → Value → Bool
  | .null, .null => true
  | .bool a, .bool b => a == b
  | .num a, .num b => a == b
  | .str a, .str b => a == b
  | .list xs, .list ys => sameList xs ys
  | .map m, .map m' => m.length == m'.length && sameFields m m'
  | _, _ => false

def sameList : List Value → List Value → Bool
  | [], [] => true
  | x :: xs, y :: ys => same x y && sameList xs ys
  | _, _ => false

def sameFields : List (String × Value) → List (String × Value) → Bool
  | [], _ => true
  | (k, v) :: m, m' =>
    (match m'.lookup k with
      | some v' => same v v'
      | none => false) && sameFields m m'

end

/-- The elements of a field; a field that is absent or no array has none. -/
def elements : Value → List Value
  | .list xs => xs
  | _ => []

/-- `FieldValue.arrayUnion(xs)` applied to a field holding `v`. -/
def arrayUnion (v : Value) (xs : List Value) : Value :=
  .list (xs.foldl (fun ys x => if ys.any (same x) then ys else ys ++ [x]) (elements v))

/-- The document after `update(data)`: the fields of `data` replaced, the others kept. -/
def overwrite (data doc : Fields) : Fields :=
  data ++ doc.filter fun kv => (data.lookup kv.1).isNone

private theorem lookup_filter_isNone (data doc : Fields) {k : String}
    (h : data.lookup k = none) :
    (doc.filter fun kv => (data.lookup kv.1).isNone).lookup k = doc.lookup k := by
  induction doc with
  | nil => rfl
  | cons kv doc ih =>
    obtain ⟨k', v⟩ := kv
    rw [List.filter_cons]
    split
    · rw [List.lookup_cons, List.lookup_cons, ih]
    · rename_i hk'
      have hne : k ≠ k' := by
        rintro rfl
        simp [h] at hk'
      rw [ih, List.lookup_cons, beq_false_of_ne hne]

theorem lookup_overwrite (data doc : Fields) (k : String) :
    (overwrite data doc).lookup k = (data.lookup k).or (doc.lookup k) := by
  rw [overwrite, List.lookup_append]
  cases h : data.lookup k with
  | some v => rfl
  | none => rw [lookup_filter_isNone data doc h]

/-- A field that `data` gives is the one of `data` after the update. -/
theorem lookup_overwrite_of_some {data doc : Fields} {k : String} {v : Value}
    (h : data.lookup k = some v) : (overwrite data doc).lookup k = some v := by
  rw [lookup_overwrite, h, Option.some_or]

/-- The documents of a collection, by id. -/
abbrev Collection (ι : Type*) := AList fun _ : ι => Fields

namespace Collection

variable {ι : Type*} [DecidableEq ι]

/-- `doc(id).get()`. -/
def get (c : Collection ι) (id : ι) : Option Fields := c.lookup id

/-- `doc(id).set(d)`. -/
def set (c : Collection ι) (id : ι) (d : Fields) : Collection ι := c.insert id d

/-- `doc(id).delete()`. -/
def delete (c : Collection ι) (id : ι) : Collection ι := c.erase id

/-- `doc(id).update(..)`, where `f` gives the updated document: no effect on an absent one. -/
def update (c : Collection ι) (id : ι) (f : Fields → Fields) : Collection ι :=
  match c.get id with
  | some d => c.set id (f d)
  | none => c

/-- The documents that `get()` of the whole collection returns. -/
def docs (c : Collection ι) : List (ι × Fields) := c.entries.map fun e => (e.1, e.2)

theorem update_of_none {c : Collection ι} {id : ι} (h : c.get id = none) (f : Fields → Fields) :
    c.update id f = c := by
  rw [update, h]

theorem get_set (c : Collection ι) (id j : ι) (d : Fields) :
    (c.set id d).get j = if j = id then some d else c.get j := by
  split
  · rename_i h
    rw [h]
    exact AList.lookup_insert c
  · rename_i h
    exact AList.lookup_insert_ne h

theorem get_delete (c : Collection ι) (id j : ι) :
    (c.delete id).get j = if j = id then none else c.get j := by
  split
  · rename_i h
    rw [h]
    exact AList.lookup_erase id c
  · rename_i h
    exact AList.lookup_erase_ne h

theorem get_update (c : Collection ι) (id j : ι) (f : Fields → Fields) :
    (c.update id f).get j = if j = id then (c.get id).map f else c.get j := by
  cases h : c.get id with
  | none =>
    have hkeep : c.update id f = c := by rw [update, h]
    rw [hkeep]
    by_cases hj : j = id
    · rw [if_pos hj, hj, h, Option.map_none]
    · rw [if_neg hj]
  | some d =>
    have hset : c.update id f = c.set id (f d) := by rw [update, h]
    rw [hset, get_set, Option.map_some]

/-- The documents of the collection are those that `get` finds. -/
theorem mem_docs {c : Collection ι} {id : ι} {d : Fields} :
    (id, d) ∈ c.docs ↔ c.get id = some d := by
  have hmem : c.get id = some d ↔ Sigma.mk id d ∈ c.entries := AList.mem_lookup_iff
  rw [hmem, docs, List.mem_map]
  constructor
  · rintro ⟨e, he, heq⟩
    obtain ⟨rfl, rfl⟩ := Prod.mk.inj heq
    exact he
  · exact fun h => ⟨_, h, rfl⟩

end Collection

end Firestore
