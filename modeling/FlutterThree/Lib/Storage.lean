import Mathlib.Logic.Function.Basic

/-!
# An object store

A bucket holds at most one object at a path; `put` replaces it. A download link is issued for a path
and serves whatever object is at that path when it is followed.
-/

namespace Storage

/-- A bucket with paths in `π`, links in `κ` and contents in `β`. -/
structure Bucket (π κ β : Type*) where
  objects : π → Option β
  /-- The path a link was issued for. -/
  issued : κ → Option π

namespace Bucket

variable {π κ β : Type*}

def empty : Bucket π κ β := ⟨fun _ => none, fun _ => none⟩

/-- What a link serves now. -/
def serve (b : Bucket π κ β) (link : κ) : Option β := (b.issued link).bind b.objects

/-- The service can answer `link` for `path`: no other path has that link. -/
def CanIssue (b : Bucket π κ β) (link : κ) (path : π) : Prop :=
  b.issued link = none ∨ b.issued link = some path

instance [DecidableEq π] (b : Bucket π κ β) (link : κ) (path : π) :
    Decidable (b.CanIssue link path) :=
  inferInstanceAs (Decidable (_ ∨ _))

section Put

variable [DecidableEq π]

def put (b : Bucket π κ β) (path : π) (x : β) : Bucket π κ β :=
  { b with objects := Function.update b.objects path (some x) }

theorem serve_put_self {b : Bucket π κ β} {link : κ} {path : π}
    (h : b.issued link = some path) (x : β) : (b.put path x).serve link = some x := by
  rw [serve, show (b.put path x).issued link = some path from h, Option.bind_some]
  exact Function.update_self path (some x) b.objects

theorem serve_put_of_ne {b : Bucket π κ β} {link : κ} {path path' : π}
    (h : b.issued link = some path') (hne : path' ≠ path) (x : β) :
    (b.put path x).serve link = b.serve link := by
  rw [serve, serve, show (b.put path x).issued link = some path' from h, h, Option.bind_some,
    Option.bind_some]
  exact Function.update_of_ne hne (some x) b.objects

/-- An object is not taken away by a `put`. -/
theorem isSome_objects_put {b : Bucket π κ β} {path : π} (h : (b.objects path).isSome)
    (path' : π) (x : β) : ((b.put path' x).objects path).isSome := by
  change (Function.update b.objects path' (some x) path).isSome
  rw [Function.update_apply]
  split
  · rfl
  · exact h

/-- An object after a `put` is the new one, or was there. -/
theorem objects_put_eq_some {b : Bucket π κ β} {path path' : π} {x y : β}
    (h : (b.put path x).objects path' = some y) :
    path' = path ∧ x = y ∨ b.objects path' = some y := by
  change Function.update b.objects path (some x) path' = some y at h
  rw [Function.update_apply] at h
  split at h
  · rename_i hpath
    exact .inl ⟨hpath, Option.some.inj h⟩
  · exact .inr h

end Put

section Issue

variable [DecidableEq κ]

def issue (b : Bucket π κ β) (link : κ) (path : π) : Bucket π κ β :=
  { b with issued := Function.update b.issued link (some path) }

theorem issued_issue_self (b : Bucket π κ β) (link : κ) (path : π) :
    (b.issue link path).issued link = some path := by
  change Function.update b.issued link (some path) link = some path
  rw [Function.update_self]

/-- A link keeps the path it was issued for. -/
theorem issued_issue_of_some {b : Bucket π κ β} {link : κ} {path : π} (hcan : b.CanIssue link path)
    {link' : κ} {path' : π} (h : b.issued link' = some path') :
    (b.issue link path).issued link' = some path' := by
  change Function.update b.issued link (some path) link' = some path'
  by_cases hl : link' = link
  · subst hl
    rw [Function.update_self]
    rcases hcan with hcan | hcan
    · rw [hcan] at h
      cases h
    · rw [← hcan, h]
  · rw [Function.update_of_ne hl]
    exact h

theorem serve_issue_of_some {b : Bucket π κ β} {link : κ} {path : π} (hcan : b.CanIssue link path)
    {link' : κ} {path' : π} (h : b.issued link' = some path') :
    (b.issue link path).serve link' = b.serve link' := by
  rw [serve, serve, issued_issue_of_some hcan h, h]
  rfl

end Issue

/-! ## What stays -/

/-- In `b'` the links of `b` are for the same paths, and none of its objects is gone. -/
structure Keeps (b b' : Bucket π κ β) : Prop where
  links : ∀ link path, b.issued link = some path → b'.issued link = some path
  objects : ∀ path, (b.objects path).isSome → (b'.objects path).isSome

variable {b : Bucket π κ β}

theorem Keeps.refl (b : Bucket π κ β) : b.Keeps b := ⟨fun _ _ h => h, fun _ h => h⟩

theorem Keeps.trans {b' b'' : Bucket π κ β} (h : b.Keeps b') (h' : b'.Keeps b'') : b.Keeps b'' :=
  ⟨fun link path hl => h'.links link path (h.links link path hl),
    fun path hp => h'.objects path (h.objects path hp)⟩

theorem keeps_put [DecidableEq π] (path : π) (x : β) : b.Keeps (b.put path x) :=
  ⟨fun _ _ h => h, fun _ h => isSome_objects_put h path x⟩

theorem keeps_issue [DecidableEq κ] {link : κ} {path : π} (hcan : b.CanIssue link path) :
    b.Keeps (b.issue link path) :=
  ⟨fun _ _ h => issued_issue_of_some hcan h, fun _ h => h⟩

end Bucket

end Storage
