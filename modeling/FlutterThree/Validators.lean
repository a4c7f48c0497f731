import FlutterThree.Lib.Dynamic
import FlutterThree.Lib.Regex

/-!
# Validators

The validators of the text fields, and what the pattern of `validateEmail` makes of a text. The
pattern is anchored at its start only and knows a domain of one label, so it looks no further than
the first letter after the first dot of the domain. `validateEmail_iff` says for which texts this is
the same as being an address.
-/

namespace FlutterThree

open Dart Regex

/-! ## `validators.dart` -/

/-- A `StreamTransformer` of the validators: the text goes on, or an error does. -/
def check (passes : String → Bool) (message text : String) : Except String String :=
  if passes text then .ok text else .error message

/-- A character class: ranges and single characters. -/
def charClass (ranges : List (Char × Char)) (singles : String) (c : Char) : Bool :=
  (ranges.any fun r => r.1.toNat ≤ c.toNat && c.toNat ≤ r.2.toNat) || singles.toList.contains c

/-- The class before the '@'. The dash in it makes a range, from '+' to '/'. -/
def localChar : Char → Bool :=
  charClass [('a', 'z'), ('A', 'Z'), ('0', '9'), ('+', '/')] ".!#$%&'*=?^_`\x7b|\x7d~"

/-- `[a-zA-Z0-9]`. -/
def alphanumeric : Char → Bool := charClass [('a', 'z'), ('A', 'Z'), ('0', '9')] ""

/-- `[a-zA-Z]`. -/
def letter : Char → Bool := charClass [('a', 'z'), ('A', 'Z')] ""

/-- What follows the `^` in the pattern of `validateEmail`. -/
def emailPattern : Pattern Char :=
  .seq (.plus (.one localChar)) (.seq (.one (· == '@')) (.seq (.plus (.one alphanumeric))
    (.seq (.one (· == '.')) (.plus (.one letter)))))

/-- `validateEmail`, the same in both apps. -/
def validateEmail : String → Except String String :=
  check (fun email => emailPattern.matchesStart email.toList) "Enter a valid email"

/-- `validatePassword`, the same in both apps. -/
def validatePassword : String → Except String String :=
  check (fun password => length password > 3) "Password must be at least 4 characters"

def validateName : String → Except String String :=
  check (fun name => length name > 2) "Name must be at least 3 characters"

def validateDescription : String → Except String String :=
  check (fun description => length description > 9) "Description must be at least 10 characters"

theorem check_eq_ok {passes : String → Bool} {message text : String} :
    check passes message text = .ok text ↔ passes text = true := by
  unfold check
  split
  · rename_i h
    simp [h]
  · rename_i h
    simp [h]

/-! ## Addresses -/

/-- A non-empty run of characters of a class. -/
def Run (p : Char → Bool) (cs : List Char) : Prop := cs ≠ [] ∧ ∀ c ∈ cs, p c = true

-- The quantifier is over the list; the instance for finite types would run through all characters.
instance (p : Char → Bool) (cs : List Char) : Decidable (Run p cs) :=
  decidable_of_iff (cs ≠ [] ∧ cs.all p = true) (and_congr_right fun _ => List.all_eq_true)

/-- What may follow the first dot of a domain: further labels, each with its dot, and the top-level
part. -/
def DomainEnd (cs : List Char) : Prop :=
  ∃ (labels : List (List Char)) (tld : List Char), (∀ l ∈ labels, Run alphanumeric l) ∧
    Run letter tld ∧ cs = (labels.flatMap fun l => l ++ ['.']) ++ tld

/-- The text is `local@label.` and then `rest`. -/
def FirstLabel (cs rest : List Char) : Prop :=
  ∃ user label, Run localChar user ∧ Run alphanumeric label ∧
    cs = user ++ '@' :: (label ++ '.' :: rest)

/-- The whole text is `local@label.label...tld`. -/
def IsAddress (s : String) : Prop :=
  ∃ (user : List Char) (labels : List (List Char)) (tld : List Char), Run localChar user ∧
    labels ≠ [] ∧ (∀ l ∈ labels, Run alphanumeric l) ∧ Run letter tld ∧
    s.toList = user ++ '@' :: ((labels.flatMap fun l => l ++ ['.']) ++ tld)

theorem isAddress_iff {s : String} :
    IsAddress s ↔ ∃ rest, FirstLabel s.toList rest ∧ DomainEnd rest := by
  constructor
  · rintro ⟨user, labels, tld, huser, hne, hlabels, htld, heq⟩
    cases labels with
    | nil => exact absurd rfl hne
    | cons l labels =>
      refine ⟨(labels.flatMap fun l => l ++ ['.']) ++ tld, ?_, labels, tld, ?_, htld, rfl⟩
      · refine ⟨user, l, huser, hlabels l List.mem_cons_self, ?_⟩
        rw [heq]
        simp
      · exact fun l' hl' => hlabels l' (List.mem_cons_of_mem l hl')
  · rintro ⟨rest, ⟨user, l, huser, hl, heq⟩, labels, tld, hlabels, htld, rfl⟩
    refine ⟨user, l :: labels, tld, huser, List.cons_ne_nil l labels, ?_, htld, ?_⟩
    · intro l' hl'
      rcases List.mem_cons.mp hl' with rfl | hl'
      · exact hl
      · exact hlabels l' hl'
    · rw [heq]
      simp

/-- There is one way to split off the first label. -/
theorem FirstLabel.unique {cs rest rest' : List Char} (h : FirstLabel cs rest)
    (h' : FirstLabel cs rest') : rest = rest' := by
  obtain ⟨user, label, huser, hlabel, rfl⟩ := h
  obtain ⟨user', label', huser', hlabel', heq⟩ := h'
  obtain ⟨-, -, hdomain⟩ := append_cons_inj huser.2 huser'.2 (by decide) (by decide) heq
  exact (append_cons_inj hlabel.2 hlabel'.2 (by decide) (by decide) hdomain).2.2

/-! ## What an address is made of -/

/-- A character of printing ASCII other than the blank; white space is outside. -/
def Graphic (c : Char) : Prop := '!'.toNat ≤ c.toNat ∧ c.toNat ≤ '~'.toNat

instance (c : Char) : Decidable (Graphic c) :=
  inferInstanceAs (Decidable ('!'.toNat ≤ c.toNat ∧ c.toNat ≤ '~'.toNat))

theorem graphic_of_charClass {ranges : List (Char × Char)} {singles : String}
    (hranges : ∀ r ∈ ranges, '!'.toNat ≤ r.1.toNat ∧ r.2.toNat ≤ '~'.toNat)
    (hsingles : singles.toList.all (fun c => decide (Graphic c)) = true) {c : Char}
    (h : charClass ranges singles c = true) : Graphic c := by
  rcases (Bool.or_eq_true _ _).mp h with h | h
  · obtain ⟨r, hr, hc⟩ := List.any_eq_true.mp h
    have hbounds : r.1.toNat ≤ c.toNat ∧ c.toNat ≤ r.2.toNat := by simpa using hc
    exact ⟨Nat.le_trans (hranges r hr).1 hbounds.1, Nat.le_trans hbounds.2 (hranges r hr).2⟩
  · exact of_decide_eq_true (List.all_eq_true.mp hsingles c (by simpa using h))

theorem graphic_of_localChar {c : Char} (h : localChar c = true) : Graphic c :=
  graphic_of_charClass (by decide) (by decide) h

theorem graphic_of_alphanumeric {c : Char} (h : alphanumeric c = true) : Graphic c :=
  graphic_of_charClass (by decide) (by decide) h

theorem alphanumeric_of_letter {c : Char} (h : letter c = true) : alphanumeric c = true := by
  have hcases : (97 ≤ c.toNat ∧ c.toNat ≤ 122) ∨ (65 ≤ c.toNat ∧ c.toNat ≤ 90) := by
    simpa [letter, charClass] using h
  rcases hcases with hlower | hupper
  · simp [alphanumeric, charClass, hlower]
  · simp [alphanumeric, charClass, hupper]

theorem DomainEnd.exists_cons {cs : List Char} (h : DomainEnd cs) : ∃ c rest, cs = c :: rest := by
  obtain ⟨labels, tld, -, ⟨hne, -⟩, rfl⟩ := h
  refine List.exists_cons_of_ne_nil fun hnil => ?_
  exact hne (List.append_eq_nil_iff.mp hnil).2

/-- The domain after its first dot consists of letters, digits and dots. -/
theorem DomainEnd.mem {cs : List Char} (h : DomainEnd cs) {c : Char} (hc : c ∈ cs) :
    alphanumeric c = true ∨ c = '.' := by
  obtain ⟨labels, tld, hlabels, htld, rfl⟩ := h
  rcases List.mem_append.mp hc with hc | hc
  · obtain ⟨l, hl, hcl⟩ := List.mem_flatMap.mp hc
    rcases List.mem_append.mp hcl with hcl | hcl
    · exact .inl ((hlabels l hl).2 c hcl)
    · exact .inr (List.mem_singleton.mp hcl)
  · exact .inl (alphanumeric_of_letter (htld.2 c hc))

/-- An address has no white space and one '@'. -/
theorem IsAddress.graphic {s : String} (h : IsAddress s) :
    (∀ c ∈ s.toList, Graphic c) ∧ s.toList.count '@' = 1 := by
  obtain ⟨rest, ⟨user, label, huser, hlabel, heq⟩, hend⟩ := isAddress_iff.mp h
  rw [heq]
  constructor
  · intro c hc
    simp only [List.mem_append, List.mem_cons] at hc
    rcases hc with hc | rfl | hc | rfl | hc
    · exact graphic_of_localChar (huser.2 c hc)
    · exact ⟨by decide, by decide⟩
    · exact graphic_of_alphanumeric (hlabel.2 c hc)
    · exact ⟨by decide, by decide⟩
    · rcases hend.mem hc with hc | rfl
      · exact graphic_of_alphanumeric hc
      · exact ⟨by decide, by decide⟩
  · have huser' : '@' ∉ user := fun hat => absurd (huser.2 '@' hat) (by decide)
    have hlabel' : '@' ∉ label := fun hat => absurd (hlabel.2 '@' hat) (by decide)
    have hrest : '@' ∉ rest := fun hat => by
      rcases hend.mem hat with hat | hat
      · exact absurd hat (by decide)
      · exact absurd hat (by decide)
    rw [List.count_append, List.count_cons_self, List.count_append, List.count_cons_of_ne (by decide),
      List.count_eq_zero.mpr huser', List.count_eq_zero.mpr hlabel', List.count_eq_zero.mpr hrest]

/-! ## What the pattern accepts -/

/-- The pattern finds `local@label.` and one letter. -/
theorem validateEmail_eq_ok {s : String} :
    validateEmail s = .ok s ↔
      ∃ c rest, letter c = true ∧ FirstLabel s.toList (c :: rest) := by
  have hwords : ∀ w, w ∈ emailPattern.language ↔ ∃ user label tld, Run localChar user ∧
      Run alphanumeric label ∧ Run letter tld ∧ w = user ++ '@' :: (label ++ '.' :: tld) := by
    intro w
    simp only [emailPattern, mem_language_seq, mem_language_plus_one, mem_language_one, beq_iff_eq]
    constructor
    · rintro ⟨user, huser, _, ⟨_, ⟨_, rfl, rfl⟩, _, ⟨label, hlabel, _, ⟨_, ⟨_, rfl, rfl⟩, tld, htld,
        rfl⟩, rfl⟩, rfl⟩, rfl⟩
      exact ⟨user, label, tld, huser, hlabel, htld, rfl⟩
    · rintro ⟨user, label, tld, huser, hlabel, htld, rfl⟩
      exact ⟨user, huser, _, ⟨['@'], ⟨'@', rfl, rfl⟩, _, ⟨label, hlabel, _, ⟨['.'], ⟨'.', rfl, rfl⟩,
        tld, htld, rfl⟩, rfl⟩, rfl⟩, rfl⟩
  rw [validateEmail, check_eq_ok, Pattern.matchesStart_iff]
  constructor
  · rintro ⟨w, hw, ys, heq⟩
    obtain ⟨user, label, tld, huser, hlabel, ⟨hne, htld⟩, rfl⟩ := (hwords w).mp hw
    cases tld with
    | nil => exact absurd rfl hne
    | cons c tld =>
      refine ⟨c, tld ++ ys, htld c List.mem_cons_self, user, label, huser, hlabel, ?_⟩
      rw [heq]
      simp
  · rintro ⟨c, rest, hc, user, label, huser, hlabel, heq⟩
    have hletter : Run letter [c] := by
      refine ⟨List.cons_ne_nil c [], fun d hd => ?_⟩
      rw [List.mem_singleton.mp hd]
      exact hc
    refine ⟨_, (hwords _).mpr ⟨user, label, [c], huser, hlabel, hletter, rfl⟩, rest, ?_⟩
    rw [heq]
    simp

/-- `validateEmail` passes `s` on exactly when it is an address; then it has no white space and one
'@'. -/
def EmailExact (s : String) : Prop :=
  (validateEmail s = .ok s ↔ IsAddress s) ∧
    (validateEmail s = .ok s → (∀ c ∈ s.toList, Graphic c) ∧ s.toList.count '@' = 1)

/-- `local@label.` and a letter, but further on something no address has there. -/
def Trailing (s : String) : Prop :=
  ∃ c rest, letter c = true ∧ FirstLabel s.toList (c :: rest) ∧ ¬ DomainEnd (c :: rest)

/-- An address whose second label begins with a digit. -/
def DigitLabel (s : String) : Prop :=
  ∃ c rest, letter c = false ∧ FirstLabel s.toList (c :: rest) ∧ DomainEnd (c :: rest)

/-- **`validateEmail` is exact** on every text that is of neither kind. -/
theorem validateEmail_iff (s : String) : EmailExact s ↔ ¬ Trailing s ∧ ¬ DigitLabel s := by
  constructor
  · rintro ⟨hiff, -⟩
    refine ⟨?_, ?_⟩
    · rintro ⟨c, rest, hc, hfirst, hend⟩
      obtain ⟨rest', hfirst', hend'⟩ :=
        isAddress_iff.mp (hiff.mp (validateEmail_eq_ok.mpr ⟨c, rest, hc, hfirst⟩))
      exact hend (hfirst.unique hfirst' ▸ hend')
    · rintro ⟨c, rest, hc, hfirst, hend⟩
      obtain ⟨c', rest', hc', hfirst'⟩ :=
        validateEmail_eq_ok.mp (hiff.mpr (isAddress_iff.mpr ⟨c :: rest, hfirst, hend⟩))
      obtain ⟨rfl, -⟩ := List.cons.inj (hfirst.unique hfirst')
      rw [hc] at hc'
      cases hc'
  · rintro ⟨htrailing, hdigit⟩
    have hiff : validateEmail s = .ok s ↔ IsAddress s := by
      rw [validateEmail_eq_ok, isAddress_iff]
      constructor
      · rintro ⟨c, rest, hc, hfirst⟩
        exact ⟨c :: rest, hfirst, by_contra fun hend => htrailing ⟨c, rest, hc, hfirst, hend⟩⟩
      · rintro ⟨rest, hfirst, hend⟩
        obtain ⟨c, rest, rfl⟩ := hend.exists_cons
        refine ⟨c, rest, ?_, hfirst⟩
        by_contra hc
        exact hdigit ⟨c, rest, by simpa using hc, hfirst, hend⟩
    exact ⟨hiff, fun hok => (hiff.mp hok).graphic⟩

/-- A second address after the first one is accepted, and an address with a label of digits is
not. -/
theorem validateEmail_not_exact :
    ¬ EmailExact "ann@mail.com, bob@mail.com" ∧ ¬ EmailExact "ann@mail.365.com" := by
  refine ⟨fun h => ?_, fun h => ?_⟩
  · have hcount := (h.2 (by decide)).2
    exact absurd hcount (by decide)
  · have haddress : IsAddress "ann@mail.365.com" :=
      ⟨"ann".toList, ["mail".toList, "365".toList], "com".toList, by decide, by decide, by decide,
        by decide, by decide⟩
    exact absurd (h.1.mpr haddress) (by decide)

end FlutterThree
