/-! # Texts

A text is a list of code points. A code point is a character or half of a surrogate pair: an escape
in a document can spell such a half without its partner, and the text then keeps it as it is. Texts
are ordered by the codes of their code points.
-/

namespace SystemAtlas

/-- Half of a surrogate pair, which is no character by itself. -/
@[ext]
structure Surrogate where
  code : Nat
  isHalf : 0xD800 ≤ code ∧ code < 0xE000
  deriving DecidableEq

/-- A code point: a character, or half of a surrogate pair that stands alone. -/
inductive CodePoint where
  | char (c : Char)
  | lone (half : Surrogate)
  deriving Inhabited

namespace CodePoint

/-- The number of a code point. -/
def code : CodePoint → Nat
  | char c => c.toNat
  | lone half => half.code

/-- The code point with the given number. -/
def ofCode (n : Nat) : CodePoint :=
  if h : 0xD800 ≤ n ∧ n < 0xE000 then lone ⟨n, h⟩ else char (Char.ofNat n)

/-- A code point is the one with its number. -/
theorem ofCode_code (p : CodePoint) : ofCode p.code = p := by
  cases p with
  | lone half => simp [code, ofCode, half.isHalf]
  | char c =>
    have h : ¬(0xD800 ≤ c.toNat ∧ c.toNat < 0xE000) := by
      have := c.valid
      simp only [UInt32.isValidChar, Nat.isValidChar] at this
      simp only [Char.toNat]
      omega
    simp [code, ofCode, h]

theorem code_injective {p q : CodePoint} (h : p.code = q.code) : p = q := by
  rw [← ofCode_code p, h, ofCode_code]

/-- Whether two code points are the same. -/
def same : CodePoint → CodePoint → Bool
  | char c, char d => c == d
  | lone half, lone other => half.code == other.code
  | _, _ => false

theorem same_iff {p q : CodePoint} : same p q = true ↔ p = q := by
  cases p <;> cases q <;> simp [same, Surrogate.ext_iff]

instance : DecidableEq CodePoint := fun _ _ => decidable_of_iff _ same_iff

/-- The character that a code point is. -/
def char? : CodePoint → Option Char
  | char c => some c
  | lone _ => none

/-- Whether a code point is a character with the given property. -/
def satisfies (p : Char → Bool) (x : CodePoint) : Bool := x.char?.any p

/-- Whether a code point is the given character. -/
def is (c : Char) (x : CodePoint) : Bool := x == char c

/-- A code point with another character, if it is one. -/
def map (f : Char → Char) : CodePoint → CodePoint
  | char c => char (f c)
  | lone half => lone half

instance : Coe Char CodePoint := ⟨char⟩

end CodePoint

/-- A text. -/
@[ext]
structure Text where
  points : List CodePoint

namespace Text

/-- Whether two lists of code points are the same. -/
def samePoints : List CodePoint → List CodePoint → Bool
  | [], [] => true
  | p :: ps, q :: qs => p.same q && samePoints ps qs
  | _, _ => false

theorem samePoints_iff {ps qs : List CodePoint} : samePoints ps qs = true ↔ ps = qs := by
  induction ps generalizing qs with
  | nil => cases qs <;> simp [samePoints]
  | cons p ps ih => cases qs <;> simp [samePoints, CodePoint.same_iff, ih]

instance : DecidableEq Text := fun s t =>
  decidable_of_iff (samePoints s.points t.points = true) (samePoints_iff.trans Text.ext_iff.symm)

/-- The text of some characters. -/
def ofChars (cs : List Char) : Text := ⟨cs.map .char⟩

/-- The text of a string. -/
@[coe] def ofString (s : String) : Text := ofChars s.toList

instance : Coe String Text := ⟨ofString⟩

instance : Inhabited Text := ⟨⟨[]⟩⟩

instance : Append Text := ⟨fun s t => ⟨s.points ++ t.points⟩⟩

/-- Whether a text has no code points. -/
def isEmpty (s : Text) : Bool := s.points.isEmpty

/-- Texts one after another, with a separator between every two of them. -/
def intercalate (separator : Text) (texts : List Text) : Text :=
  ⟨separator.points.intercalate (texts.map (·.points))⟩

/-- Whether a text starts with the code points of another. -/
def startsWith (s start : Text) : Bool := start.points.isPrefixOf s.points

/-- The pieces between the characters `c` of a text; there is always at least one. -/
def pieces (c : Char) (s : Text) : List Text := (s.points.splitOn (.char c)).map .mk

/-- The names of a dotted path. -/
def dotted (s : Text) : List Text := s.pieces '.'

/-! ## Order -/

/-- Increasing order of code points: by the first two that differ, or else by length. -/
def lePoints : List CodePoint → List CodePoint → Bool
  | [], _ => true
  | _ :: _, [] => false
  | p :: ps, q :: qs => p.code < q.code || (p.same q && lePoints ps qs)

/-- Increasing order of texts. -/
def le (s t : Text) : Bool := lePoints s.points t.points

theorem le_total (s t : Text) : s.le t || t.le s := by
  have total : ∀ ps qs, lePoints ps qs || lePoints qs ps := by
    intro ps qs
    fun_induction lePoints ps qs with
    | case1 => rfl
    | case2 => rfl
    | case3 p ps q qs ih =>
      by_cases h : p = q
      · subst h
        simpa [lePoints, CodePoint.same_iff.2] using ih
      · have : p.code ≠ q.code := fun e => h (CodePoint.code_injective e)
        simp only [lePoints, Bool.or_eq_true, decide_eq_true_eq]
        omega
  exact total s.points t.points

theorem le_trans {s t u : Text} (h : s.le t) (h' : t.le u) : s.le u := by
  have trans : ∀ ps qs rs, lePoints ps qs → lePoints qs rs → lePoints ps rs := by
    intro ps qs
    fun_induction lePoints ps qs with
    | case1 => simp [lePoints]
    | case2 => simp
    | case3 p ps q qs ih =>
      intro rs h h'
      cases rs with
      | nil => simp [lePoints] at h'
      | cons r rs =>
        simp only [lePoints, Bool.or_eq_true, Bool.and_eq_true, decide_eq_true_eq,
          CodePoint.same_iff] at h h' ⊢
        rcases h with h | ⟨rfl, h⟩
        · rcases h' with h' | ⟨rfl, -⟩
          · exact .inl (Nat.lt_trans h h')
          · exact .inl h
        · rcases h' with h' | ⟨rfl, h'⟩
          · exact .inl h'
          · exact .inr ⟨rfl, ih rs h h'⟩
  exact trans _ _ _ h h'

theorem le_antisymm {s t : Text} (h : s.le t) (h' : t.le s) : s = t := by
  have antisymm : ∀ ps qs, lePoints ps qs → lePoints qs ps → ps = qs := by
    intro ps qs
    fun_induction lePoints ps qs with
    | case1 qs => cases qs <;> simp [lePoints]
    | case2 => simp
    | case3 p ps q qs ih =>
      simp only [lePoints, Bool.or_eq_true, Bool.and_eq_true, decide_eq_true_eq,
        CodePoint.same_iff]
      rintro (h | ⟨rfl, h⟩) (h' | ⟨e, h'⟩)
      · omega
      · subst e; omega
      · omega
      · rw [ih h h']
  exact Text.ext (antisymm _ _ h h')

/-! ## Numbers and characters -/

/-- A whole number in decimal digits. -/
def ofInt (i : Int) : Text := toString i

/-- A natural number in decimal digits. -/
def ofNat (n : Nat) : Text := toString n

/-- The characters of a text that has nothing but characters. -/
def chars? (s : Text) : Option (List Char) := s.points.mapM CodePoint.char?

theorem chars?_ofChars (cs : List Char) : (ofChars cs).chars? = some cs := by
  induction cs with
  | nil => rfl
  | cons c cs ih =>
    simp only [chars?, ofChars] at ih ⊢
    simp [CodePoint.char?, ih]

end Text

end SystemAtlas
