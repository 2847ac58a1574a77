import Mathlib.Data.List.Basic
import Mathlib.Algebra.Group.Int.Defs
import Mathlib.Tactic.Lemma

/-!
# Exceptions and `int(str)`

What `int` makes of a string: white space around it, a sign, and decimal digits with single
underscores between them.  A decimal digit is any character of the Unicode category `Nd`, the
class `\d` of a regular expression on strings.

* `bind_eq_ok_iff`, `map_eq_ok_iff` — a computation returns if its steps do.
* `intOfStr_digits` — a string of digits alone is its value, unless it has more digits than the
  interpreter converts.
-/

namespace Python

/-- The built-in exception classes that can be raised here. -/
inductive ExceptionType where
  | typeError
  | valueError
  | overflowError
  | attributeError
  | keyError
  | indexError
  deriving DecidableEq, Repr

/-- An exception: its class, and its text where a `raise` statement of the program gives one. -/
structure Exception where
  type : ExceptionType
  text : Option String := none
  deriving DecidableEq, Repr

section

variable {α β : Type} {x : Except Exception α} {b : β}

@[simp] lemma ok_bind (a : α) (f : α → Except Exception β) : (Except.ok a >>= f) = f a := rfl

@[simp] lemma error_bind (e : Exception) (f : α → Except Exception β) :
    (Except.error e >>= f) = .error e := rfl

lemma bind_eq_ok_iff {f : α → Except Exception β} :
    (x >>= f) = .ok b ↔ ∃ a, x = .ok a ∧ f a = .ok b := by
  cases x with
  | error e =>
      constructor
      · intro h
        cases h
      · rintro ⟨a, h, _⟩
        cases h
  | ok a =>
      constructor
      · intro h
        exact ⟨a, rfl, h⟩
      · rintro ⟨a', h, hf⟩
        cases h
        exact hf

lemma map_eq_ok_iff {f : α → β} : f <$> x = .ok b ↔ ∃ a, x = .ok a ∧ f a = b := by
  rw [map_eq_pure_bind, bind_eq_ok_iff]
  simp [pure, Except.pure]

/-- What every pass of a loop keeps. -/
lemma foldlM_invariant {step : β → α → Except Exception β} {P : β → Prop}
    (keep : ∀ b a b', P b → step b a = .ok b' → P b') {l : List α} {b b' : β} (hb : P b)
    (h : l.foldlM step b = .ok b') : P b' := by
  induction l generalizing b with
  | nil =>
      cases h
      exact hb
  | cons a rest ih =>
      rw [List.foldlM_cons] at h
      obtain ⟨b₁, hstep, h⟩ := bind_eq_ok_iff.mp h
      exact ih (keep b a b₁ hb hstep) h

end

/-- The code point of the zero of each run of ten decimal digits (Unicode 14). -/
def decimalZeros : List ℕ :=
  [0x30, 0x660, 0x6f0, 0x7c0, 0x966, 0x9e6, 0xa66, 0xae6, 0xb66, 0xbe6, 0xc66, 0xce6, 0xd66,
    0xde6, 0xe50, 0xed0, 0xf20, 0x1040, 0x1090, 0x17e0, 0x1810, 0x1946, 0x19d0, 0x1a80, 0x1a90,
    0x1b50, 0x1bb0, 0x1c40, 0x1c50, 0xa620, 0xa8d0, 0xa900, 0xa9d0, 0xa9f0, 0xaa50, 0xabf0,
    0xff10, 0x104a0, 0x10d30, 0x11066, 0x110f0, 0x11136, 0x111d0, 0x112f0, 0x11450, 0x114d0,
    0x11650, 0x116c0, 0x11730, 0x118e0, 0x11950, 0x11c50, 0x11d50, 0x11da0, 0x16a60, 0x16ac0,
    0x16b50, 0x1d7ce, 0x1d7d8, 0x1d7e2, 0x1d7ec, 0x1d7f6, 0x1e140, 0x1e2f0, 0x1e950, 0x1fbf0]

/-- The value of a decimal digit. -/
def digit? (c : Char) : Option ℕ :=
  (decimalZeros.find? fun z => z ≤ c.toNat ∧ c.toNat < z + 10).map (c.toNat - ·)

/-- A character that `\d` matches. -/
def isDigit (c : Char) : Bool := (digit? c).isSome

/-- The white space `int` strips: of the ASCII characters only those of C's `isspace`. -/
def intSpaces : List ℕ :=
  [0x09, 0x0a, 0x0b, 0x0c, 0x0d, 0x20, 0x85, 0xa0, 0x1680, 0x2000, 0x2001, 0x2002, 0x2003,
    0x2004, 0x2005, 0x2006, 0x2007, 0x2008, 0x2009, 0x200a, 0x2028, 0x2029, 0x202f, 0x205f,
    0x3000]

def isIntSpace (c : Char) : Bool := c.toNat ∈ intSpaces

/-- The digits of an integer literal, single underscores between them.  `ready` says that a digit
has just been read, so that an underscore or the end may follow. -/
def literalDigits (ready : Bool) : List Char → Option (List ℕ)
  | [] => if ready then some [] else none
  | c :: cs =>
      if c = '_' then if ready then literalDigits false cs else none
      else match digit? c with
        | some d => (literalDigits true cs).map (d :: ·)
        | none => none

/-- The number that decimal digits write. -/
def ofDigits (digits : List ℕ) : ℕ := digits.foldl (fun n d => 10 * n + d) 0

/-- The interpreter does not convert more decimal digits than this. -/
def maxStrDigits : ℕ := 4300

/-- A literal without its sign. -/
def unsignedOfStr (s : List Char) : Except Exception ℕ :=
  match literalDigits false s with
  | none => .error { type := .valueError }
  | some digits =>
      if maxStrDigits < digits.length then .error { type := .valueError }
      else .ok (ofDigits digits)

/-- `int(s)` of a string. -/
def intOfStr (s : List Char) : Except Exception ℤ :=
  let stripped := ((s.dropWhile isIntSpace).reverse.dropWhile isIntSpace).reverse
  match stripped with
  | '+' :: rest => (unsignedOfStr rest).map fun n => (n : ℤ)
  | '-' :: rest => (unsignedOfStr rest).map fun n => -(n : ℤ)
  | rest => (unsignedOfStr rest).map fun n => (n : ℤ)

example : intOfStr "\n -1_0 ".toList = .ok (-10) := by decide

/-- The number a string of decimal digits writes. -/
def digitsValue (s : List Char) : ℕ := ofDigits (s.filterMap digit?)

/-- A decimal digit is neither stripped nor part of the notation around the digits. -/
lemma digit?_eq_none {c : Char} (h : isIntSpace c ∨ c = '_' ∨ c = '+' ∨ c = '-') :
    digit? c = none := by
  have hspaces : ∀ n ∈ intSpaces ++ ['_'.toNat, '+'.toNat, '-'.toNat], ∀ z ∈ decimalZeros,
      ¬(z ≤ n ∧ n < z + 10) := by decide +kernel
  have hmem : c.toNat ∈ intSpaces ++ ['_'.toNat, '+'.toNat, '-'.toNat] := by
    rcases h with h | rfl | rfl | rfl
    · exact List.mem_append_left _ (by simpa [isIntSpace] using h)
    · simp
    · simp
    · simp
  rw [digit?, Option.map_eq_none_iff, List.find?_eq_none]
  intro z hz
  simpa using hspaces _ hmem z hz

lemma literalDigits_of_digits {s : List Char} (h : ∀ c ∈ s, isDigit c) {ready : Bool}
    (hs : ready = true ∨ s ≠ []) : literalDigits ready s = some (s.filterMap digit?) := by
  induction s generalizing ready with
  | nil =>
      obtain rfl : ready = true := hs.resolve_right (by simp)
      rfl
  | cons c cs ih =>
      obtain ⟨d, hd⟩ := Option.isSome_iff_exists.mp (h c (by simp))
      have hc : c ≠ '_' := fun heq => by simp [digit?_eq_none (.inr (.inl heq))] at hd
      have hcs : literalDigits true cs = some (cs.filterMap digit?) :=
        ih (fun c' hc' => h c' (by simp [hc'])) (.inl rfl)
      simp [literalDigits, hc, hd, hcs]

lemma unsignedOfStr_digits {s : List Char} (h : ∀ c ∈ s, isDigit c) (hs : s ≠ []) :
    unsignedOfStr s = if maxStrDigits < s.length then .error { type := .valueError }
      else .ok (digitsValue s) := by
  have hlength : (s.filterMap digit?).length = s.length := by
    rw [List.length_filterMap_eq_countP, List.countP_eq_length]
    exact h
  rw [unsignedOfStr, literalDigits_of_digits h (.inr hs)]
  simp [hlength, digitsValue]

lemma dropWhile_eq_self {p : Char → Bool} {s : List Char} (h : ∀ c ∈ s, p c = false) :
    s.dropWhile p = s := by
  cases s with
  | nil => rfl
  | cons c cs => exact List.dropWhile_cons_of_neg (by simp [h c])

/-- **`int` of decimal digits** is the number they write; it raises if they are too many. -/
theorem intOfStr_digits {s : List Char} (h : ∀ c ∈ s, isDigit c) (hs : s ≠ []) :
    intOfStr s = if maxStrDigits < s.length then .error { type := .valueError }
      else .ok (digitsValue s : ℤ) := by
  have hspace : ∀ c ∈ s, isIntSpace c = false := by
    intro c hc
    by_contra hne
    have hdigit := h c hc
    simp [isDigit, digit?_eq_none (.inl (by simpa using hne))] at hdigit
  have hsign : ∀ c ∈ s, c ≠ '+' ∧ c ≠ '-' := by
    intro c hc
    have hdigit := h c hc
    constructor
    · rintro rfl
      simp [isDigit, digit?_eq_none] at hdigit
    · rintro rfl
      simp [isDigit, digit?_eq_none] at hdigit
  have hstrip : ((s.dropWhile isIntSpace).reverse.dropWhile isIntSpace).reverse = s := by
    rw [dropWhile_eq_self hspace, dropWhile_eq_self (by simpa using hspace), List.reverse_reverse]
  cases s with
  | nil => exact absurd rfl hs
  | cons c cs =>
      obtain ⟨hplus, hminus⟩ := hsign c (by simp)
      have hvalue := unsignedOfStr_digits h hs
      simp only [intOfStr, hstrip]
      split
      · simp_all
      · simp_all
      · rw [hvalue]
        split_ifs
        · rfl
        · rfl

end Python
