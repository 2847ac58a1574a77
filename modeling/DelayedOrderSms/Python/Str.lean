import Mathlib.Data.List.Basic
import Mathlib.Tactic.Lemma

/-!
# Strings

`str.replace` replaces every occurrence of a pattern, from the left and without overlaps, and
`str.splitlines` breaks a text at more characters than the newline.

* `replaceChars_cons` — what is replaced at the front, and what is kept.
-/

namespace Python

/-- `replace` on characters, for a pattern that is not empty.  The first `skip` characters are the
rest of an occurrence that has been replaced. -/
def replaceChars (old new : List Char) (skip : ℕ) : List Char → List Char
  | [] => []
  | c :: cs =>
      match skip with
      | skip + 1 => replaceChars old new skip cs
      | 0 =>
          if old.isPrefixOf (c :: cs) then new ++ replaceChars old new (old.length - 1) cs
          else c :: replaceChars old new 0 cs

/-- `s.replace(old, new)`, for a pattern that is not empty. -/
def replace (s old new : String) : String :=
  String.ofList (replaceChars old.toList new.toList 0 s.toList)

example : replace "2026-05-12T19:30:00+00:00" "+00:00" "Z" = "2026-05-12T19:30:00Z" := by decide

/-- A character that starts no occurrence is kept. -/
lemma replaceChars_cons {old new cs : List Char} {c : Char} (h : ¬old <+: c :: cs) :
    replaceChars old new 0 (c :: cs) = c :: replaceChars old new 0 cs := by
  rw [replaceChars, if_neg (by rwa [List.isPrefixOf_iff_prefix])]

/-- A text without the first character of the pattern is kept. -/
lemma replaceChars_append {p : Char} {ps new cs rest : List Char} (h : ∀ c ∈ cs, c ≠ p) :
    replaceChars (p :: ps) new 0 (cs ++ rest) = cs ++ replaceChars (p :: ps) new 0 rest := by
  induction cs with
  | nil => rfl
  | cons c cs ih =>
      have hc : ¬p :: ps <+: c :: (cs ++ rest) := by
        rw [List.cons_prefix_cons]
        exact fun h' => h c List.mem_cons_self h'.1.symm
      rw [List.cons_append, replaceChars_cons hc, ih fun c' hc' => h c' (List.mem_cons_of_mem _ hc')]
      rfl

/-- `str.splitlines` ends a line at the character. -/
def isLineBreak (c : Char) : Bool :=
  c ∈ ['\n', '\r', '\x0b', '\x0c', '\x1c', '\x1d', '\x1e', '\u0085', '\u2028', '\u2029']

end Python
