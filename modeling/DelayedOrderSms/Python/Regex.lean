import DelayedOrderSms.Python.Json

/-!
# `re.match`

The part of the regular expression syntax that anchored patterns with named groups need, and the
backtracking matcher on it.  `run` lists every way to match a prefix, in the order in which a
backtracking matcher would try them; `exec` takes the first.

`Matches` says what a pattern matches without an order.  The two are the same thing:

* `mem_run_iff` — the matcher finds the matches, and no others.
* `exec_eq_none_iff`, `exec_eq_some_of_forall` — what `re.match` returns, from the matches alone.
-/

namespace Python

/-- The text captured by each named group. -/
abbrev Groups := Dict String (List Char)

/-- A pattern. -/
inductive Regex where
  /-- a literal text -/
  | lit (text : List Char)
  /-- one character of a class -/
  | set (p : Char → Bool)
  /-- a class followed by `+` -/
  | plus (p : Char → Bool)
  | seq (r₁ r₂ : Regex)
  | alt (r₁ r₂ : Regex)
  /-- `?` -/
  | opt (r : Regex)
  /-- `(?P<name>..)` -/
  | group (name : String) (r : Regex)
  /-- `$`: the end, or a line feed at the end -/
  | eos

/-- One way to match a prefix: what is consumed, what is left, and the groups. -/
structure Parse where
  consumed : List Char
  rest : List Char
  groups : Groups

namespace Regex

/-- The ways a class followed by `+` can match, the longest first. -/
def runPlus (p : Char → Bool) : List Char → List Parse
  | [] => []
  | c :: cs =>
      if p c then (runPlus p cs).map (fun m => ⟨c :: m.consumed, m.rest, []⟩) ++ [⟨[c], cs, []⟩]
      else []

/-- The ways a pattern can match a prefix of `s`, in the order a matcher tries them. -/
def run (s : List Char) : Regex → List Parse
  | .lit text => if text.isPrefixOf s then [⟨text, s.drop text.length, []⟩] else []
  | .set p =>
      match s with
      | [] => []
      | c :: cs => if p c then [⟨[c], cs, []⟩] else []
  | .plus p => runPlus p s
  | .seq r₁ r₂ =>
      (run s r₁).flatMap fun m₁ =>
        (run m₁.rest r₂).map fun m₂ => ⟨m₁.consumed ++ m₂.consumed, m₂.rest, m₁.groups ++ m₂.groups⟩
  | .alt r₁ r₂ => run s r₁ ++ run s r₂
  | .opt r => run s r ++ [⟨[], s, []⟩]
  | .group name r => (run s r).map fun m => ⟨m.consumed, m.rest, (name, m.consumed) :: m.groups⟩
  | .eos => if s = [] ∨ s = ['\n'] then [⟨[], s, []⟩] else []

/-- `re.match`: the groups of the first way to match. -/
def exec (r : Regex) (s : List Char) : Option Groups := (run s r).head?.map Parse.groups

/-- The pattern matches `w` when `rest` follows, with these groups. -/
def Matches (w rest : List Char) (groups : Groups) : Regex → Prop
  | .lit text => w = text ∧ groups = []
  | .set p => (∃ c, p c ∧ w = [c]) ∧ groups = []
  | .plus p => (w ≠ [] ∧ ∀ c ∈ w, p c) ∧ groups = []
  | .seq r₁ r₂ => ∃ w₁ w₂ g₁ g₂, Matches w₁ (w₂ ++ rest) g₁ r₁ ∧ Matches w₂ rest g₂ r₂ ∧
      w = w₁ ++ w₂ ∧ groups = g₁ ++ g₂
  | .alt r₁ r₂ => Matches w rest groups r₁ ∨ Matches w rest groups r₂
  | .opt r => Matches w rest groups r ∨ w = [] ∧ groups = []
  | .group name r => ∃ g, Matches w rest g r ∧ groups = (name, w) :: g
  | .eos => w = [] ∧ (rest = [] ∨ rest = ['\n']) ∧ groups = []

lemma mem_runPlus_iff {p : Char → Bool} {s w rest : List Char} {g : Groups} :
    ⟨w, rest, g⟩ ∈ runPlus p s ↔ s = w ++ rest ∧ Matches w rest g (.plus p) := by
  induction s generalizing w g with
  | nil =>
      simp only [runPlus, Matches, List.not_mem_nil, false_iff]
      rintro ⟨hs, ⟨hne, _⟩, _⟩
      exact hne (List.append_eq_nil_iff.mp hs.symm).1
  | cons c cs ih =>
      by_cases hc : p c
      · simp only [runPlus, hc, if_true, List.mem_append, List.mem_map, List.mem_singleton,
          Parse.mk.injEq]
        constructor
        · rintro (⟨⟨w', rest', g'⟩, hm, rfl, rfl, rfl⟩ | ⟨rfl, rfl, rfl⟩)
          · obtain ⟨rfl, ⟨_, hw'⟩, _⟩ := ih.mp hm
            exact ⟨rfl, ⟨by simp, by simpa [hc] using hw'⟩, rfl⟩
          · exact ⟨rfl, ⟨by simp, by simpa using hc⟩, rfl⟩
        · rintro ⟨hs, ⟨hne, hw⟩, rfl⟩
          cases w with
          | nil => exact absurd rfl hne
          | cons c' w' =>
              obtain ⟨rfl, rfl⟩ := List.cons_eq_cons.mp hs
              cases w' with
              | nil => exact .inr ⟨rfl, rfl, rfl⟩
              | cons d w'' =>
                  refine .inl ⟨⟨d :: w'', rest, []⟩, ih.mpr ⟨rfl, ⟨by simp, ?_⟩, rfl⟩, rfl, rfl, rfl⟩
                  intro e he
                  exact hw e (List.mem_cons_of_mem _ he)
      · simp only [runPlus, hc, Bool.false_eq_true, if_false, List.not_mem_nil, false_iff]
        rintro ⟨hs, ⟨hne, hw⟩, _⟩
        cases w with
        | nil => exact hne rfl
        | cons c' w' =>
            obtain ⟨rfl, _⟩ := List.cons_eq_cons.mp hs
            exact hc (hw c (by simp))

section

variable {s w rest : List Char} {g : Groups}

lemma mem_run_lit_iff {text : List Char} :
    ⟨w, rest, g⟩ ∈ run s (.lit text) ↔ s = w ++ rest ∧ Matches w rest g (.lit text) := by
  simp only [run, Matches]
  split_ifs with h
  · obtain ⟨t, rfl⟩ := List.isPrefixOf_iff_prefix.mp h
    simp only [List.drop_left, List.mem_singleton, Parse.mk.injEq]
    constructor
    · rintro ⟨rfl, rfl, rfl⟩
      exact ⟨rfl, rfl, rfl⟩
    · rintro ⟨hs, rfl, rfl⟩
      exact ⟨rfl, (List.append_cancel_left hs).symm, rfl⟩
  · simp only [List.not_mem_nil, false_iff]
    rintro ⟨rfl, rfl, _⟩
    exact h (List.isPrefixOf_iff_prefix.mpr (List.prefix_append _ _))

lemma mem_run_set_iff {p : Char → Bool} :
    ⟨w, rest, g⟩ ∈ run s (.set p) ↔ s = w ++ rest ∧ Matches w rest g (.set p) := by
  cases s with
  | nil =>
      simp only [run, Matches, List.not_mem_nil, false_iff]
      rintro ⟨hs, ⟨c, _, rfl⟩, _⟩
      simp at hs
  | cons c cs =>
      simp only [run, Matches]
      split_ifs with hc
      · simp only [List.mem_singleton, Parse.mk.injEq]
        constructor
        · rintro ⟨rfl, rfl, rfl⟩
          exact ⟨rfl, ⟨c, hc, rfl⟩, rfl⟩
        · rintro ⟨hs, ⟨c', _, rfl⟩, rfl⟩
          obtain ⟨rfl, rfl⟩ := List.cons_eq_cons.mp hs
          exact ⟨rfl, rfl, rfl⟩
      · simp only [List.not_mem_nil, false_iff]
        rintro ⟨hs, ⟨c', hc', rfl⟩, _⟩
        obtain ⟨rfl, _⟩ := List.cons_eq_cons.mp hs
        exact hc hc'

lemma mem_run_eos_iff :
    ⟨w, rest, g⟩ ∈ run s .eos ↔ s = w ++ rest ∧ Matches w rest g .eos := by
  simp only [run, Matches]
  split_ifs with h
  · simp only [List.mem_singleton, Parse.mk.injEq]
    constructor
    · rintro ⟨rfl, rfl, rfl⟩
      exact ⟨rfl, rfl, h, rfl⟩
    · rintro ⟨rfl, rfl, _, rfl⟩
      exact ⟨rfl, rfl, rfl⟩
  · simp only [List.not_mem_nil, false_iff]
    rintro ⟨rfl, rfl, hrest, _⟩
    exact h hrest

end

/-- **The matcher finds the matches**, and no others. -/
theorem mem_run_iff {r : Regex} {s w rest : List Char} {g : Groups} :
    ⟨w, rest, g⟩ ∈ run s r ↔ s = w ++ rest ∧ Matches w rest g r := by
  induction r generalizing s w rest g with
  | lit text => exact mem_run_lit_iff
  | set p => exact mem_run_set_iff
  | plus p => exact mem_runPlus_iff
  | seq r₁ r₂ ih₁ ih₂ =>
      simp only [run, Matches, List.mem_flatMap, List.mem_map, Parse.mk.injEq]
      constructor
      · rintro ⟨⟨w₁, rest₁, g₁⟩, h₁, ⟨w₂, rest₂, g₂⟩, h₂, rfl, rfl, rfl⟩
        obtain ⟨rfl, hm₁⟩ := ih₁.mp h₁
        obtain ⟨rfl, hm₂⟩ := ih₂.mp h₂
        exact ⟨(List.append_assoc _ _ _).symm, w₁, w₂, g₁, g₂, hm₁, hm₂, rfl, rfl⟩
      · rintro ⟨rfl, w₁, w₂, g₁, g₂, hm₁, hm₂, rfl, rfl⟩
        exact ⟨⟨w₁, w₂ ++ rest, g₁⟩, ih₁.mpr ⟨List.append_assoc _ _ _, hm₁⟩,
          ⟨w₂, rest, g₂⟩, ih₂.mpr ⟨rfl, hm₂⟩, rfl, rfl, rfl⟩
  | alt r₁ r₂ ih₁ ih₂ =>
      simp only [run, Matches, List.mem_append, ih₁, ih₂]
      exact and_or_left.symm
  | opt r ih =>
      simp only [run, Matches, List.mem_append, ih, List.mem_singleton, Parse.mk.injEq]
      constructor
      · rintro (⟨rfl, hm⟩ | ⟨rfl, rfl, rfl⟩)
        · exact ⟨rfl, .inl hm⟩
        · exact ⟨rfl, .inr ⟨rfl, rfl⟩⟩
      · rintro ⟨rfl, hm | ⟨rfl, rfl⟩⟩
        · exact .inl ⟨rfl, hm⟩
        · exact .inr ⟨rfl, rfl, rfl⟩
  | group name r ih =>
      simp only [run, Matches, List.mem_map, Parse.mk.injEq]
      constructor
      · rintro ⟨⟨w', rest', g'⟩, hm, rfl, rfl, rfl⟩
        obtain ⟨rfl, hm'⟩ := ih.mp hm
        exact ⟨rfl, g', hm', rfl⟩
      · rintro ⟨rfl, g', hm', rfl⟩
        exact ⟨⟨w, rest, g'⟩, ih.mpr ⟨rfl, hm'⟩, rfl, rfl, rfl⟩
  | eos => exact mem_run_eos_iff

/-- A run of a class that something else follows has a definite end. -/
lemma append_inj_of_class {p : Char → Bool} {u u' t t' : List Char} (hu : ∀ c ∈ u, p c)
    (hu' : ∀ c ∈ u', p c) (ht : ∀ c ∈ t.head?, p c = false) (ht' : ∀ c ∈ t'.head?, p c = false)
    (h : u ++ t = u' ++ t') : u = u' ∧ t = t' := by
  have hstop : ∀ {s : List Char}, (∀ c ∈ s.head?, p c = false) → s.takeWhile p = [] := by
    intro s hs
    cases s with
    | nil => rfl
    | cons c cs => exact List.takeWhile_cons_of_neg (by simp [hs c rfl])
  have htake := congrArg (List.takeWhile p) h
  rw [List.takeWhile_append_of_pos hu, List.takeWhile_append_of_pos hu', hstop ht, hstop ht',
    List.append_nil, List.append_nil] at htake
  exact ⟨htake, List.append_cancel_left (htake ▸ h)⟩

/-- `re.match` fails where there is no match. -/
theorem exec_eq_none_iff {r : Regex} {s : List Char} :
    exec r s = none ↔ ∀ w rest g, s = w ++ rest → ¬Matches w rest g r := by
  rw [exec, Option.map_eq_none_iff, List.head?_eq_none_iff, List.eq_nil_iff_forall_not_mem]
  constructor
  · intro h w rest g hs hm
    exact h _ (mem_run_iff.mpr ⟨hs, hm⟩)
  · rintro h ⟨w, rest, g⟩ hm
    obtain ⟨hs, hm'⟩ := mem_run_iff.mp hm
    exact h w rest g hs hm'

/-- `re.match` returns the groups of a match; where all matches have the same groups, these. -/
theorem exec_eq_some_of_forall {r : Regex} {s w rest : List Char} {g : Groups}
    (hs : s = w ++ rest) (hm : Matches w rest g r)
    (hunique : ∀ w' rest' g', s = w' ++ rest' → Matches w' rest' g' r → g' = g) :
    exec r s = some g := by
  cases hrun : run s r with
  | nil =>
      have hmem := mem_run_iff.mpr ⟨hs, hm⟩
      simp [hrun] at hmem
  | cons m ms =>
      obtain ⟨w', rest', g'⟩ := m
      have hmem : ⟨w', rest', g'⟩ ∈ run s r := hrun ▸ List.mem_cons_self
      obtain ⟨hs', hm'⟩ := mem_run_iff.mp hmem
      simp [exec, hrun, hunique w' rest' g' hs' hm']

end Regex

end Python
