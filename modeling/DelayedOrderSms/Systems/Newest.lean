import Mathlib.Data.List.Induction
import Mathlib.Data.List.Perm.Basic
import Mathlib.Order.Lattice
import Mathlib.Tactic.Lemma

/-!
# The newest arrival

A register that keeps, of the values that arrive, one with the largest version; among values of
the same version the last arrival wins.  `newer` is one arrival, `newest` a list of them.

* `newest_spec` — what is kept in the end is the last arrival of the largest version.
* `newest_mono` — the version of what is kept never decreases.
* `newest_perm` — if no two arrivals have the same version, their order does not matter.
* `EverNewest` — what is kept after one of the arrivals has some property.
* `newest_of_sublist_iff` — when it does not matter which arrivals are left out.
* `newest_congr`, `everNewest_congr` — arrivals that correspond, in their versions, too, have what
  is kept of them correspond.
-/

namespace Systems

variable {α β : Type} [LinearOrder β] (version : α → β)

/-- What is kept when `a` arrives: `a` itself, unless what is known is of a larger version. -/
def newer (known : Option α) (a : α) : α :=
  match known with
  | none => a
  | some b => if version a < version b then b else a

/-- What is kept in the end when the values `as` arrive. -/
def newest (known : Option α) (as : List α) : Option α :=
  as.foldl (fun known a => some (newer version known a)) known

/-- An arrival that is not older is kept. -/
lemma newer_of_le {known : Option α} {a : α} (h : ∀ b ∈ known, ¬ version a < version b) :
    newer version known a = a := by
  cases known with
  | none => rfl
  | some b => exact if_neg (h b rfl)

/-- An arrival that is older is not. -/
lemma newer_of_lt {a b : α} (h : version a < version b) : newer version (some b) a = b := if_pos h

@[simp] lemma newest_nil (known : Option α) : newest version known [] = known := rfl

@[simp] lemma newest_concat (known : Option α) (as : List α) (a : α) :
    newest version known (as ++ [a]) = some (newer version (newest version known as) a) := by
  simp [newest]

/-- One more arrival never lowers the version. -/
lemma le_newer {known : Option α} {a b : α} (h : b ∈ known) :
    version b ≤ version (newer version known a) := by
  obtain rfl := Option.mem_def.mp h
  rcases lt_or_ge (version a) (version b) with hlt | hle
  · rw [newer_of_lt version hlt]
  · rwa [newer_of_le version (by simpa using hle)]

/-- `a` is the last of the values of the largest version. -/
def LastOfNewest (as : List α) (a : α) : Prop :=
  ∃ pre post, as = pre ++ a :: post ∧ (∀ b ∈ pre, version b ≤ version a) ∧
    ∀ b ∈ post, version b < version a

/-- **What is kept** of a list of arrivals: nothing of none, and otherwise the last one of the
largest version. -/
theorem newest_spec (as : List α) :
    (newest version none as = none ↔ as = []) ∧
      ∀ a ∈ newest version none as, LastOfNewest version as a := by
  induction as using List.reverseRecOn with
  | nil => simp
  | append_singleton as b ih =>
      refine ⟨by simp, fun a ha => ?_⟩
      rw [newest_concat, Option.mem_some_iff] at ha
      cases hk : newest version none as with
      | none =>
          obtain rfl := ih.1.mp hk
          rw [hk] at ha
          exact ⟨[], [], by simpa [newer] using ha, by simp, by simp⟩
      | some c =>
          obtain ⟨pre, post, rfl, hpre, hpost⟩ := ih.2 c hk
          rw [hk] at ha
          rcases lt_or_ge (version b) (version c) with hlt | hle
          · -- `b` is older: `c` stays, with one more value after it.
            rw [newer_of_lt version hlt] at ha
            subst ha
            refine ⟨pre, post ++ [b], by simp, hpre, ?_⟩
            simpa [or_imp, forall_and, hlt] using hpost
          · -- `b` takes its place: everything before it is at most as new.
            rw [newer_of_le version (by simpa using hle)] at ha
            subst ha
            refine ⟨pre ++ c :: post, [], by simp, ?_, by simp⟩
            intro d hd
            rcases List.mem_append.mp hd with hd | hd
            · exact le_trans (hpre d hd) hle
            · rcases List.mem_cons.mp hd with rfl | hd
              · exact hle
              · exact le_trans (le_of_lt (hpost d hd)) hle

/-- **The version of what is kept never decreases.** -/
theorem newest_mono {known : Option α} {as bs : List α} {a : α} (h : a ∈ newest version known as) :
    ∃ b ∈ newest version known (as ++ bs), version a ≤ version b := by
  induction bs using List.reverseRecOn with
  | nil => exact ⟨a, by simpa using h, le_refl _⟩
  | append_singleton bs c ih =>
      obtain ⟨b, hb, hle⟩ := ih
      rw [← List.append_assoc, newest_concat]
      exact ⟨_, rfl, le_trans hle (le_newer version hb)⟩

/-- What is kept is among the arrivals. -/
lemma mem_of_mem_newest {as : List α} {a : α} (h : a ∈ newest version none as) : a ∈ as := by
  obtain ⟨pre, post, rfl, _, _⟩ := (newest_spec version as).2 a h
  simp

/-- What is kept has the largest version. -/
lemma le_of_mem_newest {as : List α} {a b : α} (h : a ∈ newest version none as) (hb : b ∈ as) :
    version b ≤ version a := by
  obtain ⟨pre, post, rfl, hpre, hpost⟩ := (newest_spec version as).2 a h
  rcases List.mem_append.mp hb with hb | hb
  · exact hpre b hb
  · rcases List.mem_cons.mp hb with rfl | hb
    · exact le_refl _
    · exact le_of_lt (hpost b hb)

/-- **The order of arrival does not matter** when different values have different versions. -/
theorem newest_perm {as bs : List α} (h : as.Perm bs)
    (hinj : ∀ a ∈ as, ∀ b ∈ as, version a = version b → a = b) :
    newest version none as = newest version none bs := by
  cases ha : newest version none as with
  | none =>
      obtain rfl := (newest_spec version as).1.mp ha
      rw [List.nil_perm.mp h, newest_nil]
  | some a =>
      cases hb : newest version none bs with
      | none =>
          obtain rfl := (newest_spec version bs).1.mp hb
          rw [List.perm_nil.mp h, newest_nil] at ha
          exact absurd ha (by simp)
      | some b =>
          have hamem : a ∈ as := mem_of_mem_newest version ha
          have hbmem : b ∈ as := h.mem_iff.mpr (mem_of_mem_newest version hb)
          have hab : version a ≤ version b := le_of_mem_newest version hb (h.mem_iff.mp hamem)
          have hba : version b ≤ version a := le_of_mem_newest version ha hbmem
          rw [hinj a hamem b hbmem (le_antisymm hab hba)]

/-! ## What has been kept at some time -/

/-- After one of the arrivals, what is kept satisfies `P`. -/
def EverNewest (P : α → Prop) : Option α → List α → Prop
  | _, [] => False
  | known, a :: rest => P (newer version known a) ∨ EverNewest P (some (newer version known a)) rest

instance decidableEverNewest (P : α → Prop) [DecidablePred P] :
    ∀ (known : Option α) (as : List α), Decidable (EverNewest version P known as)
  | _, [] => inferInstanceAs (Decidable False)
  | known, a :: rest =>
      have := decidableEverNewest P (some (newer version known a)) rest
      inferInstanceAs (Decidable (_ ∨ _))

/-- **One more arrival.** -/
lemma everNewest_concat {P : α → Prop} {known : Option α} {as : List α} {a : α} :
    EverNewest version P known (as ++ [a]) ↔
      EverNewest version P known as ∨ P (newer version (newest version known as) a) := by
  induction as generalizing known with
  | nil => simp [EverNewest]
  | cons b rest ih =>
      rw [List.cons_append, EverNewest, EverNewest, ih, or_assoc]
      rfl

/-- What is kept of some arrivals has been kept at some time. -/
lemma everNewest_of_newest {P : α → Prop} {as : List α} {a : α} (h : a ∈ newest version none as)
    (ha : P a) : EverNewest version P none as := by
  induction as using List.reverseRecOn with
  | nil => exact absurd h (by simp)
  | append_singleton as b _ =>
      rw [newest_concat, Option.mem_some_iff] at h
      exact everNewest_concat version |>.mpr (.inr (h ▸ ha))

/-! ## Arrivals that are left out -/

/-- Arrivals without one that is older than what was before it: the last is kept. -/
lemma newest_of_le {as : List α} {a : α} (h : ∀ b ∈ as, version b ≤ version a) :
    newest version none (as ++ [a]) = some a := by
  rw [newest_concat, newer_of_le version fun b hb => not_lt.mpr (h b (mem_of_mem_newest version hb))]

/-- What is kept at some time is among the arrivals. -/
lemma exists_mem_of_everNewest {P : α → Prop} {as : List α} (h : EverNewest version P none as) :
    ∃ a ∈ as, P a := by
  induction as using List.reverseRecOn with
  | nil => exact h.elim
  | append_singleton as a ih =>
      rcases (everNewest_concat version).mp h with h | h
      · obtain ⟨b, hb, hP⟩ := ih h
        exact ⟨b, List.mem_append_left _ hb, hP⟩
      · exact ⟨_, mem_of_mem_newest version (by rw [newest_concat]; rfl), h⟩

/-- **Leaving out arrivals other than the last** never changes what is kept in the end exactly if
that is the last one.  The arrivals are what `f` reads of some messages. -/
theorem newest_of_sublist_iff {M : Type} {f : M → Option α} {ms : List M} :
    (∀ ms' : List M, ms'.Sublist ms → ms'.getLast? = ms.getLast? →
        newest version none (ms'.filterMap f) = newest version none (ms.filterMap f)) ↔
      newest version none (ms.filterMap f) = ms.getLast?.bind f := by
  rcases List.eq_nil_or_concat' ms with rfl | ⟨init, m, rfl⟩
  · simp
  rw [List.getLast?_concat, Option.bind_some]
  constructor
  · intro h
    rw [← h [m] (List.sublist_append_right init [m]) rfl]
    cases hm : f m <;> simp [hm, newest, newer]
  · intro h ms' hsub hlast
    rcases List.eq_nil_or_concat' ms' with rfl | ⟨init', m', rfl⟩
    · cases hlast
    rw [List.getLast?_concat, Option.some.injEq] at hlast
    subst hlast
    rw [h]
    cases hm : f m' with
    | none =>
        rw [hm] at h
        have hnil := (newest_spec version _).1.mp h
        exact (newest_spec version _).1.mpr (List.sublist_nil.mp (hnil ▸ hsub.filterMap f))
    | some a =>
        rw [hm] at h
        have hcons : (init' ++ [m']).filterMap f = init'.filterMap f ++ [a] := by simp [hm]
        rw [hcons]
        refine newest_of_le version fun b hb => le_of_mem_newest version h ?_
        exact (hsub.filterMap f).subset (hcons ▸ List.mem_append_left _ hb)

/-! ## Arrivals that correspond -/

section Congr

variable {γ δ : Type} [LinearOrder δ] {version' : γ → δ} {R : α → γ → Prop}
  (hversion : ∀ a c b d, R a c → R b d → (version a < version b ↔ version' c < version' d))
include hversion

/-- Of arrivals that correspond, what is kept corresponds. -/
lemma newer_congr {known : Option α} {known' : Option γ} (hknown : Option.Rel R known known') {a : α}
    {c : γ} (h : R a c) : R (newer version known a) (newer version' known' c) := by
  cases hknown with
  | none => exact h
  | some hb =>
      simp only [newer, hversion _ _ _ _ h hb]
      split_ifs
      · exact hb
      · exact h

lemma newest_congr {as : List α} {cs : List γ} (h : List.Forall₂ R as cs) {known : Option α}
    {known' : Option γ} (hknown : Option.Rel R known known') :
    Option.Rel R (newest version known as) (newest version' known' cs) := by
  induction h generalizing known known' with
  | nil => exact hknown
  | cons hac _ ih => exact ih (.some (newer_congr version hversion hknown hac))

/-- **What has been kept at some time corresponds**, too. -/
theorem everNewest_congr {P : α → Prop} {P' : γ → Prop} (hP : ∀ a c, R a c → (P a ↔ P' c))
    {as : List α} {cs : List γ} (h : List.Forall₂ R as cs) {known : Option α} {known' : Option γ}
    (hknown : Option.Rel R known known') :
    EverNewest version P known as ↔ EverNewest version' P' known' cs := by
  induction h generalizing known known' with
  | nil => exact Iff.rfl
  | cons hac _ ih =>
      have hkept := newer_congr version hversion hknown hac
      exact or_congr (hP _ _ hkept) (ih (.some hkept))

end Congr

end Systems
