import DelayedOrderSms.Systems.Embedding

/-!
# Two systems in lockstep

Comparing the runs of two systems on the same inputs: `Lockstep` takes one step of each on every
label and tags the outputs with the side they come from.  A run of `Lockstep` is a run of the one
system next to the run of the other with the same labels.

* `lefts`, `rights` — the outputs of the two sides.
* `lockstep_sublist` — if every step keeps a relation of the states, and what it puts out on the
  left is among what it puts out on the right, then so it is for whole runs.
* `Lockstep.embeds` — both sides can be rewritten through embeddings.
-/

namespace Systems

variable {σ τ σ' τ' ι ο ω : Type}

/-- One step of both systems on the same label. -/
inductive Lockstep (step₁ : σ → ι → List ο → σ → Prop) (step₂ : τ → ι → List ο → τ → Prop) :
    σ × τ → ι → List (ο ⊕ ο) → σ × τ → Prop
  | both {s s' : σ} {t t' : τ} {i : ι} {o o' : List ο} :
      step₁ s i o s' → step₂ t i o' t' →
      Lockstep step₁ step₂ (s, t) i (o.map .inl ++ o'.map .inr) (s', t')

/-- What the first system puts out. -/
def lefts (os : List (ο ⊕ ο)) : List ο := os.filterMap Sum.getLeft?

/-- What the second system puts out. -/
def rights (os : List (ο ⊕ ο)) : List ο := os.filterMap Sum.getRight?

@[simp] lemma lefts_append (a b : List (ο ⊕ ο)) : lefts (a ++ b) = lefts a ++ lefts b :=
  List.filterMap_append

@[simp] lemma rights_append (a b : List (ο ⊕ ο)) : rights (a ++ b) = rights a ++ rights b :=
  List.filterMap_append

@[simp] lemma lefts_both (o o' : List ο) :
    lefts (o.map Sum.inl ++ o'.map Sum.inr) = o := by
  have hl : (o.map Sum.inl : List (ο ⊕ ο)).filterMap Sum.getLeft? = o := by
    rw [List.filterMap_map]
    exact List.filterMap_some
  have hr : (o'.map Sum.inr : List (ο ⊕ ο)).filterMap Sum.getLeft? = [] := by
    rw [List.filterMap_map]
    exact List.filterMap_eq_nil_iff.mpr fun _ _ => rfl
  rw [lefts_append, lefts, lefts, hl, hr, List.append_nil]

@[simp] lemma rights_both (o o' : List ο) :
    rights (o.map Sum.inl ++ o'.map Sum.inr) = o' := by
  have hl : (o.map Sum.inl : List (ο ⊕ ο)).filterMap Sum.getRight? = [] := by
    rw [List.filterMap_map]
    exact List.filterMap_eq_nil_iff.mpr fun _ _ => rfl
  have hr : (o'.map Sum.inr : List (ο ⊕ ο)).filterMap Sum.getRight? = o' := by
    rw [List.filterMap_map]
    exact List.filterMap_some
  rw [rights_append, rights, rights, hl, hr, List.nil_append]

section Runs

variable {step₁ : σ → ι → List ο → σ → Prop} {step₂ : τ → ι → List ο → τ → Prop}

/-- **The first system does nothing the second does not.**  `Inv` relates the states of the two;
on labels that satisfy `Cond`, every pair of steps keeps it and what the first puts out, seen
through `p`, is a sublist of what the second does. -/
theorem lockstep_sublist {Inv : σ × τ → Prop} {Cond : σ × τ → ι → Prop} {p : ο → Option ω}
    (keep : ∀ {s t i o o' s' t'}, Inv (s, t) → Cond (s, t) i → step₁ s i o s' →
      step₂ t i o' t' → Inv (s', t') ∧ (o.filterMap p).Sublist (o'.filterMap p)) :
    ∀ {run : List (Entry (σ × τ) ι (ο ⊕ ο))} {q : σ × τ}, Inv q →
      IsRun (Lockstep step₁ step₂) q run → (∀ x ∈ transitions q run, Cond x.1 x.2.label) →
        ((lefts (outputs run)).filterMap p).Sublist ((rights (outputs run)).filterMap p)
  | [], _, _, _, _ => List.Sublist.refl _
  | ⟨i, fx, _⟩ :: run, (s, t), hinv, ⟨hstep, hrest⟩, hcond => by
      have hhead := hcond _ List.mem_cons_self
      have htail := fun x hx => hcond x (List.mem_cons_of_mem _ hx)
      cases hstep with
      | @both _ _ _ _ _ o o' h₁ h₂ =>
          obtain ⟨hinv', hsub⟩ := keep hinv hhead h₁ h₂
          have ih := lockstep_sublist keep hinv' hrest htail
          show ((lefts ((o.map Sum.inl ++ o'.map Sum.inr) ++ outputs run)).filterMap p).Sublist
            ((rights ((o.map Sum.inl ++ o'.map Sum.inr) ++ outputs run)).filterMap p)
          rw [lefts_append, rights_append, lefts_both, rights_both, List.filterMap_append,
            List.filterMap_append]
          exact hsub.append ih

end Runs

/-- Embeddings of the two sides embed the lockstep. -/
lemma Lockstep.embeds {f : σ → σ'} {g : τ → τ'} {step₁ : σ → ι → List ο → σ → Prop}
    {step₂ : τ → ι → List ο → τ → Prop} {step₁' : σ' → ι → List ο → σ' → Prop}
    {step₂' : τ' → ι → List ο → τ' → Prop} (h₁ : Embeds f step₁ step₁')
    (h₂ : Embeds g step₂ step₂') :
    Embeds (Prod.map f g) (Lockstep step₁ step₂) (Lockstep step₁' step₂') := by
  rintro ⟨s, t⟩ i o ⟨r₁, r₂⟩
  constructor
  · intro h
    cases h with
    | both hs ht =>
        obtain ⟨s', hs', rfl⟩ := (h₁ s _ _ _).mp hs
        obtain ⟨t', ht', rfl⟩ := (h₂ t _ _ _).mp ht
        exact ⟨(s', t'), .both hs' ht', rfl⟩
  · rintro ⟨⟨s', t'⟩, h, heq⟩
    cases h with
    | both hs ht =>
        obtain ⟨rfl, rfl⟩ := Prod.mk.inj heq
        exact .both ((h₁ s _ _ _).mpr ⟨s', hs, rfl⟩) ((h₂ t _ _ _).mpr ⟨t', ht, rfl⟩)

end Systems
