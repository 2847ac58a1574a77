import DelayedOrderSms.Systems.Trace

/-!
# Runs with extra steps

Comparing a run with a run on more labels: every label of the first in its order, and in between
labels that are superfluous after what came before them.

* `Inserts` — the relation of the two lists of labels.
* `Inserts.mirror` — if common steps keep a relation of the two states and show the same, and a
  superfluous step keeps it and shows nothing, then the two runs show the same.
-/

namespace Systems

variable {σ ι ο ω : Type}

/-- `l'` is `l` with labels inserted, each `Extra` after all the labels before it, which are `seen`
at the start. -/
inductive Inserts (Extra : List ι → ι → Prop) : List ι → List ι → List ι → Prop
  | nil {seen : List ι} : Inserts Extra seen [] []
  | keep {seen l l' : List ι} {i : ι} :
      Inserts Extra (seen ++ [i]) l l' → Inserts Extra seen (i :: l) (i :: l')
  | insert {seen l l' : List ι} {i : ι} :
      Extra seen i → Inserts Extra (seen ++ [i]) l l' → Inserts Extra seen l (i :: l')

/-- Nothing new is inserted: what is found among the labels of the longer list is found among
those of the shorter one or was seen before. -/
lemma Inserts.mem_of_mem {Extra : List ι → ι → Prop} {α : Type} {find : ι → Option α}
    (known : ∀ {seen i a}, Extra seen i → find i = some a → a ∈ seen.filterMap find)
    {seen l l' : List ι} (h : Inserts Extra seen l l') :
    ∀ a ∈ l'.filterMap find, a ∈ (seen ++ l).filterMap find := by
  induction h with
  | nil => simp
  | @keep seen l l' i _ ih =>
      intro a ha
      have hsplit : (seen ++ i :: l) = (seen ++ [i]) ++ l := by simp
      rw [hsplit]
      rcases List.mem_filterMap.mp ha with ⟨x, hx, hfind⟩
      rcases List.mem_cons.mp hx with rfl | hx
      · exact List.mem_filterMap.mpr ⟨x, by simp, hfind⟩
      · exact ih a (List.mem_filterMap.mpr ⟨x, hx, hfind⟩)
  | @insert seen l l' i hextra _ ih =>
      intro a ha
      rcases List.mem_filterMap.mp ha with ⟨x, hx, hfind⟩
      rw [List.filterMap_append, List.mem_append]
      rcases List.mem_cons.mp hx with rfl | hx
      · exact .inl (known hextra hfind)
      · have hrest := ih a (List.mem_filterMap.mpr ⟨x, hx, hfind⟩)
        rw [List.filterMap_append, List.mem_append, List.filterMap_append, List.mem_append] at hrest
        rcases hrest with (hseen | hi) | hl
        · exact .inl hseen
        · rcases List.mem_filterMap.mp hi with ⟨y, hy, hfind'⟩
          obtain rfl := List.mem_singleton.mp hy
          exact .inl (known hextra hfind')
        · exact .inr hl

/-- **A run with superfluous steps shows what the run without them shows.**  `Rel seen` relates the
states of the two after the longer one has made the steps `seen`; `Ok` holds of its labels, and
`Cond` of its steps. -/
theorem Inserts.mirror {Step : σ → ι → List ο → σ → Prop} {Extra : List ι → ι → Prop}
    {Rel : List ι → σ → σ → Prop} {Ok : List ι → Prop} {Cond : σ → ι → Prop} {p : ο → Option ω}
    (before : ∀ {seen rest}, Ok (seen ++ rest) → Ok seen)
    (keep : ∀ {seen i s s' o o' t t'}, Rel seen s s' → Step s i o t → Step s' i o' t' →
      Rel (seen ++ [i]) t t' ∧ o'.filterMap p = o.filterMap p)
    (skip : ∀ {seen i s s' o' t'}, Ok seen → Rel seen s s' → Extra seen i → Cond s' i →
      Step s' i o' t' → Rel (seen ++ [i]) s t' ∧ o'.filterMap p = [])
    {seen l l' : List ι} (h : Inserts Extra seen l l') :
    ∀ {run run' : List (Entry σ ι ο)} {s s' : σ}, run.map Entry.label = l →
      run'.map Entry.label = l' → Ok (seen ++ l') → Rel seen s s' → IsRun Step s run →
      IsRun Step s' run' → (∀ x ∈ transitions s' run', Cond x.1 x.2.label) →
        Rel (seen ++ l') (final s run) (final s' run') ∧
          (outputs run').filterMap p = (outputs run).filterMap p := by
  induction h with
  | nil =>
      intro run run' s s' hl hl' _ hrel _ _ _
      obtain rfl := List.map_eq_nil_iff.mp hl
      obtain rfl := List.map_eq_nil_iff.mp hl'
      exact ⟨by simpa using hrel, rfl⟩
  | @keep seen l l' i _ ih =>
      intro run run' s s' hl hl' hok hrel hrun hrun' hcond
      obtain ⟨e, rest, rfl, rfl, hrest⟩ := List.map_eq_cons_iff.mp hl
      obtain ⟨e', rest', rfl, he', hrest'⟩ := List.map_eq_cons_iff.mp hl'
      have hstep' := hrun'.1
      rw [he'] at hstep'
      obtain ⟨hrel', hhead⟩ := keep hrel hrun.1 hstep'
      have hsplit : seen ++ e.label :: l' = (seen ++ [e.label]) ++ l' := by simp
      rw [hsplit] at hok ⊢
      obtain ⟨hend, htail⟩ := ih hrest hrest' hok hrel' hrun.2 hrun'.2
        fun x hx => hcond x (List.mem_cons_of_mem _ hx)
      exact ⟨hend, by simp [hhead, htail]⟩
  | @insert seen l l' i hextra _ ih =>
      intro run run' s s' hl hl' hok hrel hrun hrun' hcond
      obtain ⟨e', rest', rfl, rfl, hrest'⟩ := List.map_eq_cons_iff.mp hl'
      obtain ⟨hrel', hhead⟩ := skip (before hok) hrel hextra (hcond _ List.mem_cons_self) hrun'.1
      have hsplit : seen ++ e'.label :: l' = (seen ++ [e'.label]) ++ l' := by simp
      rw [hsplit] at hok ⊢
      obtain ⟨hend, htail⟩ := ih hl hrest' hok hrel' hrun hrun'.2
        fun x hx => hcond x (List.mem_cons_of_mem _ hx)
      exact ⟨hend, by simp [hhead, htail]⟩

end Systems
