import DelayedOrderSms.Python.Int

/-!
# Programs with effects

A run of a program: its effects in order, and how it ends.  The first exception ends it, with the
effects before it done.
-/

namespace Python

/-- A run: the effects, and the value or the exception it ends with. -/
structure Program (ε α : Type) where
  effects : List ε
  outcome : Except Exception α

namespace Program

variable {ε α β : Type}

instance : Monad (Program ε) where
  pure a := ⟨[], .ok a⟩
  bind p next :=
    match p.outcome with
    | .ok a => ⟨p.effects ++ (next a).effects, (next a).outcome⟩
    | .error e => ⟨p.effects, .error e⟩

/-- One effect. -/
def emit (effect : ε) : Program ε Unit := ⟨[effect], .ok ()⟩

/-- A computation without effects. -/
def lift (x : Except Exception α) : Program ε α := ⟨[], x⟩

@[simp] lemma pure_eq (a : α) : (pure a : Program ε α) = ⟨[], .ok a⟩ := rfl

@[simp] lemma bind_of_ok (effects : List ε) (a : α) (next : α → Program ε β) :
    ((⟨effects, .ok a⟩ : Program ε α) >>= next)
      = ⟨effects ++ (next a).effects, (next a).outcome⟩ := rfl

@[simp] lemma bind_of_error (effects : List ε) (e : Exception) (next : α → Program ε β) :
    ((⟨effects, .error e⟩ : Program ε α) >>= next) = ⟨effects, .error e⟩ := rfl

@[simp] lemma emit_bind (effect : ε) (next : Unit → Program ε β) :
    (emit effect >>= next) = ⟨effect :: (next ()).effects, (next ()).outcome⟩ := rfl

@[simp] lemma lift_ok_bind (a : α) (next : α → Program ε β) :
    ((lift (.ok a) : Program ε α) >>= next) = next a := rfl

@[simp] lemma lift_error_bind (e : Exception) (next : α → Program ε β) :
    ((lift (.error e) : Program ε α) >>= next) = ⟨[], .error e⟩ := rfl

/-- An effect under a condition. -/
lemma ite_emit (c : Prop) [Decidable c] (effect : ε) :
    (if c then emit effect else pure ()) = ⟨if c then [effect] else [], .ok ()⟩ := by
  by_cases h : c
  · simp [h, emit]
  · simp [h]

end Program

end Python
