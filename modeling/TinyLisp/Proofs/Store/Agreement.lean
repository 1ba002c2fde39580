import TinyLisp.Store.Action

/-!
# Ending alike

Two runs end alike if both have the same result or both fail with the same
fault, and they leave the same store behind; where the fault is reported may
differ. A run that was cut short has not ended, so it is like no other.

Places can be left out because nothing looks at them: a handler is given the
wording of the fault, and a place is only ever filled in. Hence `EndsAs`, which
says that one action ends as another wherever it ends at all, passes through
everything actions are put together with. Through `attempt` it passes by
`EndsAs.attempt_bind`, since there the failure itself becomes a result.
-/

namespace TinyLisp

variable {α β γ : Type}

/-- The outcomes of two runs that have ended are the same, up to the place
of a failure. -/
inductive Outcome.Agrees : Outcome α → Outcome α → Prop where
  | result (a : α) (s : Store) : Agrees (.result a s) (.result a s)
  | failure (fault : Fault) (p q : Option Span) (s : Store) :
      Agrees (.failure ⟨fault, p⟩ s) (.failure ⟨fault, q⟩ s)

theorem Outcome.agrees_self {o : Outcome α} (h : o ≠ .exhausted) :
    o.Agrees o := by
  cases o with
  | result a s => exact .result a s
  | failure e s => exact .failure e.fault e.span e.span s
  | exhausted => exact absurd rfl h

theorem Outcome.Agrees.symm {o o' : Outcome α} (h : o.Agrees o') :
    o'.Agrees o := by
  cases h with
  | result a s => exact .result a s
  | failure f p q s => exact .failure f q p s

theorem Outcome.Agrees.trans {o o' o'' : Outcome α} (h : o.Agrees o')
    (h' : o'.Agrees o'') : o.Agrees o'' := by
  cases h with
  | result a s => exact h'
  | failure f p q s => cases h' with
    | failure _ _ r _ => exact .failure f p r s

theorem Outcome.Agrees.ended {o o' : Outcome α} (h : o.Agrees o') :
    o' ≠ .exhausted := by
  cases h with
  | result a s => exact nofun
  | failure f p q s => exact nofun

namespace Action

/-! ## Actions as a monad -/

theorem bind_apply (x : Action α) (f : α → Action β) (s : Store) :
    (x >>= f) s = match x s with
      | .result a s => f a s
      | .failure e s => .failure e s
      | .exhausted => .exhausted := rfl

theorem bind_of_result {x : Action α} {f : α → Action β} {s t : Store} {a : α}
    (h : x s = .result a t) : (x >>= f) s = f a t := by
  rw [bind_apply, h]

theorem bind_of_failure {x : Action α} {f : α → Action β} {s t : Store}
    {e : Failure} (h : x s = .failure e t) : (x >>= f) s = .failure e t := by
  rw [bind_apply, h]

theorem bind_of_exhausted {x : Action α} {f : α → Action β} {s : Store}
    (h : x s = .exhausted) : (x >>= f) s = .exhausted := by
  rw [bind_apply, h]

theorem bind_eq_result {x : Action α} {f : α → Action β} {s u : Store} {b : β}
    (h : (x >>= f) s = .result b u) :
    ∃ a t, x s = .result a t ∧ f a t = .result b u := by
  rw [bind_apply] at h
  cases hx : x s with
  | result a t => rw [hx] at h; exact ⟨a, t, rfl, h⟩
  | failure e t => rw [hx] at h; cases h
  | exhausted => rw [hx] at h; cases h

theorem bind_eq_failure {x : Action α} {f : α → Action β} {s u : Store}
    {e : Failure} (h : (x >>= f) s = .failure e u) :
    x s = .failure e u ∨ ∃ a t, x s = .result a t ∧ f a t = .failure e u := by
  rw [bind_apply] at h
  cases hx : x s with
  | result a t => rw [hx] at h; exact .inr ⟨a, t, rfl, h⟩
  | failure e' t =>
      rw [hx] at h
      obtain ⟨rfl, rfl⟩ := Outcome.failure.inj h
      exact .inl rfl
  | exhausted => rw [hx] at h; cases h

theorem located_eq_result {x : Action α} {p : Option Span} {s t : Store} {a : α}
    (h : located p x s = .result a t) : x s = .result a t := by
  unfold located at h
  cases hx : x s with
  | result b u => rw [hx] at h; exact h
  | failure e u => rw [hx] at h; cases h
  | exhausted => rw [hx] at h; cases h

instance : LawfulMonad Action := LawfulMonad.mk' Action
  (fun x => by
    funext s
    show (match x s with
      | .result a s => _
      | .failure e s => _
      | .exhausted => _) = x s
    cases x s <;> rfl)
  (fun _ _ => rfl)
  (fun x f g => by
    funext s
    rw [bind_apply, bind_apply, bind_apply]
    cases x s <;> rfl)

theorem each_append (f : α → Action β) (xs ys : List α) :
    each f (xs ++ ys) = each f xs >>= fun vs => (vs ++ ·) <$> each f ys := by
  induction xs with
  | nil =>
      show _ = pure [] >>= _
      simp
  | cons x xs ih =>
      rw [List.cons_append, each, ih, each]
      simp

/-! ## One action ending as another -/

/-- Wherever `x` ends, `y` ends alike. -/
def EndsAs (x y : Action α) : Prop :=
  ∀ s, x s ≠ .exhausted → (x s).Agrees (y s)

theorem EndsAs.refl (x : Action α) : EndsAs x x :=
  fun _ h => Outcome.agrees_self h

theorem EndsAs.trans {x y z : Action α} (h : EndsAs x y) (h' : EndsAs y z) :
    EndsAs x z := by
  intro s hs
  have hxy := h s hs
  exact hxy.trans (h' s hxy.ended)

theorem exhausted_endsAs (x : Action α) : EndsAs exhausted x :=
  fun _ h => absurd rfl h

theorem EndsAs.bind {x y : Action α} {f g : α → Action β} (h : EndsAs x y)
    (hf : ∀ a, EndsAs (f a) (g a)) : EndsAs (x >>= f) (y >>= g) := by
  intro s hs
  rw [bind_apply] at hs ⊢
  rw [bind_apply]
  have hxy := h s (by intro hx; rw [hx] at hs; exact hs rfl)
  generalize x s = o at hs hxy
  generalize y s = o' at hxy
  cases hxy with
  | result a t => exact hf a t hs
  | failure fault p q t => exact .failure fault p q t

theorem EndsAs.bind_bind {x y : Action α} {f f' : α → Action β}
    {g g' : β → Action γ} (h : EndsAs x y)
    (hf : ∀ a, EndsAs (f a >>= g) (f' a >>= g')) :
    EndsAs (x >>= f >>= g) (y >>= f' >>= g') := by
  rw [bind_assoc, bind_assoc]
  exact h.bind hf

/-- Two actions that start with the same one. -/
theorem EndsAs.after (x : Action α) {f g : α → Action β}
    (hf : ∀ a, EndsAs (f a) (g a)) : EndsAs (x >>= f) (x >>= g) :=
  (EndsAs.refl x).bind hf

theorem located_endsAs (p : Option Span) (x : Action α) :
    EndsAs (located p x) x := by
  intro s hs
  unfold located at hs ⊢
  cases hx : x s with
  | result a t => exact .result a t
  | failure e t => exact .failure e.fault _ e.span t
  | exhausted => rw [hx] at hs; exact absurd rfl hs

theorem endsAs_located (p : Option Span) (x : Action α) :
    EndsAs x (located p x) := by
  intro s hs
  unfold located
  cases hx : x s with
  | result a t => exact .result a t
  | failure e t => exact .failure e.fault e.span _ t
  | exhausted => exact absurd hx hs

/-- Two attempts agree on what was raised but for its place, so what follows has
to be the same for failures with the same fault. -/
theorem EndsAs.attempt_bind {x y : Action α} {f g : Except Failure α → Action β}
    (h : EndsAs x y) (hok : ∀ a, EndsAs (f (.ok a)) (g (.ok a)))
    (herror : ∀ fault p q,
      EndsAs (f (.error ⟨fault, p⟩)) (g (.error ⟨fault, q⟩))) :
    EndsAs (attempt x >>= f) (attempt y >>= g) := by
  intro s hs
  rw [bind_apply] at hs ⊢
  rw [bind_apply]
  unfold attempt at hs ⊢
  have hxy := h s (by intro hx; rw [hx] at hs; exact hs rfl)
  generalize x s = o at hs hxy
  generalize y s = o' at hxy
  cases hxy with
  | result a t => exact hok a t hs
  | failure fault p q t => exact herror fault p q t hs

theorem EndsAs.each {f g : α → Action β} (h : ∀ a, EndsAs (f a) (g a))
    (xs : List α) : EndsAs (each f xs) (each g xs) := by
  induction xs with
  | nil => exact EndsAs.refl _
  | cons x xs ih =>
      exact (h x).bind fun y => ih.bind fun ys => EndsAs.refl _

end Action

end TinyLisp
