import TinyLisp.Proofs.Store.Agreement

/-!
# Where an action binds variables

An action may bind variables in one frame of its own, in frames that it makes
itself, and nowhere else. `BindsWithin own` says that of an action, for the
frame `own` if there is one: every other frame that was there is left as it was,
and no binding is ever gone. It holds of a failing run as well, since a failure
takes nothing back.

The only action that writes to a frame is `define`, and the only one that makes
a frame is `enter`. What runs in the frame that `enter` has made binds only in
new frames as seen from outside, which is why a call binds nothing that its
caller can see.
-/

namespace TinyLisp

variable {α β : Type}

/-- The store that a run has left behind, if it has ended. -/
def Outcome.left? : Outcome α → Option Store
  | .result _ s => some s
  | .failure _ s => some s
  | .exhausted => none

namespace Bindings

theorem contains_cons (name : String) (b : String × Value) (bs : Bindings) :
    contains name (b :: bs) = (b.1 == name || contains name bs) := by
  rw [contains, find?]
  cases hb : b.1 == name <;> simp [contains]

theorem contains_replace (name other : String) (value : Value) (bs : Bindings) :
    contains other (replace name value bs) = contains other bs := by
  induction bs with
  | nil => rfl
  | cons b bs ih =>
      rw [replace]
      by_cases hb : (b.1 == name) = true
      · have : b.1 = name := eq_of_beq hb
        simp [contains_cons, this]
      · simp [contains_cons, hb, ih]

theorem contains_set (name other : String) (value : Value) (bs : Bindings) :
    contains other (set name value bs) =
      (name == other || contains other bs) := by
  rw [set]
  by_cases hb : contains name bs = true
  · rw [if_pos hb, contains_replace]
    by_cases hn : name = other
    · simp [← hn, hb]
    · simp [hn]
  · rw [if_neg hb, contains_cons]

end Bindings

namespace Store

/-- From the first store to the second no variable has been bound but in the
frame `own` and in new frames, and none has been unbound. -/
structure BindsWithin (own : Option FrameId) (s t : Store) : Prop where
  others : ∀ f < s.frames.size, own ≠ some f → t.frames[f]? = s.frames[f]?
  kept : ∀ (f : FrameId) bs, s.frames[f]? = some bs →
    ∃ bs', t.frames[f]? = some bs' ∧
    ∀ name, Bindings.contains name bs = true → Bindings.contains name bs' = true

theorem BindsWithin.of_frames {s t : Store} (h : t.frames = s.frames)
    (own : Option FrameId) : BindsWithin own s t where
  others f _ _ := by rw [h]
  kept f bs hbs := ⟨bs, by rw [h, hbs], fun _ hname => hname⟩

theorem BindsWithin.size_le {own : Option FrameId} {s t : Store}
    (h : BindsWithin own s t) : s.frames.size ≤ t.frames.size := by
  refine Nat.le_of_not_lt fun hlt => ?_
  obtain ⟨bs', hbs', -⟩ := h.kept t.frames.size s.frames[t.frames.size]
    (Array.getElem?_eq_getElem hlt)
  simp at hbs'

theorem BindsWithin.trans {own : Option FrameId} {s t u : Store}
    (h : BindsWithin own s t) (h' : BindsWithin own t u) :
    BindsWithin own s u where
  others f hf hown := by
    have := h.size_le
    rw [h'.others f (by omega) hown, h.others f hf hown]
  kept f bs hbs := by
    obtain ⟨bs', hbs', hkept⟩ := h.kept f bs hbs
    obtain ⟨bs'', hbs'', hkept'⟩ := h'.kept f bs' hbs'
    exact ⟨bs'', hbs'', fun name hname => hkept' name (hkept name hname)⟩

theorem bindsWithin_bind (s : Store) (scope : Scope) (name : String)
    (value : Value) :
    BindsWithin (some scope.here) s (s.bind scope name value) where
  others f _ hown := by
    have hne : scope.here ≠ f := fun heq => hown (by rw [heq])
    simp [bind, Array.getElem?_modify, hne]
  kept f bs hbs := by
    by_cases hf : scope.here = f
    · refine ⟨Bindings.set name value bs, ?_, ?_⟩
      · simp [bind, Array.getElem?_modify, hf, hbs]
      · intro other hother
        rw [Bindings.contains_set, hother, Bool.or_true]
    · exact ⟨bs, by simp [bind, Array.getElem?_modify, hf, hbs],
        fun _ hname => hname⟩

/-- What is bound in the frame of a scope that has just been entered is bound in
a new frame. -/
theorem BindsWithin.of_enter {s t : Store} {scope : Scope}
    (h : BindsWithin (some s.frames.size) (s.enter scope).2 t)
    (own : Option FrameId) : BindsWithin own s t where
  others f hf _ := by
    have hne : s.frames.size ≠ f := by omega
    have hsize : f < (s.enter scope).2.frames.size := by simp [enter]; omega
    rw [h.others f hsize (by simpa using hne)]
    simp [enter, Array.getElem?_push, hne.symm]
  kept f bs hbs := by
    have hf : f < s.frames.size := (Array.getElem?_eq_some_iff.mp hbs).1
    refine h.kept f bs ?_
    simp [enter, Array.getElem?_push, Nat.ne_of_lt hf, hbs]

end Store

namespace Action

/-- Wherever the action ends, it has bound no variable but in the frame `own`
and in new frames. -/
def BindsWithin (own : Option FrameId) (x : Action α) : Prop :=
  ∀ s t, (x s).left? = some t → s.BindsWithin own t

/-- The action leaves all frames as they are. -/
def Quiet (x : Action α) : Prop :=
  ∀ s t, (x s).left? = some t → t.frames = s.frames

theorem Quiet.bindsWithin {x : Action α} (h : Quiet x) (own : Option FrameId) :
    x.BindsWithin own :=
  fun s t ht => .of_frames (h s t ht) own

theorem BindsWithin.weaken {x : Action α} (h : x.BindsWithin none)
    (own : Option FrameId) : x.BindsWithin own :=
  fun s t ht => ⟨fun f hf _ => (h s t ht).others f hf nofun, (h s t ht).kept⟩

/-! ## Actions that leave all frames alone -/

theorem quiet_pure (a : α) : Quiet (pure a : Action α) := by
  intro s t h
  obtain rfl : s = t := Option.some.inj h
  rfl

theorem quiet_rethrow (e : Failure) : Quiet (rethrow e : Action α) := by
  intro s t h
  obtain rfl : s = t := Option.some.inj h
  rfl

theorem quiet_fail (f : Fault) :
    Quiet (fail f : Action α) := quiet_rethrow (.ofFault f)

theorem quiet_exhausted : Quiet (exhausted : Action α) := by
  intro s t h
  cases h

theorem quiet_ofExcept (x : Except Fault α) : Quiet (ofExcept x) := by
  cases x with
  | ok a => exact quiet_pure a
  | error f => exact quiet_fail f

theorem quiet_read (f : Store → α) : Quiet (read f) := by
  intro s t h
  obtain rfl : s = t := Option.some.inj h
  rfl

theorem quiet_resolve (scope : Scope) (name : String) :
    Quiet (resolve scope name) := by
  intro s t h
  unfold resolve at h
  split at h <;> (obtain rfl : s = t := Option.some.inj h; rfl)

/-- A heap action does not see the frames. -/
theorem quiet_lift (x : HeapAction α) : Quiet (HeapAction.lift x) := by
  intro s t h
  unfold HeapAction.lift at h
  split at h <;> (obtain rfl := Option.some.inj h; rfl)

/-! ## Actions put together -/

variable {own : Option FrameId}

theorem BindsWithin.bind {x : Action α} {f : α → Action β}
    (hx : x.BindsWithin own) (hf : ∀ a, (f a).BindsWithin own) :
    (x >>= f).BindsWithin own := by
  intro s u h
  rw [bind_apply] at h
  cases hxs : x s with
  | result a t =>
      rw [hxs] at h
      exact (hx s t (by rw [hxs]; rfl)).trans (hf a t u h)
  | failure e t =>
      rw [hxs] at h
      exact hx s u (by rw [hxs]; exact h)
  | exhausted =>
      rw [hxs] at h
      cases h

theorem BindsWithin.bind_bind {γ : Type} {x : Action α} {f : α → Action β}
    {g : β → Action γ} (hx : x.BindsWithin own)
    (hf : ∀ a, (f a >>= g).BindsWithin own) :
    (x >>= f >>= g).BindsWithin own := by
  rw [bind_assoc]
  exact hx.bind hf

theorem Quiet.bind {x : Action α} {f : α → Action β} (hx : Quiet x)
    (hf : ∀ a, (f a).BindsWithin own) : (x >>= f).BindsWithin own :=
  (hx.bindsWithin own).bind hf

/-- Giving a failure a place makes no difference to what is bound. -/
theorem BindsWithin.located_bind {x : Action α} {f : α → Action β}
    (h : (x >>= f).BindsWithin own) (span : Option Span) :
    (located span x >>= f).BindsWithin own := by
  intro s t ht
  refine h s t ?_
  rw [bind_apply] at ht ⊢
  unfold located at ht
  cases hxs : x s <;> rw [hxs] at ht <;> exact ht

theorem BindsWithin.attempt {x : Action α} (hx : x.BindsWithin own) :
    (attempt x).BindsWithin own := by
  intro s t h
  refine hx s t ?_
  unfold Action.attempt at h
  cases hxs : x s <;> rw [hxs] at h <;> exact h

theorem BindsWithin.each {f : α → Action β} (hf : ∀ a, (f a).BindsWithin own)
    (xs : List α) : (each f xs).BindsWithin own := by
  induction xs with
  | nil => exact (quiet_pure _).bindsWithin own
  | cons x xs ih =>
      exact (hf x).bind fun y => ih.bind fun ys =>
        (quiet_pure _).bindsWithin own

theorem BindsWithin.forM {f : α → Action Unit} (hf : ∀ a, (f a).BindsWithin own)
    (xs : List α) : (xs.forM f).BindsWithin own := by
  induction xs with
  | nil => exact (quiet_pure _).bindsWithin own
  | cons x xs ih => exact (hf x).bind fun _ => ih

theorem bindsWithin_define (scope : Scope) (name : String) (value : Value) :
    (define scope name value).BindsWithin (some scope.here) := by
  intro s t h
  obtain rfl := Option.some.inj h
  exact s.bindsWithin_bind scope name value

/-- What runs in a frame of its own binds nothing outside. -/
theorem bindsWithin_enter {f : Scope → Action α}
    (hf : ∀ inner : Scope, (f inner).BindsWithin (some inner.here))
    (scope : Scope) (own : Option FrameId) :
    (enter scope >>= f).BindsWithin own := by
  intro s t h
  have hrun : ((s.enter scope).2).BindsWithin (some s.frames.size) t :=
    hf _ _ t h
  exact hrun.of_enter own

end Action

end TinyLisp
