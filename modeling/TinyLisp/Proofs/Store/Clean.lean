import TinyLisp.Proofs.Store.Agreement
import TinyLisp.Proofs.Value.Clean

/-!
# Actions that keep the store tidy

A store is tidy if everything bound in its frames and held by its cells is. An
action keeps it so if, started on a tidy store, it leaves one behind however it
ends, and if what it gives has a property that the next action can rely on.
`Keeps` is closed under everything actions are put together with, so of an
action put together from others nothing has to be said about stores any more.

Only `define`, `newCell` and `writeCell` put a value into the store, and they
have to be given a tidy one. All others leave frames and cells as they are, or
make an empty frame.
-/

namespace TinyLisp

open Value (Tidy)

variable {α β : Type}

/-! ## Stores -/

namespace Bindings

theorem mem_of_find?_eq_some {name : String} {v : Value} {bs : Bindings}
    (h : find? name bs = some v) : ∃ b ∈ bs, b.2 = v := by
  induction bs with
  | nil => cases h
  | cons b bs ih =>
      rw [find?] at h
      split at h
      · exact ⟨b, List.mem_cons_self, Option.some.inj h⟩
      · obtain ⟨c, hc, hv⟩ := ih h
        exact ⟨c, List.mem_cons_of_mem b hc, hv⟩

theorem mem_replace {name : String} {v : Value} {b : String × Value}
    {bs : Bindings} (h : b ∈ replace name v bs) : b = (name, v) ∨ b ∈ bs := by
  induction bs with
  | nil => cases h
  | cons c bs ih =>
      rw [replace] at h
      split at h
      · exact (List.mem_cons.mp h).imp_right (List.mem_cons_of_mem c)
      · rcases List.mem_cons.mp h with rfl | h
        · exact .inr List.mem_cons_self
        · exact (ih h).imp_right (List.mem_cons_of_mem c)

theorem mem_set {name : String} {v : Value} {b : String × Value} {bs : Bindings}
    (h : b ∈ set name v bs) : b = (name, v) ∨ b ∈ bs := by
  rw [set] at h
  split at h
  · exact mem_replace h
  · exact List.mem_cons.mp h

end Bindings

/-- The content of every cell is tidy. -/
def Heap.Tidy (heap : Heap) : Prop :=
  ∀ v ∈ heap.cells, v.Tidy

namespace Store

/-- Everything that is bound in a frame or held by a cell is tidy. -/
structure Tidy (s : Store) : Prop where
  frames : ∀ bs ∈ s.frames, ∀ b ∈ bs, b.2.Tidy
  heap : s.heap.Tidy

/-- The value `w` stands in another, or in what an atom that stands there holds,
at any depth. -/
inductive Occurs (s : Store) (w : Value) : Value → Prop where
  | here : Occurs s w w
  | part {v p : Value} (hp : p ∈ v.dataParts) (h : Occurs s w p) : Occurs s w v
  | content {cell : CellId} {p : Value} (hp : s.heap.cells[cell]? = some p)
      (h : Occurs s w p) : Occurs s w (.atom cell)

variable {s : Store}

/-- In a tidy store no map literal can be reached from a tidy value
through atoms either. -/
theorem Tidy.not_mapForm_of_occurs (hs : s.Tidy) {v w : Value}
    (h : s.Occurs w v) (hv : v.Tidy) : w.isMapForm = false := by
  induction h with
  | here => exact hv.not_mapForm
  | part hp _ ih => exact ih (hv.of_mem_dataParts hp)
  | content hp _ ih => exact ih (hs.heap _ (Array.mem_of_getElem? hp))

theorem Tidy.bind (hs : s.Tidy) (scope : Scope) (name : String) {v : Value}
    (hv : v.Tidy) : (s.bind scope name v).Tidy where
  frames bs hbs b hb := by
    obtain ⟨f, hf⟩ := Array.mem_iff_getElem?.mp hbs
    simp only [Store.bind, Array.getElem?_modify] at hf
    split at hf
    · obtain ⟨bs', hbs', rfl⟩ := Option.map_eq_some_iff.mp hf
      rcases Bindings.mem_set hb with rfl | hb
      · exact hv
      · exact hs.frames bs' (Array.mem_of_getElem? hbs') b hb
    · exact hs.frames bs (Array.mem_of_getElem? hf) b hb
  heap := hs.heap

theorem Tidy.enter (hs : s.Tidy) (scope : Scope) : (s.enter scope).2.Tidy where
  frames bs hbs b hb := by
    rcases Array.mem_push.mp hbs with hbs | rfl
    · exact hs.frames bs hbs b hb
    · cases hb
  heap := hs.heap

theorem Tidy.lookup (hs : s.Tidy) {scope : Scope} {name : String} {v : Value}
    (h : s.lookup scope name = some v) : v.Tidy := by
  rw [Store.lookup] at h
  generalize scope.frames = fs at h
  induction fs with
  | nil => cases h
  | cons f fs ih =>
      rw [lookupIn] at h
      split at h
      · next w hw =>
          obtain ⟨bs, hbs, hfind⟩ := Option.bind_eq_some_iff.mp hw
          obtain ⟨b, hb, rfl⟩ := Bindings.mem_of_find?_eq_some hfind
          obtain rfl := Option.some.inj h
          exact hs.frames bs (Array.mem_of_getElem? hbs) b hb
      · exact ih h

end Store

/-! ## Computations -/

/-- What the computation gives, if it gives anything, has the property. -/
def Yields {ε : Type} (P : α → Prop) (x : Except ε α) : Prop :=
  ∀ a, x = .ok a → P a

section

variable {ε : Type} {P : α → Prop} {Q : β → Prop} {x : Except ε α}

theorem yields_pure {a : α} (h : P a) : Yields P (pure a : Except ε α) := by
  rintro b ⟨⟩
  exact h

theorem yields_error (e : ε) : Yields P (.error e) := nofun

theorem Yields.bind {f : α → Except ε β} (hx : Yields P x)
    (hf : ∀ a, P a → Yields Q (f a)) : Yields Q (x >>= f) := by
  cases x with
  | ok a => exact hf a (hx a rfl)
  | error e => exact yields_error e

/-- A property that does not depend on what the first computation gives. -/
theorem yields_bind {f : α → Except ε β} (hf : ∀ a, Yields Q (f a)) :
    Yields Q (x >>= f) :=
  Yields.bind (P := fun _ => True) (fun _ _ => trivial) fun a _ => hf a

theorem Yields.map {f : α → β} (hx : Yields P x) (hf : ∀ a, P a → Q (f a)) :
    Yields Q (x.map f) := by
  cases x with
  | ok a => exact yields_pure (hf a (hx a rfl))
  | error e => exact yields_error e

/-- A result that is wrapped in something that holds no other value. -/
theorem yields_map_leaf {f : α → Value} (hf : ∀ a, (f a).isMapForm = false)
    (hparts : ∀ a, (f a).formParts = []) : Yields Tidy (x.map f) :=
  Yields.map (P := fun _ => True) (fun _ _ => trivial) fun a _ =>
    Value.tidy_leaf (hf a) (hparts a)

theorem yields_mapM {f : α → Except ε β} {xs : List α}
    (hf : ∀ a ∈ xs, Yields Q (f a)) :
    Yields (fun ys => ∀ y ∈ ys, Q y) (xs.mapM f) := by
  induction xs with
  | nil => exact yields_pure nofun
  | cons a xs ih =>
      rw [List.mapM_cons]
      refine (hf a List.mem_cons_self).bind fun y hy => ?_
      refine (ih fun b hb => hf b (List.mem_cons_of_mem a hb)).bind
        fun ys hys => ?_
      exact yields_pure (List.forall_mem_cons.mpr ⟨hy, hys⟩)

end

/-! ## Actions -/

/-- The store that is left behind is tidy, and a result has the property. -/
def Outcome.Tidy (P : α → Prop) : Outcome α → Prop
  | .result a s => P a ∧ s.Tidy
  | .failure _ s => s.Tidy
  | .exhausted => True

namespace Action

/-- On a tidy store the action leaves a tidy store, and what it gives
has the property. -/
def Keeps (P : α → Prop) (x : Action α) : Prop :=
  ∀ s : Store, s.Tidy → (x s).Tidy P

variable {P : α → Prop} {Q : β → Prop} {x : Action α}

theorem keeps_pure {a : α} (h : P a) : (pure a : Action α).Keeps P :=
  fun _ hs => ⟨h, hs⟩

theorem keeps_rethrow (e : Failure) : (rethrow e : Action α).Keeps P :=
  fun _ hs => hs

theorem keeps_fail (f : Fault) : (fail f : Action α).Keeps P :=
  keeps_rethrow (.ofFault f)

theorem keeps_exhausted : (exhausted : Action α).Keeps P :=
  fun _ _ => trivial

theorem keeps_ofExcept {y : Except Fault α} (h : Yields P y) :
    (ofExcept y).Keeps P := by
  cases y with
  | ok a => exact keeps_pure (h a rfl)
  | error f => exact keeps_fail f

theorem Keeps.bind {f : α → Action β} (hx : x.Keeps P)
    (hf : ∀ a, P a → (f a).Keeps Q) : (x >>= f).Keeps Q := by
  intro s hs
  have h := hx s hs
  rw [bind_apply]
  cases hxs : x s with
  | result a t => rw [hxs] at h; exact hf a h.1 t h.2
  | failure e t => rw [hxs] at h; exact h
  | exhausted => trivial

/-- A computation of whose result nothing has to be known. -/
theorem keeps_ofExcept_bind {y : Except Fault α} {f : α → Action β}
    (hf : ∀ a, (f a).Keeps Q) : (ofExcept y >>= f).Keeps Q :=
  (keeps_ofExcept (P := fun _ => True) fun _ _ => trivial).bind fun a _ => hf a

theorem Keeps.located (h : x.Keeps P) (span : Option Span) :
    (located span x).Keeps P := by
  intro s hs
  have hx := h s hs
  unfold Action.located
  cases hxs : x s <;> rw [hxs] at hx <;> exact hx

theorem Keeps.attempt (h : x.Keeps P) : (attempt x).Keeps (Yields P) := by
  intro s hs
  have hx := h s hs
  unfold Action.attempt
  cases hxs : x s with
  | result a t => rw [hxs] at hx; exact ⟨yields_pure hx.1, hx.2⟩
  | failure e t => rw [hxs] at hx; exact ⟨yields_error e, hx⟩
  | exhausted => trivial

theorem keeps_each {f : α → Action β} {xs : List α}
    (hf : ∀ a ∈ xs, (f a).Keeps Q) :
    (each f xs).Keeps fun ys => ∀ y ∈ ys, Q y := by
  induction xs with
  | nil => exact keeps_pure nofun
  | cons a xs ih =>
      refine (hf a List.mem_cons_self).bind fun y hy => ?_
      refine (ih fun b hb => hf b (List.mem_cons_of_mem a hb)).bind
        fun ys hys => ?_
      exact keeps_pure (List.forall_mem_cons.mpr ⟨hy, hys⟩)

theorem keeps_forM {f : α → Action Unit} {xs : List α}
    (hf : ∀ a ∈ xs, (f a).Keeps fun _ => True) :
    (xs.forM f).Keeps fun _ => True := by
  induction xs with
  | nil => exact keeps_pure trivial
  | cons a xs ih =>
      exact (hf a List.mem_cons_self).bind fun _ _ =>
        ih fun b hb => hf b (List.mem_cons_of_mem a hb)

theorem keeps_define (scope : Scope) (name : String) {v : Value} (hv : v.Tidy) :
    (define scope name v).Keeps fun _ => True :=
  fun _ hs => ⟨trivial, hs.bind scope name hv⟩

theorem keeps_enter (scope : Scope) : (enter scope).Keeps fun _ => True :=
  fun _ hs => ⟨trivial, hs.enter scope⟩

theorem keeps_lookup (scope : Scope) (name : String) :
    (read (·.lookup scope name)).Keeps fun v? => ∀ v, v? = some v → v.Tidy :=
  fun _ hs => ⟨fun _ h => hs.lookup h, hs⟩

theorem keeps_resolve (scope : Scope) (name : String) :
    (resolve scope name).Keeps Value.Tidy := by
  intro s hs
  unfold resolve
  split
  · next v h => exact ⟨hs.lookup h, hs⟩
  · exact hs

/-- From what the action gives no map literal can be reached in the store
that it leaves. -/
theorem Keeps.ends {x : Action Value} (h : x.Keeps Value.Tidy) {s : Store}
    (hs : s.Tidy) :
    (∀ v t, x s = .result v t →
      t.Tidy ∧ v.Tidy ∧ ∀ w, t.Occurs w v → w.isMapForm = false) ∧
    ∀ e t, x s = .failure e t → t.Tidy := by
  have hx := h s hs
  refine ⟨fun v t hv => ?_, fun e t he => ?_⟩
  · rw [hv] at hx
    exact ⟨hx.2, hx.1, fun w hw => hx.2.not_mapForm_of_occurs hw hx.1⟩
  · rw [he] at hx
    exact hx

end Action

/-! ## Actions on the heap -/

namespace HeapAction

open TinyLisp.Action (Keeps)

variable {P : α → Prop} {Q : β → Prop} {x : HeapAction α}

theorem lift_bind (x : HeapAction α) (f : α → HeapAction β) :
    lift (x >>= f) = lift x >>= fun a => lift (f a) := by
  funext s
  rw [Action.bind_apply]
  simp only [lift, bind, ExceptT.bind, ExceptT.mk, StateT.bind]
  rcases x s.heap with ⟨e | a, heap⟩ <;> rfl

theorem Keeps.lift_bind {f : α → HeapAction β} (hx : (lift x).Keeps P)
    (hf : ∀ a, P a → (lift (f a)).Keeps Q) : (lift (x >>= f)).Keeps Q := by
  rw [HeapAction.lift_bind]
  exact hx.bind hf

theorem keeps_pure {a : α} (h : P a) : (lift (pure a)).Keeps P :=
  Action.keeps_pure h

theorem keeps_fail (f : Fault) : (lift (fail f : HeapAction α)).Keeps P :=
  Action.keeps_fail f

theorem keeps_ofExcept {y : Except Fault α} (h : Yields P y) :
    (lift (ofExcept y)).Keeps P := by
  cases y with
  | ok a => exact keeps_pure (h a rfl)
  | error f => exact keeps_fail f

/-- An action that leaves the cells alone keeps the store tidy. -/
theorem keeps_of_cells (h : ∀ heap, (x heap).2.cells = heap.cells) :
    (lift x).Keeps fun _ => True := by
  intro s hs
  have htidy : (x s.heap).2.Tidy := by
    rw [Heap.Tidy, h]
    exact hs.heap
  unfold lift
  split
  · next a heap hx => rw [hx] at htidy; exact ⟨trivial, hs.frames, htidy⟩
  · next e heap hx => rw [hx] at htidy; exact ⟨hs.frames, htidy⟩

theorem keeps_of_cells_bind {f : α → HeapAction β}
    (h : ∀ heap, (x heap).2.cells = heap.cells)
    (hf : ∀ a, (lift (f a)).Keeps Q) : (lift (x >>= f)).Keeps Q :=
  Keeps.lift_bind (keeps_of_cells h) fun a _ => hf a

/-- A computation of whose result nothing has to be known. -/
theorem keeps_ofExcept_bind {y : Except Fault α} {f : α → HeapAction β}
    (hf : ∀ a, (lift (f a)).Keeps Q) : (lift (ofExcept y >>= f)).Keeps Q :=
  Keeps.lift_bind (keeps_ofExcept (P := fun _ => True) fun _ _ => trivial)
    fun a _ => hf a

theorem keeps_newCell {v : Value} (hv : v.Tidy) :
    (lift (newCell v)).Keeps fun _ => True := by
  refine fun s hs => ⟨trivial, hs.frames, fun w hw => ?_⟩
  rcases Array.mem_push.mp hw with hw | rfl
  · exact hs.heap w hw
  · exact hv

theorem keeps_readCell (cell : CellId) :
    (lift (readCell cell)).Keeps Value.Tidy := by
  refine fun s hs => ⟨?_, hs⟩
  cases h : s.heap.cells[cell]? with
  | none => exact Value.tidy_leaf rfl rfl
  | some v => exact hs.heap v (Array.mem_of_getElem? h)

theorem keeps_writeCell (cell : CellId) {v : Value} (hv : v.Tidy) :
    (lift (writeCell cell v)).Keeps fun _ => True := by
  refine fun s hs => ⟨trivial, hs.frames, fun w hw => ?_⟩
  rcases Array.mem_or_eq_of_mem_setIfInBounds hw with hw | rfl
  · exact hs.heap w hw
  · exact hv

end HeapAction

end TinyLisp
