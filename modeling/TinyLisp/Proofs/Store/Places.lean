import TinyLisp.Proofs.Store.Clean
import TinyLisp.Proofs.Value.Places

/-!
# Actions that do not look at places

Two stores match if they hold matching values in the same frames and cells and
are the same in everything else: what has been printed, the buffers, the numbers
handed out. Two actions mirror each other if, started on matching stores, they
end the same way and leave matching stores behind: with results that are
related, with the same fault at places that correspond, or both out of time.

`Mirrors` is closed under everything actions are put together with. Through
`attempt` a failure becomes a result, place and all, so what follows is given
two failures that match and may look at no more than the fault.
-/

namespace TinyLisp

variable {R : Places} {α β γ δ : Type}

/-! ## Stores -/

/-- The same variables, bound to matching values. -/
abbrev Bindings.Matches (R : Places) : Bindings → Bindings → Prop :=
  List.Forall₂ (AssocList.Paired Eq (Value.Matches R))

/-- Matching cells, and the rest the same. -/
structure Heap.Matches (R : Places) (h k : Heap) : Prop where
  cells : AllMatch R h.cells.toList k.cells.toList
  buffers : h.buffers = k.buffers
  nextId : h.nextId = k.nextId
  output : h.output = k.output
  journal : h.journal = k.journal

/-- Matching frames on matching heaps. -/
structure Store.Matches (R : Places) (s t : Store) : Prop where
  frames : List.Forall₂ (Bindings.Matches R) s.frames.toList t.frames.toList
  heap : s.heap.Matches R t.heap

theorem forall₂_modify {P : α → β → Prop} {f : α → α} {g : β → β}
    (hfg : ∀ a b, P a b → P (f a) (g b)) {as : List α} {bs : List β}
    (h : List.Forall₂ P as bs) (i : Nat) :
    List.Forall₂ P (as.modify i f) (bs.modify i g) := by
  induction h generalizing i with
  | nil => simp
  | cons hab h ih => cases i with
    | zero => exact .cons (hfg _ _ hab) h
    | succ i => exact .cons hab (ih i)

theorem forall₂_set {P : α → β → Prop} {a : α} {b : β} (hab : P a b)
    {as : List α} {bs : List β} (h : List.Forall₂ P as bs) (i : Nat) :
    List.Forall₂ P (as.set i a) (bs.set i b) := by
  induction h generalizing i with
  | nil => exact .nil
  | cons hcd h ih => cases i with
    | zero => exact .cons hab h
    | succ i => exact .cons hcd (ih i)

namespace Bindings

variable {bs cs : Bindings} {v w : Value}

theorem Matches.find? (h : Matches R bs cs) (name : String) :
    Option.Rel (Value.Matches R) (find? name bs) (find? name cs) := by
  induction h with
  | nil => exact .none
  | cons hb _ ih =>
      rw [Bindings.find?, Bindings.find?, hb.key]
      split
      · exact .some hb.value
      · exact ih

theorem Matches.replace (h : Matches R bs cs) (name : String)
    (hv : v.Matches R w) :
    Matches R (replace name v bs) (replace name w cs) := by
  induction h with
  | nil => exact .nil
  | cons hb h ih =>
      rw [Bindings.replace, Bindings.replace, hb.key]
      split
      · exact .cons (.mk rfl hv) h
      · exact .cons hb ih

theorem Matches.set (h : Matches R bs cs) (name : String) (hv : v.Matches R w) :
    Matches R (set name v bs) (set name w cs) := by
  have hbound : bs.contains name = cs.contains name :=
    AssocList.isSome_eq_of_rel (h.find? name)
  rw [Bindings.set, Bindings.set, hbound]
  split
  · exact h.replace name hv
  · exact .cons (.mk rfl hv) h

end Bindings

namespace Store

variable {s t : Store} {v w : Value}

theorem Matches.bind (h : s.Matches R t) (scope : Scope) (name : String)
    (hv : v.Matches R w) :
    (s.bind scope name v).Matches R (t.bind scope name w) where
  frames := by
    simp only [Store.bind, Array.toList_modify]
    exact forall₂_modify (fun bs cs hbs => Bindings.Matches.set hbs name hv)
      h.frames scope.here
  heap := h.heap

theorem Matches.enter (h : s.Matches R t) (scope : Scope) :
    (s.enter scope).1 = (t.enter scope).1 ∧
      (s.enter scope).2.Matches R (t.enter scope).2 := by
  have hsize : s.frames.size = t.frames.size := h.frames.length_eq
  refine ⟨by simp only [Store.enter, hsize], ?_, h.heap⟩
  simp only [Store.enter, Array.toList_push]
  exact List.rel_append h.frames (.cons .nil .nil)

theorem Matches.lookup (h : s.Matches R t) (scope : Scope) (name : String) :
    Option.Rel (Value.Matches R) (s.lookup scope name)
      (t.lookup scope name) := by
  rw [Store.lookup, Store.lookup]
  generalize scope.frames = fs
  induction fs with
  | nil => exact .none
  | cons f fs ih =>
      have hframe := Value.rel_getElem? h.frames f
      rw [Array.getElem?_toList, Array.getElem?_toList] at hframe
      rw [lookupIn, lookupIn]
      generalize s.frames[f]? = bs? at hframe
      generalize t.frames[f]? = cs? at hframe
      cases hframe with
      | none => exact ih
      | @some bs cs hbs =>
          have hfind := Bindings.Matches.find? hbs name
          simp only [Option.bind_some]
          generalize Bindings.find? name bs = v? at hfind
          generalize Bindings.find? name cs = w? at hfind
          cases hfind with
          | none => exact ih
          | some hv => exact .some hv

end Store

/-- The place is in what a variable or a cell holds. -/
inductive Store.Bears (a : Span) (s : Store) : Prop where
  | bound {bs : Bindings} {b : String × Value} (hbs : bs ∈ s.frames)
      (hb : b ∈ bs) (h : b.2.Bears a)
  | held {v : Value} (hv : v ∈ s.heap.cells) (h : v.Bears a)

/-- A store whose places correspond to themselves matches itself. -/
theorem Store.matches_self {s : Store}
    (h : ∀ a, s.Bears a → R.rel (some a) (some a)) : s.Matches R s where
  frames := by
    refine List.forall₂_same.mpr fun bs hbs => List.forall₂_same.mpr fun b hb =>
      .mk rfl ?_
    exact Value.matches_self b.2 fun a ha =>
      h a (.bound (Array.mem_toList_iff.mp hbs) hb ha)
  heap := by
    refine ⟨Value.allMatch_self _ fun v hv a ha => ?_, rfl, rfl, rfl, rfl⟩
    exact h a (.held (Array.mem_toList_iff.mp hv) ha)

/-! ## Computations -/

/-- Both computations give results, related by `P`, or both give errors,
related by `E`. -/
inductive Concur {ε : Type} (E : ε → ε → Prop) (P : α → β → Prop) :
    Except ε α → Except ε β → Prop where
  | ok {a : α} {b : β} (h : P a b) : Concur E P (.ok a) (.ok b)
  | error {e e' : ε} (h : E e e') : Concur E P (.error e) (.error e')

section

variable {ε : Type} {E : ε → ε → Prop} {P : α → β → Prop} {Q : γ → δ → Prop}
  {x : Except ε α} {y : Except ε β}

theorem concur_pure {a : α} {b : β} (h : P a b) :
    Concur E P (pure a : Except ε α) (pure b : Except ε β) := .ok h

theorem concur_error (e : ε) :
    Concur Eq P (.error e : Except ε α) (.error e : Except ε β) :=
  .error rfl

theorem Concur.bind {f : α → Except ε γ} {g : β → Except ε δ}
    (h : Concur E P x y) (hfg : ∀ a b, P a b → Concur E Q (f a) (g b)) :
    Concur E Q (x >>= f) (y >>= g) := by
  cases h with
  | ok hab => exact hfg _ _ hab
  | error he => exact .error he

theorem Concur.map {f : α → γ} {g : β → δ} (h : Concur E P x y)
    (hfg : ∀ a b, P a b → Q (f a) (g b)) : Concur E Q (x.map f) (y.map g) := by
  cases h with
  | ok hab => exact .ok (hfg _ _ hab)
  | error he => exact .error he

theorem concur_mapM {f : α → Except ε γ} {g : β → Except ε δ}
    (hfg : ∀ a b, P a b → Concur E Q (f a) (g b)) {as : List α} {bs : List β}
    (h : List.Forall₂ P as bs) :
    Concur E (List.Forall₂ Q) (as.mapM f) (bs.mapM g) := by
  induction h with
  | nil => exact concur_pure .nil
  | cons hab _ ih =>
      rw [List.mapM_cons, List.mapM_cons]
      refine (hfg _ _ hab).bind fun c d hcd => ih.bind fun cs ds hcds => ?_
      exact concur_pure (.cons hcd hcds)

theorem concur_forM {f : α → Except ε PUnit} {g : β → Except ε PUnit}
    (hfg : ∀ a b, P a b → Concur E Eq (f a) (g b)) {as : List α} {bs : List β}
    (h : List.Forall₂ P as bs) : Concur E Eq (as.forM f) (bs.forM g) := by
  induction h with
  | nil => exact concur_pure rfl
  | cons hab _ ih => exact (hfg _ _ hab).bind fun _ _ _ => ih

theorem concur_same (x : Except ε α) : Concur Eq Eq x x := by
  cases x with
  | ok a => exact .ok rfl
  | error e => exact .error rfl

/-- A result that both computations share. -/
theorem Concur.bind_eq {x y : Except ε α} {f : α → Except ε γ}
    {g : α → Except ε δ} (h : Concur E Eq x y)
    (hfg : ∀ a, Concur E Q (f a) (g a)) : Concur E Q (x >>= f) (y >>= g) :=
  h.bind fun a _ hab => hab ▸ hfg a

end

/-! ## Actions -/

/-- The same fault, at places that correspond. -/
structure Failure.Matches (R : Places) (e e' : Failure) : Prop where
  fault : e.fault = e'.fault
  place : R.rel e.span e'.span

/-- Ended the same way, with matching stores left behind. -/
inductive Outcome.Matches (R : Places) (P : α → β → Prop) :
    Outcome α → Outcome β → Prop where
  | result {a : α} {b : β} {s t : Store} (h : P a b) (store : s.Matches R t) :
      Matches R P (.result a s) (.result b t)
  | failure {e e' : Failure} {s t : Store} (h : e.Matches R e')
      (store : s.Matches R t) : Matches R P (.failure e s) (.failure e' t)
  | exhausted : Matches R P .exhausted .exhausted

namespace Action

/-- On matching stores the actions end the same way. -/
def Mirrors (R : Places) (P : α → β → Prop) (x : Action α) (y : Action β) :
    Prop :=
  ∀ s t : Store, s.Matches R t → (x s).Matches R P (y t)

variable {P : α → β → Prop} {Q : γ → δ → Prop} {x : Action α} {y : Action β}

theorem mirrors_pure {a : α} {b : β} (h : P a b) :
    Mirrors R P (pure a : Action α) (pure b : Action β) :=
  fun _ _ hs => .result h hs

theorem mirrors_rethrow {e e' : Failure} (h : e.Matches R e') :
    Mirrors R P (rethrow e : Action α) (rethrow e' : Action β) :=
  fun _ _ hs => .failure h hs

theorem mirrors_fail (f : Fault) :
    Mirrors R P (fail f : Action α) (fail f : Action β) :=
  mirrors_rethrow ⟨rfl, R.none⟩

theorem mirrors_exhausted :
    Mirrors R P (exhausted : Action α) (exhausted : Action β) :=
  fun _ _ _ => .exhausted

theorem mirrors_ofExcept {u : Except Fault α} {v : Except Fault β}
    (h : Concur Eq P u v) : Mirrors R P (ofExcept u) (ofExcept v) := by
  cases h with
  | ok hab => exact mirrors_pure hab
  | error he => exact he ▸ mirrors_fail _

theorem Mirrors.bind {f : α → Action γ} {g : β → Action δ} (h : Mirrors R P x y)
    (hfg : ∀ a b, P a b → Mirrors R Q (f a) (g b)) :
    Mirrors R Q (x >>= f) (y >>= g) := by
  intro s t hs
  have hxy := h s t hs
  rw [bind_apply, bind_apply]
  generalize x s = o at hxy
  generalize y t = o' at hxy
  cases hxy with
  | result hab hs => exact hfg _ _ hab _ _ hs
  | failure he hs => exact .failure he hs
  | exhausted => exact .exhausted

/-- A result that both actions share. -/
theorem Mirrors.bind_eq {x y : Action α} {f : α → Action γ} {g : α → Action δ}
    (h : Mirrors R Eq x y) (hfg : ∀ a, Mirrors R Q (f a) (g a)) :
    Mirrors R Q (x >>= f) (y >>= g) :=
  h.bind fun a _ hab => hab ▸ hfg a

theorem Mirrors.located (h : Mirrors R P x y) {p q : Option Span}
    (hpq : R.rel p q) : Mirrors R P (located p x) (located q y) := by
  intro s t hs
  have hxy := h s t hs
  unfold Action.located
  generalize x s = o at hxy
  generalize y t = o' at hxy
  cases hxy with
  | result hab hs => exact .result hab hs
  | failure he hs => exact .failure ⟨he.fault, R.or he.place hpq⟩ hs
  | exhausted => exact .exhausted

theorem Mirrors.attempt (h : Mirrors R P x y) :
    Mirrors R (Concur (Failure.Matches R) P) (attempt x) (attempt y) := by
  intro s t hs
  have hxy := h s t hs
  unfold Action.attempt
  generalize x s = o at hxy
  generalize y t = o' at hxy
  cases hxy with
  | result hab hs => exact .result (.ok hab) hs
  | failure he hs => exact .result (.error he) hs
  | exhausted => exact .exhausted

theorem mirrors_each {f : α → Action γ} {g : β → Action δ}
    (hfg : ∀ a b, P a b → Mirrors R Q (f a) (g b)) {as : List α} {bs : List β}
    (h : List.Forall₂ P as bs) :
    Mirrors R (List.Forall₂ Q) (each f as) (each g bs) := by
  induction h with
  | nil => exact mirrors_pure .nil
  | cons hab _ ih =>
      refine (hfg _ _ hab).bind fun c d hcd => ih.bind fun cs ds hcds => ?_
      exact mirrors_pure (.cons hcd hcds)

theorem mirrors_forM {f : α → Action Unit} {g : β → Action Unit}
    (hfg : ∀ a b, P a b → Mirrors R Eq (f a) (g b)) {as : List α} {bs : List β}
    (h : List.Forall₂ P as bs) : Mirrors R Eq (as.forM f) (bs.forM g) := by
  induction h with
  | nil => exact mirrors_pure rfl
  | cons hab _ ih => exact (hfg _ _ hab).bind_eq fun _ => ih

theorem mirrors_define (scope : Scope) (name : String) {v w : Value}
    (h : v.Matches R w) :
    Mirrors R Eq (define scope name v) (define scope name w) :=
  fun _ _ hs => .result rfl (hs.bind scope name h)

theorem mirrors_enter (scope : Scope) :
    Mirrors R Eq (enter scope) (enter scope) :=
  fun _ _ hs => .result (hs.enter scope).1 (hs.enter scope).2

theorem mirrors_lookup (scope : Scope) (name : String) :
    Mirrors R (Option.Rel (Value.Matches R)) (read (·.lookup scope name))
      (read (·.lookup scope name)) :=
  fun _ _ hs => .result (hs.lookup scope name) hs

theorem mirrors_resolve (scope : Scope) (name : String) :
    Mirrors R (Value.Matches R) (resolve scope name) (resolve scope name) := by
  intro s t hs
  have hlookup := hs.lookup scope name
  unfold resolve
  generalize s.lookup scope name = v? at hlookup
  generalize t.lookup scope name = w? at hlookup
  cases hlookup with
  | none => exact .failure ⟨rfl, R.none⟩ hs
  | some hv => exact .result hv hs

end Action

/-! ## Actions on the heap -/

namespace HeapAction

open TinyLisp.Action (Mirrors)

variable {P : α → β → Prop} {Q : γ → δ → Prop} {x : HeapAction α}
  {y : HeapAction β} {v w : Value} {vs ws : List Value}

theorem Mirrors.lift_bind {f : α → HeapAction γ} {g : β → HeapAction δ}
    (h : (lift x).Mirrors R P (lift y))
    (hfg : ∀ a b, P a b → (lift (f a)).Mirrors R Q (lift (g b))) :
    (lift (x >>= f)).Mirrors R Q (lift (y >>= g)) := by
  rw [HeapAction.lift_bind, HeapAction.lift_bind]
  exact h.bind hfg

/-- A result that both actions share. -/
theorem Mirrors.lift_bind_eq {x y : HeapAction α} {f : α → HeapAction γ}
    {g : α → HeapAction δ} (h : (lift x).Mirrors R Eq (lift y))
    (hfg : ∀ a, (lift (f a)).Mirrors R Q (lift (g a))) :
    (lift (x >>= f)).Mirrors R Q (lift (y >>= g)) :=
  Mirrors.lift_bind h fun a _ hab => hab ▸ hfg a

theorem mirrors_pure {a : α} {b : β} (h : P a b) :
    (lift (pure a)).Mirrors R P (lift (pure b)) :=
  Action.mirrors_pure h

theorem mirrors_fail (f : Fault) :
    (lift (fail f : HeapAction α)).Mirrors R P (lift (fail f : HeapAction β)) :=
  Action.mirrors_fail f

theorem mirrors_ofExcept {u : Except Fault α} {v : Except Fault β}
    (h : Concur Eq P u v) :
    (lift (ofExcept u)).Mirrors R P (lift (ofExcept v)) := by
  cases h with
  | ok hab => exact mirrors_pure hab
  | error he => exact he ▸ mirrors_fail _

theorem mirrors_freshId : (lift freshId).Mirrors R Eq (lift freshId) :=
  fun _ _ hs => .result hs.heap.nextId
    ⟨hs.frames, hs.heap.cells, hs.heap.buffers, congrArg (· + 1) hs.heap.nextId,
      hs.heap.output, hs.heap.journal⟩

theorem mirrors_newCell (h : v.Matches R w) :
    (lift (newCell v)).Mirrors R Eq (lift (newCell w)) := by
  refine fun s t hs =>
    .result hs.heap.cells.length_eq ⟨hs.frames, ?_, hs.heap.buffers,
      hs.heap.nextId, hs.heap.output, hs.heap.journal⟩
  rw [Array.toList_push, Array.toList_push]
  exact List.rel_append hs.heap.cells (.cons h .nil)

theorem mirrors_readCell (cell : CellId) :
    (lift (readCell cell)).Mirrors R (Value.Matches R)
      (lift (readCell cell)) := by
  refine fun s t hs => .result (Value.matches_getD ?_ .nil) hs
  rw [← Array.getElem?_toList, ← Array.getElem?_toList]
  exact Value.rel_getElem? hs.heap.cells cell

theorem mirrors_writeCell (cell : CellId) (h : v.Matches R w) :
    (lift (writeCell cell v)).Mirrors R Eq (lift (writeCell cell w)) := by
  refine fun s t hs =>
    .result rfl ⟨hs.frames, ?_, hs.heap.buffers, hs.heap.nextId,
      hs.heap.output, hs.heap.journal⟩
  rw [Array.toList_setIfInBounds, Array.toList_setIfInBounds]
  exact forall₂_set h hs.heap.cells cell

theorem mirrors_newBuffer (text : String) :
    (lift (newBuffer text)).Mirrors R Eq (lift (newBuffer text)) :=
  fun _ _ hs => .result (congrArg Array.size hs.heap.buffers)
    ⟨hs.frames, hs.heap.cells, congrArg (·.push text) hs.heap.buffers,
      hs.heap.nextId, hs.heap.output, hs.heap.journal⟩

theorem mirrors_readBuffer (id : Nat) :
    (lift (readBuffer id)).Mirrors R Eq (lift (readBuffer id)) :=
  fun _ _ hs => .result (congrArg (·[id]?.getD "") hs.heap.buffers) hs

theorem mirrors_appendBuffer (id : Nat) (text : String) :
    (lift (appendBuffer id text)).Mirrors R Eq (lift (appendBuffer id text)) :=
  fun _ _ hs => .result rfl
    ⟨hs.frames, hs.heap.cells,
      congrArg (·.modify id (· ++ text)) hs.heap.buffers, hs.heap.nextId,
      hs.heap.output, hs.heap.journal⟩

theorem mirrors_print (text : String) :
    (lift (print text)).Mirrors R Eq (lift (print text)) :=
  fun _ _ hs => .result rfl
    ⟨hs.frames, hs.heap.cells, hs.heap.buffers, hs.heap.nextId,
      congrArg (· ++ text) hs.heap.output, hs.heap.journal⟩

theorem mirrors_note (line : String) :
    (lift (note line)).Mirrors R Eq (lift (note line)) :=
  fun _ _ hs => .result rfl
    ⟨hs.frames, hs.heap.cells, hs.heap.buffers, hs.heap.nextId, hs.heap.output,
      congrArg (·.push line) hs.heap.journal⟩

theorem mirrors_render (readable : Bool) (h : v.Matches R w) :
    (lift (render readable v)).Mirrors R Eq (lift (render readable w)) :=
  fun _ _ hs => .result (h.render_eq hs.heap.cells readable) hs

theorem mirrors_renderAll (readable : Bool) (h : AllMatch R vs ws) :
    (lift (renderAll readable vs)).Mirrors R Eq (lift (renderAll readable ws)) :=
  fun _ _ hs => .result
    (Value.map_text_eq (fun _ _ hvw => hvw.render_eq hs.heap.cells readable) h) hs

end HeapAction

end TinyLisp
