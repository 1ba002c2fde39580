import TinyLisp.Proofs.Eval.Attempt
import TinyLisp.Proofs.Pattern.Validity
import TinyLisp.Proofs.Value.Places

/-!
# Filling a template is substitution

The holes of a template are the lists headed by `unquote` that are reached
through lists and vectors. Inside a hole, and inside a map, nothing is a hole.
`holes` lists them from the left, each behind the path on which it is reached.

Filling walks through the template, evaluates what it finds in the holes on its
way and builds the result on the way back. Here the two are taken apart. The
effects are those of evaluating the arguments of all holes in a row, as
`Action.InStep` says; and what comes out is the template as data in which the
values have been put at the paths of the holes, one after the other. The values
themselves are not looked at: one that is headed by `unquote` is left alone.

Filling builds vectors anew, so all this is up to how the items of a vector are
divided between its two lists.
-/

namespace TinyLisp

namespace Value

/-! ## Holes -/

/-- `hole` is a list headed by `unquote`, and it is reached in the form by this
path, where each number picks an item of a list or a vector. None of these is
headed by `unquote` itself. -/
inductive HoleAt : Value → List Nat → Value → Prop where
  | here {v : Value} (h : v.isCallOf "unquote" = true) : HoleAt v [] v
  | item {v x hole : Value} {xs : List Value} {i : Nat} {path : List Nat}
      (h : v.isCallOf "unquote" = false) (hv : v.items? = some xs)
      (hi : xs[i]? = some x) (hx : HoleAt x path hole) :
      HoleAt v (i :: path) hole

/-- The hole has one argument, and this is it. -/
def Unquotes (hole arg : Value) : Prop :=
  ∃ head span, hole = .list [head, arg] span

theorem depth_lt_of_mem_itemsD {v x : Value} (h : x ∈ v.items?.getD []) :
    x.depth < v.depth := by
  cases hv : v.items? with
  | none =>
      rw [hv] at h
      cases h
  | some xs =>
      rw [hv] at h
      exact depth_lt_of_mem_items hv h

/-- The holes have one argument each, and these are the arguments. -/
def Arguments (args : List Value) (holes : List (List Nat × Value)) : Prop :=
  List.Forall₂ (fun arg h => Unquotes h.2 arg) args holes

/-- The holes of a form from the left, each behind its path. -/
def holes (v : Value) : List (List Nat × Value) :=
  if v.isCallOf "unquote" then [([], v)]
  else (v.items?.getD []).attach.zipIdx.flatMap fun x =>
    (holes x.1.1).map fun h => (x.2 :: h.1, h.2)
termination_by v.depth
decreasing_by exact depth_lt_of_mem_itemsD x.1.2

/-- The holes of several items, the first of which has the index `k`. -/
def holesFrom (k : Nat) (xs : List Value) : List (List Nat × Value) :=
  (xs.zipIdx k).flatMap fun x => x.1.holes.map fun h => (x.2 :: h.1, h.2)

theorem holes_eq (v : Value) :
    v.holes = if v.isCallOf "unquote" then [([], v)]
    else holesFrom 0 (v.items?.getD []) := by
  rw [holes]
  split
  · rfl
  · have hmap : (v.items?.getD []).attach.map (·.1) = v.items?.getD [] :=
      List.attach_map_subtype_val _
    rw [holesFrom]
    conv_rhs => rw [← hmap, List.zipIdx_map]
    rw [List.flatMap_map]
    rfl

@[simp]
theorem holesFrom_nil (k : Nat) : holesFrom k [] = [] := rfl

theorem holesFrom_cons (k : Nat) (x : Value) (xs : List Value) :
    holesFrom k (x :: xs) =
      (x.holes.map fun h => (k :: h.1, h.2)) ++ holesFrom (k + 1) xs := by
  rw [holesFrom, List.zipIdx_cons, List.flatMap_cons]
  rfl

theorem holes_of_call {v : Value} (h : v.isCallOf "unquote" = true) :
    v.holes = [([], v)] := by
  rw [holes_eq, if_pos h]

theorem holes_of_items {v : Value} {xs : List Value}
    (h : v.isCallOf "unquote" = false) (hv : v.items? = some xs) :
    v.holes = holesFrom 0 xs := by
  rw [holes_eq, if_neg (by simp [h]), hv]
  rfl

theorem holes_of_leaf {v : Value} (h : v.isCallOf "unquote" = false)
    (hv : v.items? = none) : v.holes = [] := by
  rw [holes_eq, if_neg (by simp [h]), hv]
  rfl

theorem mem_holesFrom {k : Nat} {xs : List Value} {path : List Nat}
    {hole : Value} :
    (path, hole) ∈ holesFrom k xs ↔
      ∃ i x rest, path = (k + i) :: rest ∧ xs[i]? = some x ∧
        (rest, hole) ∈ x.holes := by
  induction xs generalizing k with
  | nil => simp [holesFrom]
  | cons y ys ih =>
      rw [holesFrom_cons, List.mem_append, ih, List.mem_map]
      constructor
      · rintro (⟨h, hh, heq⟩ | ⟨i, x, rest, rfl, hi, hx⟩)
        · obtain ⟨rfl, rfl⟩ := Prod.mk.inj heq
          exact ⟨0, y, h.1, rfl, rfl, hh⟩
        · exact ⟨i + 1, x, rest,
            by rw [Nat.add_right_comm, Nat.add_assoc], hi, hx⟩
      · rintro ⟨i, x, rest, rfl, hi, hx⟩
        cases i with
        | zero =>
            obtain rfl := Option.some.inj hi
            exact .inl ⟨_, hx, rfl⟩
        | succ i =>
            exact .inr ⟨i, x, rest,
              by rw [Nat.add_right_comm, Nat.add_assoc], hi, hx⟩

/-- Induction over a form and the forms that are reached through
lists and vectors. -/
theorem items_induct {motive : Value → Prop}
    (step : ∀ v, (∀ xs, v.items? = some xs → ∀ x ∈ xs, motive x) → motive v)
    (v : Value) : motive v := by
  induction hd : v.depth using Nat.strongRecOn generalizing v with
  | ind d ih =>
      subst hd
      exact step v fun xs hv x hx =>
        ih x.depth (depth_lt_of_mem_items hv hx) x rfl

theorem mem_holes {v hole : Value} {path : List Nat} :
    (path, hole) ∈ v.holes ↔ HoleAt v path hole := by
  induction v using items_induct generalizing path with
  | step v ih =>
      cases hcall : v.isCallOf "unquote" with
      | true =>
          rw [holes_of_call hcall, List.mem_singleton]
          constructor
          · intro h
            obtain ⟨rfl, rfl⟩ := Prod.mk.inj h
            exact .here hcall
          · intro h
            cases h with
            | here _ => rfl
            | item h _ _ _ => rw [hcall] at h; cases h
      | false =>
          cases hv : v.items? with
          | none =>
              rw [holes_of_leaf hcall hv]
              refine iff_of_false List.not_mem_nil fun h => ?_
              cases h with
              | here h => rw [hcall] at h; cases h
              | item _ h _ _ => rw [hv] at h; cases h
          | some xs =>
              rw [holes_of_items hcall hv, mem_holesFrom]
              constructor
              · rintro ⟨i, x, rest, rfl, hi, hx⟩
                rw [Nat.zero_add]
                exact .item hcall hv hi
                  ((ih xs hv x (List.mem_of_getElem? hi)).mp hx)
              · intro h
                cases h with
                | here h => rw [hcall] at h; cases h
                | @item _ x _ _ i rest _ hv' hi hx =>
                    rw [hv] at hv'
                    obtain rfl := Option.some.inj hv'
                    exact ⟨i, x, rest, by rw [Nat.zero_add], hi,
                      (ih xs hv x (List.mem_of_getElem? hi)).mpr hx⟩

/-- The holes stand in the order of their paths. -/
theorem pairwise_holes (v : Value) : v.holes.Pairwise fun g h => g.1 < h.1 := by
  induction v using items_induct with
  | step v ih =>
      cases hcall : v.isCallOf "unquote" with
      | true => simp [holes_of_call hcall]
      | false =>
          cases hv : v.items? with
          | none => simp [holes_of_leaf hcall hv]
          | some xs =>
              rw [holes_of_items hcall hv]
              have ih := ih xs hv
              clear hv
              generalize 0 = k
              induction xs generalizing k with
              | nil => exact .nil
              | cons x xs ihxs =>
                  obtain ⟨hx, hxs⟩ := List.forall_mem_cons.mp ih
                  rw [holesFrom_cons, List.pairwise_append]
                  refine ⟨?_, ihxs hxs (k + 1), ?_⟩
                  · rw [List.pairwise_map]
                    exact hx.imp fun h =>
                      List.cons_lt_cons_iff.mpr (.inr ⟨rfl, h⟩)
                  · intro g hg h hh
                    obtain ⟨g, -, rfl⟩ := List.mem_map.mp hg
                    obtain ⟨i, _, rest, hpath, -, -⟩ := mem_holesFrom.mp hh
                    rw [hpath]
                    exact List.cons_lt_cons_iff.mpr (.inl (by omega))

/-- A value matches itself. -/
theorem matches_same (v : Value) : Matches .same v v :=
  matches_self v fun _ _ => rfl

/-! ## Replacing what stands at a path -/

/-- A list or vector with other items. -/
def withItems : Value → List Value → Value
  | list _ s, xs => list xs s
  | vector _ s, xs => vector (.ofList xs) s
  | v, _ => v

/-- The form with `w` in the place of what stands at a path. -/
def put : Value → List Nat → Value → Value
  | _, [], w => w
  | v, i :: path, w =>
    match v.items? with
    | some xs => v.withItems (xs.modify i (put · path w))
    | none => v

/-- The form with a value at each of several paths. -/
def putAll (v : Value) (ps : List (List Nat × Value)) : Value :=
  ps.foldl (fun v p => v.put p.1 p.2) v

section Items

variable {v : Value} {xs : List Value}

theorem items?_withItems (h : v.items? = some xs) (ys : List Value) :
    (v.withItems ys).items? = some ys := by
  cases v with
  | list _ _ => rfl
  | vector _ _ => rfl
  | _ => cases h

theorem withItems_toData (h : v.items? = some xs) (ys : List Value) :
    v.toData.withItems ys = v.withItems ys := by
  cases v with
  | list _ _ => rfl
  | vector _ _ => rfl
  | _ => cases h

theorem withItems_withItems (v : Value) (ys zs : List Value) :
    (v.withItems ys).withItems zs = v.withItems zs := by
  cases v <;> rfl

/-- What is put into the item with the index `i` changes this item. -/
theorem putAll_item (ps : List (List Nat × Value)) (h : v.items? = some xs)
    (i : Nat) :
    (v.putAll (ps.map fun p => (i :: p.1, p.2))).items? =
        some (xs.modify i (putAll · ps)) ∧
      ∀ ys, (v.putAll (ps.map fun p => (i :: p.1, p.2))).withItems ys =
        v.withItems ys := by
  induction ps generalizing v xs with
  | nil =>
      have hid : (putAll · []) = id := rfl
      rw [List.map_nil, hid, List.modify_id]
      exact ⟨h, fun _ => rfl⟩
  | cons p ps ih =>
      have hput : v.put (i :: p.1) p.2 =
          v.withItems (xs.modify i (put · p.1 p.2)) := by
        rw [put, h]
      have hitems : (v.put (i :: p.1) p.2).items? =
          some (xs.modify i (put · p.1 p.2)) := by
        rw [hput, items?_withItems h]
      obtain ⟨hitems, hwith⟩ := ih hitems
      rw [List.modify_modify_eq] at hitems
      refine ⟨hitems, fun ys => (hwith ys).trans ?_⟩
      rw [hput, withItems_withItems]

end Items

/-- Of several templates: the values of their holes, and the templates
with these filled. -/
inductive FilledAll : (templates values results : List Value) → Prop where
  | nil : FilledAll [] [] []
  | cons {x r : Value} {xs vs ws rs : List Value}
      (hlength : vs.length = x.holes.length)
      (hx : Matches .same (x.toData.putAll ((x.holes.map Prod.fst).zip vs)) r)
      (hxs : FilledAll xs ws rs) : FilledAll (x :: xs) (vs ++ ws) (r :: rs)

theorem matches_withItems {v : Value} {xs ys : List Value}
    (hv : v.items? = some xs) (h : AllMatch .same xs ys) :
    Matches .same v (v.withItems ys) := by
  cases v with
  | list _ s =>
      obtain rfl := Option.some.inj hv
      exact .list h rfl
  | vector _ s =>
      obtain rfl := Option.some.inj hv
      exact .vector h rfl
  | _ => cases hv

theorem modify_middle {α : Type} (f : α → α) (before : List α) (a : α)
    (after : List α) :
    (before ++ a :: after).modify before.length f = before ++ f a :: after := by
  induction before with
  | nil => rfl
  | cons b before ih => exact congrArg (b :: ·) ih

theorem zip_holesFrom {k : Nat} {x : Value} {xs vs ws : List Value}
    (h : vs.length = x.holes.length) :
    ((holesFrom k (x :: xs)).map Prod.fst).zip (vs ++ ws) =
      (((x.holes.map Prod.fst).zip vs).map fun p => (k :: p.1, p.2)) ++
        ((holesFrom (k + 1) xs).map Prod.fst).zip ws := by
  have hpaths : (x.holes.map fun h => (k :: h.1, h.2)).map Prod.fst =
      (x.holes.map Prod.fst).map (k :: ·) := by
    rw [List.map_map, List.map_map]
    rfl
  rw [holesFrom_cons, List.map_append, List.zip_append (by simp [h]), hpaths,
    List.zip_map_left]
  rfl

theorem FilledAll.length_eq {xs vs rs : List Value} (h : FilledAll xs vs rs)
    (k : Nat) : vs.length = (holesFrom k xs).length := by
  induction h generalizing k with
  | nil => rfl
  | cons hlength _ _ ih =>
      rw [holesFrom_cons, List.length_append, List.length_append,
        List.length_map, hlength, ih (k + 1)]

/-- Putting values into items one after the other gives what the items
are filled to. In front of these items there may be others that have
been filled before. -/
theorem FilledAll.matches {xs vs rs : List Value} (h : FilledAll xs vs rs)
    {v w : Value} {before after : List Value}
    (hv : v.items? = some (before ++ xs.map toData))
    (hw : ∀ ys, v.withItems ys = w.withItems ys)
    (hbefore : AllMatch .same before after) :
    Matches .same (v.putAll (((holesFrom before.length xs).map Prod.fst).zip vs))
      (w.withItems (after ++ rs)) := by
  induction h generalizing v before after with
  | nil =>
      rw [List.zip_nil_right, ← hw, List.append_nil]
      rw [List.map_nil, List.append_nil] at hv
      exact matches_withItems hv hbefore
  | @cons x r xs vs ws rs hlength hx hxs ih =>
      obtain ⟨hitems, hwith⟩ :=
        putAll_item ((x.holes.map Prod.fst).zip vs) hv before.length
      rw [List.map_cons, modify_middle, List.append_cons] at hitems
      have hrest := ih hitems (fun ys => (hwith ys).trans (hw ys))
        (List.rel_append hbefore (.cons hx .nil))
      rw [zip_holesFrom hlength, putAll, List.foldl_append]
      rw [List.length_append, List.append_assoc] at hrest
      exact hrest

end Value

/-! ## Two actions in step -/

variable {α β γ δ : Type}

/-- Both have ended in the same way and left the same store; results are
related by `P`. -/
inductive Outcome.InStep (P : α → β → Prop) : Outcome α → Outcome β → Prop where
  | result {a : α} {b : β} (h : P a b) (s : Store) :
      InStep P (.result a s) (.result b s)
  | failure (e : Failure) (s : Store) : InStep P (.failure e s) (.failure e s)
  | exhausted : InStep P .exhausted .exhausted

namespace Action

variable {P : α → β → Prop} {Q : γ → δ → Prop}

/-- On every store the actions end alike and leave the same store,
with related results. -/
def InStep (P : α → β → Prop) (x : Action α) (y : Action β) : Prop :=
  ∀ s, (x s).InStep P (y s)

theorem inStep_pure {a : α} {b : β} (h : P a b) : InStep P (pure a) (pure b) :=
  fun s => .result h s

theorem inStep_self (x : Action α) : InStep Eq x x := by
  intro s
  cases x s with
  | result a t => exact .result rfl t
  | failure e t => exact .failure e t
  | exhausted => exact .exhausted

theorem InStep.bind {x : Action α} {y : Action β} {f : α → Action γ}
    {g : β → Action δ} (h : InStep P x y)
    (hf : ∀ a b, P a b → InStep Q (f a) (g b)) :
    InStep Q (x >>= f) (y >>= g) := by
  intro s
  have hs := h s
  rw [bind_apply, bind_apply]
  generalize x s = o at hs
  generalize y s = o' at hs
  cases hs with
  | result hab t => exact hf _ _ hab t
  | failure e t => exact .failure e t
  | exhausted => exact .exhausted

theorem InStep.map_right {R : α → γ → Prop} {x : Action α} {y : Action β}
    {g : β → γ} (h : InStep P x y) (hg : ∀ a b, P a b → R a (g b)) :
    InStep R x (g <$> y) := by
  rw [map_eq_pure_bind, ← bind_pure x]
  exact h.bind fun a b hab => inStep_pure (hg a b hab)

theorem InStep.located {x : Action α} {y : Action β} (h : InStep P x y)
    (q : Option Span) : InStep P (located q x) (located q y) := by
  intro s
  have hs := h s
  unfold Action.located
  generalize x s = o at hs
  generalize y s = o' at hs
  cases hs with
  | result hab t => exact .result hab t
  | failure e t => exact .failure (e.locate q) t
  | exhausted => exact .exhausted

theorem each_congr {f g : α → Action β} {xs : List α}
    (h : ∀ x ∈ xs, f x = g x) : each f xs = each g xs := by
  induction xs with
  | nil => rfl
  | cons x xs ih =>
      rw [each, each, h x List.mem_cons_self, ih fun y hy =>
        h y (List.mem_cons_of_mem x hy)]

theorem Succeeds.of_each {f : α → Action β} {xs : List α}
    (h : (each f xs).Succeeds) : ∀ x ∈ xs, (f x).Succeeds := by
  induction xs with
  | nil => exact nofun
  | cons x xs ih =>
      obtain ⟨hx, _, hrest⟩ := Succeeds.of_bind h
      obtain ⟨hxs, -⟩ := hrest.of_bind
      exact List.forall_mem_cons.mpr ⟨hx, ih hxs⟩

end Action

namespace Evaluator

open Value (HoleAt Unquotes Arguments FilledAll holesFrom)
open TinyLisp.Action (InStep)

variable {ev : Evaluator} {scope : Scope} {form : Value}

/-! ## Filling in terms of itself -/

/-- One step of filling, given how items are filled. -/
def fillStep (ev : Evaluator) (scope : Scope) (fill : Value → Action Value)
    (form : Value) : Action Value :=
  if form.isCallOf "unquote" then
    match form.items? with
    | some [_, arg] => ev.eval arg scope
    | _ => Action.fail badHole
  else
    match form.items? with
    | some xs => form.withItems <$> Action.each fill xs
    | none => pure form.toData

theorem fillStep_congr {fill fill' : Value → Action Value}
    (h : ∀ x : Value, x.depth < form.depth → fill x = fill' x) :
    ev.fillStep scope fill form = ev.fillStep scope fill' form := by
  unfold fillStep
  split
  · rfl
  · split
    · next xs hxs =>
        rw [Action.each_congr fun x hx =>
          h x (Value.depth_lt_of_mem_items hxs hx)]
    · rfl

theorem fillWithin_succ (n : Nat) (form : Value) :
    ev.fillWithin scope (n + 1) form =
      ev.fillStep scope (ev.fillWithin scope n) form := by
  cases form with
  | list items span =>
      rw [fillWithin.eq_def, fillStep]
      dsimp only [Value.items?]
      split
      · rcases items with _ | ⟨_, _ | ⟨_, _ | _⟩⟩ <;> rfl
      · rfl
  | _ => rfl

/-- Two budgets that cover the form give the same action. -/
theorem fillWithin_congr {n m : Nat} (hn : form.depth ≤ n)
    (hm : form.depth ≤ m) :
    ev.fillWithin scope n form = ev.fillWithin scope m form := by
  induction n generalizing m form with
  | zero => have := form.depth_pos; omega
  | succ n ih =>
      have := form.depth_pos
      obtain ⟨k, rfl⟩ : ∃ k, m = k + 1 := ⟨m - 1, by omega⟩
      rw [fillWithin_succ, fillWithin_succ]
      exact fillStep_congr fun x hx => ih (by omega) (by omega)

theorem fill_eq (form : Value) :
    ev.fill scope form = ev.fillStep scope (ev.fill scope) form := by
  have := form.depth_pos
  obtain ⟨n, hn⟩ : ∃ n, form.depth = n + 1 := ⟨form.depth - 1, by omega⟩
  rw [fill, hn, fillWithin_succ]
  exact fillStep_congr fun x hx => fillWithin_congr (by omega) (Nat.le_refl _)

theorem fill_of_unquotes {arg : Value} (hcall : form.isCallOf "unquote" = true)
    (h : form.Unquotes arg) : ev.fill scope form = ev.eval arg scope := by
  rw [fill_eq, fillStep, if_pos hcall]
  obtain ⟨head, span, rfl⟩ := h
  rfl

theorem fill_of_not_unquotes (hcall : form.isCallOf "unquote" = true)
    (h : ∀ arg, ¬ form.Unquotes arg) :
    ev.fill scope form = Action.fail badHole := by
  rw [fill_eq, fillStep, if_pos hcall]
  split
  · next head arg hitems =>
      cases form with
      | list xs span =>
          obtain rfl := Option.some.inj hitems
          exact absurd ⟨head, span, rfl⟩ (h arg)
      | _ => cases hcall
  · rfl

theorem fill_of_items {xs : List Value}
    (hcall : form.isCallOf "unquote" = false) (h : form.items? = some xs) :
    ev.fill scope form = form.withItems <$> Action.each (ev.fill scope) xs := by
  rw [fill_eq, fillStep, if_neg (by simp [hcall]), h]

theorem fill_of_leaf (hcall : form.isCallOf "unquote" = false)
    (h : form.items? = none) : ev.fill scope form = pure form.toData := by
  rw [fill_eq, fillStep, if_neg (by simp [hcall]), h]

/-! ## Filling and evaluating -/

/-- What filling a template has to give for the values of its holes: the
template as data, with these values put where the holes are. -/
def Filled (t : Value) (vs : List Value) (r : Value) : Prop :=
  vs.length = t.holes.length ∧
    Value.Matches .same (t.toData.putAll ((t.holes.map Prod.fst).zip vs)) r

theorem fillAll_inStep {k : Nat} {xs args : List Value}
    (hfill : ∀ x ∈ xs, ∀ args, Arguments args x.holes →
      InStep (Filled x) (ev.evalAll scope args) (ev.fill scope x))
    (h : Arguments args (holesFrom k xs)) :
    InStep (FilledAll xs) (ev.evalAll scope args)
      (Action.each (ev.fill scope) xs) := by
  induction xs generalizing k args with
  | nil =>
      cases h
      exact Action.inStep_pure .nil
  | cons x xs ih =>
      obtain ⟨hx, hxs⟩ := List.forall_mem_cons.mp hfill
      rw [Value.holesFrom_cons] at h
      have hfirst :=
        List.forall₂_map_right_iff.mp (List.forall₂_take_append _ _ _ h)
      have hrest := List.forall₂_drop_append _ _ _ h
      rw [← List.take_append_drop (x.holes.map fun h =>
        (k :: h.1, h.2)).length args,
        evalAll_append, Action.each]
      refine (hx _ hfirst).bind fun vs r hr => ?_
      rw [map_eq_pure_bind]
      refine (ih hxs hrest).bind fun ws rs hrs => Action.inStep_pure ?_
      exact .cons hr.1 hr.2 hrs

/-- Filling a template is evaluating the arguments of its holes and putting
the values in. -/
theorem fill_inStep {t : Value} {args : List Value}
    (h : Arguments args t.holes) :
    InStep (Filled t) (ev.evalAll scope args) (ev.fill scope t) := by
  induction t using Value.items_induct generalizing args with
  | step t ih =>
      cases hcall : t.isCallOf "unquote" with
      | true =>
          rw [Value.holes_of_call hcall] at h
          obtain ⟨arg, _, harg, hnil, rfl⟩ := List.forall₂_cons_right_iff.mp h
          cases hnil
          rw [fill_of_unquotes hcall harg, ← bind_pure (ev.eval arg scope)]
          refine (Action.inStep_self _).bind fun v w hvw =>
            Action.inStep_pure ?_
          rw [Filled, Value.holes_of_call hcall, hvw]
          exact ⟨rfl, Value.matches_same w⟩
      | false => cases hitems : t.items? with
        | none =>
            rw [Value.holes_of_leaf hcall hitems] at h
            cases h
            rw [fill_of_leaf hcall hitems]
            refine Action.inStep_pure ?_
            rw [Filled, Value.holes_of_leaf hcall hitems]
            exact ⟨rfl, Value.matches_same t.toData⟩
        | some xs =>
            rw [Value.holes_of_items hcall hitems] at h
            rw [fill_of_items hcall hitems]
            refine (fillAll_inStep (fun x hx args => ih xs hitems x hx)
              h).map_right ?_
            intro vs rs hrs
            rw [Filled, Value.holes_of_items hcall hitems]
            exact ⟨hrs.length_eq 0, hrs.matches (Value.items?_toData hitems)
              (Value.withItems_toData hitems) .nil⟩

theorem not_succeeds_fill {t hole : Value} {path : List Nat}
    (h : HoleAt t path hole) (hbad : ∀ arg, ¬ hole.Unquotes arg) :
    ¬ (ev.fill scope t).Succeeds := by
  induction h with
  | here hcall =>
      rw [fill_of_not_unquotes hcall hbad]
      exact Action.not_succeeds_fail badHole
  | item hcall hitems hi _ ih =>
      intro hfill
      rw [fill_of_items hcall hitems, map_eq_pure_bind] at hfill
      exact ih hbad (hfill.of_bind.1.of_each _ (List.mem_of_getElem? hi))

end Evaluator

namespace Machine

open Value (HoleAt Unquotes Arguments)
open Evaluator (Filled fill_inStep not_succeeds_fill)

/-- A form that is over after one step. -/
theorem eval_finish {host : Host} {strategy : Strategy} {n : Nat} {form : Value}
    {scope : Scope} {x : Action Value}
    (h : (inner host strategy n).stepForm host form scope = Evaluator.finish x) :
    eval host strategy (n + 2) form scope = Action.located form.span x :=
  funext fun s => eval_of_finish (congrFun h s)

/-- The holes of a template are the lists headed by `unquote` that are reached
through lists and vectors, and `holes` has them in the order in which they
stand. If each has one argument, `quasiquote` does what evaluating these
arguments in a row does, and gives the template as data with their values in the
places of the holes. If some hole has not, there is no result. If there are no
holes at all, `quasiquote` gives what `quote` gives. -/
theorem quasiquote_fills (host : Host) (strategy : Strategy) (t : Value)
    (p q : Option Span) (scope : Scope) :
    let form : Value := .list [.symbol "quasiquote" p, t] q
    (t.holes.Pairwise fun g h => g.1 < h.1) ∧
    (∀ path hole, (path, hole) ∈ t.holes ↔ HoleAt t path hole) ∧
    (∀ args, Arguments args t.holes → ∀ n,
      Action.InStep (Filled t)
        (Action.located q ((inner host strategy n).evalAll scope args))
        (eval host strategy (n + 2) form scope)) ∧
    (∀ path hole, HoleAt t path hole → (∀ arg, ¬ hole.Unquotes arg) →
      ∀ n s r u, eval host strategy n form scope s ≠ .result r u) ∧
    ((∀ path hole, ¬ HoleAt t path hole) → ∀ n s,
      eval host strategy (n + 2) (.list [.symbol "quote" p, t] q) scope s =
          .result t.toData s ∧
        ∃ r, eval host strategy (n + 2) form scope s = .result r s ∧
          t.toData.Matches .same r) := by
  intro form
  have hform (n : Nat) : eval host strategy (n + 2) form scope =
      Action.located q ((inner host strategy n).fill scope t) := eval_finish rfl
  have hfill : ∀ args, Arguments args t.holes → ∀ n,
      Action.InStep (Filled t)
        (Action.located q ((inner host strategy n).evalAll scope args))
        (eval host strategy (n + 2) form scope) := by
    intro args hargs n
    rw [hform]
    exact (fill_inStep hargs).located q
  refine ⟨t.pairwise_holes, fun path hole => Value.mem_holes, hfill, ?_,
    fun hnone n s => ⟨?_, ?_⟩⟩
  · intro path hole hhole hbad n s r u h
    -- Evaluating a form takes a budget of two, so there is no result below
    -- that.
    obtain _ | _ | n := n
    · cases h
    · rw [eval_succ] at h
      obtain ⟨b, u, hstep, -⟩ := Action.bind_eq_result h
      cases hstep
    · rw [hform] at h
      exact not_succeeds_fill hhole hbad ⟨s, r, u, Action.located_eq_result h⟩
  · rw [eval_finish (x := Evaluator.quoteForm [t]) rfl]
    rfl
  · have hholes : t.holes = [] := by
      cases hh : t.holes with
      | nil => rfl
      | cons h hs =>
          exact absurd (Value.mem_holes.mp (hh ▸ List.mem_cons_self))
            (hnone h.1 h.2)
    have hstep := hfill [] (hholes ▸ .nil) n s
    have hall : Action.located q ((inner host strategy n).evalAll scope []) s =
        .result [] s := rfl
    rw [hall] at hstep
    generalize eval host strategy (n + 2) form scope s = o at hstep
    cases hstep with
    | result hr _ =>
        rw [Filled, hholes] at hr
        exact ⟨_, rfl, hr.2⟩

/-- The template is `[(unquote x) (quasiquote (unquote (def y x)))
{:k (unquote)} (unquote x)]`, and `x` is bound to a list that looks
like a hole itself. -/
theorem quasiquote_fills_nested :
    let root : Scope := ⟨0, []⟩
    let call (name : String) (args : List Value) : Value :=
      .list (.symbol name none :: args) none
    let x : Value := .symbol "x" none
    let define := call "def" [.symbol "y" none, x]
    let leaf : Value := .mapForm [(.keyword "k", call "unquote" [])] none
    let t : Value := .vectorOf
      [call "unquote" [x], call "quasiquote" [call "unquote" [define]], leaf,
        call "unquote" [x]]
    let s : Store := ⟨#[[("x", call "unquote" [])]], {}⟩
    Arguments [x, define, x] t.holes ∧
      (∃ r u, eval Host.standard .deferring 9 (call "quasiquote" [t]) root s =
        .result r u ∧
        Filled t [call "unquote" [], call "unquote" [], call "unquote" []] r ∧
        u.lookup root "y" = some (call "unquote" [])) ∧
      HoleAt (call "a" [call "unquote" []]) [1] (call "unquote" []) ∧
      (∀ r u, eval Host.standard .deferring 9
        (call "quasiquote" [call "a" [call "unquote" []]])
        root s ≠ .result r u) ∧
      (∀ path hole, ¬ HoleAt leaf path hole) ∧
      ∃ r, eval Host.standard .deferring 9 (call "quasiquote" [leaf]) root s =
          .result r s ∧
        leaf.toData.Matches .same r := by
  intro root call x define leaf t s
  have hholes : t.holes =
      [([0], call "unquote" [x]), ([1, 1], call "unquote" [define]),
      ([3], call "unquote" [x])] := by
    simp [t, leaf, call, define, x, Value.vectorOf, Value.holes_eq,
      Value.holesFrom_cons, Value.isCallOf, Value.items?, Value.isSymbol]
  have hargs : Arguments [x, define, x] t.holes := by
    rw [hholes]
    exact .cons ⟨_, _, rfl⟩ (.cons ⟨_, _, rfl⟩ (.cons ⟨_, _, rfl⟩ .nil))
  have hbad : HoleAt (call "a" [call "unquote" []]) [1] (call "unquote" []) :=
    .item rfl rfl rfl (.here rfl)
  have hleaf : ∀ path hole, ¬ HoleAt leaf path hole := by
    intro path hole h
    cases h with
    | here h => cases h
    | item _ h _ _ => cases h
  have law (t : Value) :=
    quasiquote_fills Host.standard .deferring t none none root
  refine ⟨hargs, ?_, hbad, fun r u => ?_, hleaf, ((law leaf).2.2.2.2 hleaf 7 s).2⟩
  · have hfilled := (law t).2.2.1 _ hargs 7 s
    have hall : Action.located none
        ((inner Host.standard .deferring 7).evalAll root [x, define, x])
        s = .result [call "unquote" [], call "unquote" [], call "unquote" []]
          ⟨#[[("y", call "unquote" []), ("x", call "unquote" [])]], {}⟩ := rfl
    rw [hall] at hfilled
    generalize eval Host.standard .deferring 9 (call "quasiquote" [t]) root s =
      o at hfilled
    cases hfilled with
    | result hr _ => exact ⟨_, _, rfl, hr, rfl⟩
  · exact (law _).2.2.2.1 _ _ hbad (by rintro arg ⟨_, _, h⟩; cases h) 9 s r u

end Machine

end TinyLisp
