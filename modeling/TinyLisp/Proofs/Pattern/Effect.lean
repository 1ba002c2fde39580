import TinyLisp.Proofs.Pattern.Targets
import TinyLisp.Proofs.Store.Bindings

/-!
# What binding a pattern comes to

Binding a valid pattern whose defaults have fixed values does one of two
things, and which one depends on the pattern and the value alone. If every
pattern in it meets a value that it can take apart, the variables are bound one
after the other and nothing else happens; otherwise binding fails. `Realizes`
says this of an action.

The entries of a map pattern come in the order in which its trie is walked. A
`Binder` binds like `bind` but goes through the entries of each map in an order
of its own, so what holds of every binder does not depend on that order. The run
of a binder is a walk over the targets of the pattern, `exists_tasks`, and from
the targets to the whole it goes by induction.
-/

namespace TinyLisp.Pattern

/-! ## Actions that bind variables or fail -/

/-- If the condition holds, the action binds variables of these names to values
as `binds` has them, and does nothing else. If it does not, the action fails. -/
def Realizes (scope : Scope) (x : Action Unit) (fits : Prop)
    (names : List String) (binds : String → Value → Prop) : Prop :=
  (fits ∧ ∃ bs, (bs.map Prod.fst).Perm names ∧ (∀ n w, (n, w) ∈ bs ↔ binds n w) ∧
    ∀ s, x s = .result () (s.bindAll scope bs)) ∨
  (¬ fits ∧ ∀ s, ∃ e t, x s = .failure e t)

section

variable {scope : Scope} {x y : Action Unit} {fits fits' : Prop}
  {names names' : List String} {binds binds' : String → Value → Prop}

theorem realizes_pure : Realizes scope (pure ()) True [] fun _ _ => False :=
  .inl ⟨trivial, [], .nil, fun _ _ => List.mem_nil_iff _, fun _ => rfl⟩

theorem realizes_define (name : String) (v : Value) :
    Realizes scope (Action.define scope name v) True [name] fun n w =>
      n = name ∧ w = v := by
  refine .inl ⟨trivial, [(name, v)], .refl _, fun n w => ?_, fun _ => rfl⟩
  rw [List.mem_singleton, Prod.mk.injEq]

theorem realizes_fail (fault : Fault) (h : ¬ fits) :
    Realizes scope (Action.fail fault) fits names binds :=
  .inr ⟨h, fun s => ⟨_, s, rfl⟩⟩

theorem Realizes.bind (hx : Realizes scope x fits names binds)
    (hy : Realizes scope y fits' names' binds') :
    Realizes scope (x >>= fun _ => y) (fits ∧ fits') (names ++ names')
      fun n w => binds n w ∨ binds' n w := by
  rcases hx with ⟨hfits, bs, hnames, hbinds, hrun⟩ | ⟨hfits, hrun⟩
  · rcases hy with ⟨hfits', cs, hnames', hbinds', hrun'⟩ | ⟨hfits', hrun'⟩
    · refine .inl ⟨⟨hfits, hfits'⟩, bs ++ cs, ?_, fun n w => ?_, fun s => ?_⟩
      · rw [List.map_append]
        exact hnames.append hnames'
      · rw [List.mem_append, hbinds, hbinds']
      · rw [Action.bind_of_result (hrun s), hrun', Store.bindAll_append]
    · refine .inr ⟨fun h => hfits' h.2, fun s => ?_⟩
      rw [Action.bind_of_result (hrun s)]
      exact hrun' _
  · refine .inr ⟨fun h => hfits h.1, fun s => ?_⟩
    obtain ⟨e, t, hfail⟩ := hrun s
    exact ⟨e, t, Action.bind_of_failure hfail⟩

theorem Realizes.congr (h : Realizes scope x fits names binds)
    (hfits : fits ↔ fits') (hnames : names.Perm names')
    (hbinds : ∀ n w, binds n w ↔ binds' n w) :
    Realizes scope x fits' names' binds' := by
  rcases h with ⟨h, bs, hperm, hmem, hrun⟩ | ⟨h, hrun⟩
  · exact .inl ⟨hfits.mp h, bs, hperm.trans hnames,
      fun n w => (hmem n w).trans (hbinds n w), hrun⟩
  · exact .inr ⟨fun h' => h (hfits.mpr h'), hrun⟩

theorem Realizes.forM {α : Type} {f : α → Action Unit} {fits : α → Prop}
    {names : α → List String} {binds : α → String → Value → Prop} {xs : List α}
    (h : ∀ x ∈ xs, Realizes scope (f x) (fits x) (names x) (binds x)) :
    Realizes scope (xs.forM f) (∀ x ∈ xs, fits x) (xs.flatMap names)
      fun n w => ∃ x ∈ xs, binds x n w := by
  induction xs with
  | nil => exact realizes_pure.congr (by simp) (.refl _) (by simp)
  | cons x xs ih =>
      obtain ⟨hx, hxs⟩ := List.forall_mem_cons.mp h
      exact (hx.bind (ih hxs)).congr List.forall_mem_cons.symm (.refl _)
        fun n w => by simp

end

section

variable {scope : Scope} {x : Action Unit} {fits : Prop} {names : List String}
  {binds : String → Value → Prop} (h : Realizes scope x fits names binds)
  (s : Store)
include h

theorem Realizes.succeeds_iff : (∃ t, x s = .result () t) ↔ fits := by
  rcases h with ⟨hfits, bs, -, -, hrun⟩ | ⟨hfits, hrun⟩
  · exact ⟨fun _ => hfits, fun _ => ⟨_, hrun s⟩⟩
  · refine ⟨fun ⟨t, ht⟩ => ?_, fun h => absurd h hfits⟩
    obtain ⟨e, u, hfail⟩ := hrun s
    rw [ht] at hfail
    cases hfail

theorem Realizes.fails_iff : (∃ e t, x s = .failure e t) ↔ ¬ fits := by
  rcases h with ⟨hfits, bs, -, -, hrun⟩ | ⟨hfits, hrun⟩
  · refine ⟨fun ⟨e, t, ht⟩ => ?_, fun h => absurd hfits h⟩
    rw [hrun s] at ht
    cases ht
  · exact ⟨fun _ => hfits, fun _ => hrun s⟩

variable {s} {t : Store} (ht : x s = .result () t)
include ht

theorem Realizes.eq_bindAll : ∃ bs, (bs.map Prod.fst).Perm names ∧
    (∀ n w, (n, w) ∈ bs ↔ binds n w) ∧ t = s.bindAll scope bs := by
  rcases h with ⟨-, bs, hnames, hbinds, hrun⟩ | ⟨-, hrun⟩
  · exact ⟨bs, hnames, hbinds, (Outcome.result.inj (ht.symm.trans (hrun s))).2⟩
  · obtain ⟨e, u, hfail⟩ := hrun s
    rw [ht] at hfail
    cases hfail

theorem Realizes.heap_eq : t.heap = s.heap := by
  obtain ⟨bs, -, -, rfl⟩ := h.eq_bindAll ht
  exact Store.heap_bindAll s bs

theorem Realizes.exists_binds {name : String} (hname : name ∈ names) :
    ∃ v, binds name v := by
  obtain ⟨bs, hnames, hbinds, -⟩ := h.eq_bindAll ht
  obtain ⟨b, hb, rfl⟩ := List.mem_map.mp (hnames.mem_iff.mpr hname)
  exact ⟨b.2, (hbinds b.1 b.2).mp hb⟩

theorem Realizes.binding_of_ne {f : FrameId} {name : String}
    (hne : f = scope.here → name ∉ names) :
    t.binding f name = s.binding f name := by
  obtain ⟨bs, hnames, -, rfl⟩ := h.eq_bindAll ht
  exact Store.binding_bindAll_of_ne fun hf hmem =>
    hne hf (hnames.mem_iff.mp hmem)

theorem Realizes.binding_eq (hs : scope.here < s.frames.size)
    (hdistinct : names.Nodup) {name : String} {v : Value} (hv : binds name v) :
    t.binding scope.here name = some v := by
  obtain ⟨bs, hnames, hbinds, rfl⟩ := h.eq_bindAll ht
  exact Store.binding_bindAll_of_mem hs (hnames.nodup_iff.mpr hdistinct)
    ((hbinds name v).mpr hv)

/-- Two actions that bind the same leave stores behind that no
lookup tells apart. -/
theorem Realizes.same {y : Action Unit} {u : Store}
    (h' : Realizes scope y fits names binds) (hu : y s = .result () u)
    (hs : scope.here < s.frames.size) (hdistinct : names.Nodup) :
    t.heap = u.heap ∧ ∀ f name, t.binding f name = u.binding f name := by
  refine ⟨(h.heap_eq ht).trans (h'.heap_eq hu).symm, fun f name => ?_⟩
  by_cases hname : f = scope.here ∧ name ∈ names
  · obtain ⟨rfl, hname⟩ := hname
    obtain ⟨w, hw⟩ := h.exists_binds ht hname
    rw [h.binding_eq ht hs hdistinct hw, h'.binding_eq hu hs hdistinct hw]
  · have hne : f = scope.here → name ∉ names := fun hf hmem => hname ⟨hf, hmem⟩
    rw [h.binding_of_ne ht hne, h'.binding_of_ne hu hne]

end

/-! ## Targets one by one -/

section

variable {eval : Evaluate} {scope : Scope} {bind : Value → Value → Action Unit}

/-- Bind one target to a value, given how patterns are bound. -/
def runTask (bind : Value → Value → Action Unit) (scope : Scope) :
    Target × Value → Action Unit
  | (.name n, v) => Action.define scope n v
  | (.pattern q, v) => bind q v

/-- The targets of several elements, the first of which stands at the position
`i`, with what they get. -/
def elementTasks (v : Value) (items : List Value) :
    Nat → List Element → List (Target × Value)
  | _, [] => []
  | i, e :: es =>
    (e.target, e.value v items i) :: elementTasks v items (i + positions [e]) es

theorem map_fst_elementTasks (v : Value) (items : List Value) (i : Nat)
    (es : List Element) :
    (elementTasks v items i es).map Prod.fst = es.map Element.target := by
  induction es generalizing i with
  | nil => rfl
  | cons e es ih => rw [elementTasks, List.map_cons, List.map_cons, ih]

theorem positions_cons (e : Element) (es : List Element) :
    positions (e :: es) = positions [e] + positions es := by
  rw [positions, positions, positions, ← List.singleton_append,
    List.countP_append]

theorem mem_elementTasks {v : Value} {items : List Value} {i : Nat}
    {es : List Element} {t : Target} {u : Value} :
    (t, u) ∈ elementTasks v items i es ↔
      ∃ before e after, es = before ++ e :: after ∧
        (t, u) = (e.target, e.value v items (i + positions before)) := by
  induction es generalizing i with
  | nil => simp [elementTasks]
  | cons d es ih =>
      rw [elementTasks, List.mem_cons, ih]
      constructor
      · rintro (h | ⟨before, e, after, rfl, h⟩)
        · exact ⟨[], d, es, rfl, h⟩
        · refine ⟨d :: before, e, after, rfl, ?_⟩
          rw [positions_cons, ← Nat.add_assoc, h]
      · rintro ⟨before, e, after, heq, h⟩
        cases before with
        | nil =>
            obtain ⟨rfl, rfl⟩ := List.cons.inj heq
            exact .inl h
        | cons b before =>
            obtain ⟨rfl, rfl⟩ := List.cons.inj heq
            refine .inr ⟨before, e, after, rfl, ?_⟩
            rw [h, positions_cons, Nat.add_assoc]

/-- Behind the rest only names for the whole value follow, which no
items matter to. -/
theorem bindItems_after_rest {tail : List Value} (h : endsAfterRest tail = true)
    (v : Value) (items : List Value) (i : Nat) :
    bindItems bind scope v tail [] =
      (elementTasks v items i (elements tail)).forM (runTask bind scope) := by
  match tail, h with
  | [], _ => rfl
  | [marker, .symbol name span], h =>
      obtain rfl := eq_keyword_of_isKeyword h
      rw [bindItems_whole, elements_whole]
      rfl

theorem bindItems_eq {check : Value → Except Fault Unit} {ps : List Value}
    (hps : checkItems check ps = .ok ()) (v : Value) (items : List Value)
    (i : Nat) :
    bindItems bind scope v ps (items.drop i) =
      (elementTasks v items i (elements ps)).forM (runTask bind scope) := by
  induction ps using items_induct generalizing i with
  | nil => rfl
  | whole name span ps ih =>
      rw [checkItems_whole] at hps
      rw [bindItems_whole, elements_whole, ih hps]
      rfl
  | rest span p tail hends ih =>
      rw [bindItems_rest span p hends, elements_rest,
        bindItems_after_rest hends v items i]
      rfl
  | item p ps has hamp ih =>
      rw [checkItems_item has hamp, bind_eq_ok_iff] at hps
      rw [bindItems_item has hamp, elements_item has hamp,
        List.tail_drop, ih hps.2, List.headD_eq_head?_getD, List.head?_drop]
      rfl
  | refused ps fault hrefused =>
      rw [hrefused.checkItems_eq] at hps
      cases hps

/-! ## Entries of maps -/

section

variable {m entries : ValueMap} {val : Value → Option String → Value}
  {v : Value} {e : Value × Value}

theorem fetch_eq {defaults : Option ValueMap} (h : defaultsOf m = .ok defaults)
    (key : Value) (name? : Option String) :
    fetch eval scope entries defaults key name? =
      match ValueMap.lookup entries key, default? m name? with
      | some u, _ => pure u
      | none, some d => eval d scope
      | none, none => pure .nil := by
  unfold fetch
  cases ValueMap.lookup entries key with
  | some u => rfl
  | none =>
      unfold defaultsOf at h
      unfold default?
      split at h
      · next ds span hget =>
          obtain rfl := Except.ok.inj h
          cases name? with
          | none => simp only [hget]
          | some name =>
              simp only [hget]
              cases ValueMap.lookup ds (.symbol name none) <;> rfl
      · cases h
      · next hget =>
          obtain rfl := Except.ok.inj h
          cases name? <;> simp only [hget]

/-- Where defaults have fixed values, fetching is looking up. -/
theorem exists_fetched {defaults : Option ValueMap}
    (h : defaultsOf m = .ok defaults)
    (hfixed : ∀ name? d, default? m name? = some d → ∃ w, Fixed eval d w)
    (key : Value) (name? : Option String) :
    ∃ u, fetch eval scope entries defaults key name? = pure u ∧
      ∀ w, Fetched (Fixed eval) m entries key name? w ↔ w = u := by
  rw [fetch_eq h]
  unfold Fetched
  cases ValueMap.lookup entries key with
  | some found => exact ⟨found, rfl, fun _ => .rfl⟩
  | none =>
      cases hd : default? m name? with
      | some d =>
          obtain ⟨u, hu⟩ := hfixed name? d hd
          have hworth (w : Value) : Fixed eval d w ↔ w = u :=
            ⟨fun hw => hw.unique hu, fun hw => hw ▸ hu⟩
          exact ⟨u, funext fun s => hu scope s, hworth⟩
      | none => exact ⟨.nil, rfl, fun _ => .rfl⟩

/-- The targets of an entry with what they get, given what is found
under a key. -/
def entryTasks (val : Value → Option String → Value) (v : Value)
    (e : Value × Value) : List (Target × Value) :=
  match role e.1 with
  | .names n => ((names? e.2).getD []).map fun name =>
      (.name name, val (n.source name) (some name))
  | .whole => e.2.symbolName?.toList.map fun name => (.name name, v)
  | .defaults => []
  | .target pattern => [(.pattern pattern, val e.2 pattern.symbolName?)]

theorem map_fst_entryTasks (val : Value → Option String → Value) (v : Value)
    (e : Value × Value) :
    (entryTasks val v e).map Prod.fst = entryTargets e := by
  unfold entryTasks entryTargets
  cases role e.1 with
  | names n => exact List.map_map
  | whole => exact List.map_map
  | defaults => rfl
  | target pattern => rfl

theorem mem_entryTasks
    (hval : ∀ key name? w, Fetched (Fixed eval) m entries key name? w ↔
      w = val key name?)
    {t : Target} {u : Value} :
    (t, u) ∈ entryTasks val v e ↔ EntryGives eval m entries v e t u := by
  unfold entryTasks
  constructor
  · intro h
    cases hrole : role e.1 with
    | names n =>
        simp only [hrole] at h
        obtain ⟨name, hname, heq⟩ := List.mem_map.mp h
        obtain ⟨rfl, rfl⟩ := Prod.mk.inj heq
        cases hnames : names? e.2 with
        | none => rw [hnames] at hname; cases hname
        | some names =>
            rw [hnames] at hname
            exact .listed hrole hnames hname ((hval _ _ _).mpr rfl)
    | whole =>
        simp only [hrole] at h
        obtain ⟨name, hname, heq⟩ := List.mem_map.mp h
        obtain ⟨rfl, rfl⟩ := Prod.mk.inj heq
        exact .whole hrole (Option.mem_toList.mp hname)
    | defaults => simp only [hrole] at h; cases h
    | target pattern =>
        simp only [hrole] at h
        obtain ⟨rfl, rfl⟩ := Prod.mk.inj (List.mem_singleton.mp h)
        exact .target hrole ((hval _ _ _).mpr rfl)
  · intro h
    cases h with
    | listed hrole hnames hname hu =>
        rw [hrole, hnames, (hval _ _ _).mp hu]
        exact List.mem_map_of_mem hname
    | whole hrole hname =>
        rw [hrole, hname]
        exact List.mem_singleton_self _
    | target hrole hu =>
        rw [hrole, (hval _ _ _).mp hu]
        exact List.mem_singleton_self _

variable {get : Value → Option String → Action Value}

theorem bindNames_eq (hget : ∀ key name?, get key name? = pure (val key name?))
    (n : Naming) {vs : List Value} {names : List String}
    (h : vs.mapM Value.symbolName? = some names) :
    bindNames get scope n vs =
      (names.map fun name => (.name name, val (n.source name) (some name))).forM
        (runTask bind scope) := by
  induction vs generalizing names with
  | nil =>
      obtain rfl := Option.some.inj h
      rfl
  | cons x vs ih =>
      rw [List.mapM_cons] at h
      obtain ⟨name, hname, h⟩ := Option.bind_eq_some_iff.mp h
      obtain ⟨rest, hrest, h⟩ := Option.bind_eq_some_iff.mp h
      obtain rfl := Option.some.inj h
      rw [bindNames, hname]
      simp only [hget, pure_bind, ih hrest]
      rfl

theorem bindEntry_eq {check : Value → Except Fault Unit}
    (he : checkEntry check e = .ok ())
    (hget : ∀ key name?, get key name? = pure (val key name?)) :
    bindEntry bind get scope v e =
      (entryTasks val v e).forM (runTask bind scope) := by
  unfold checkEntry at he
  unfold bindEntry entryTasks
  cases hrole : role e.1 with
  | names n =>
      simp only [hrole] at he ⊢
      split at he
      · next hsome =>
          obtain ⟨items, span, hvector, -⟩ := names?_isSome_iff.mp hsome
          obtain ⟨names, hnames⟩ := Option.isSome_iff_exists.mp hsome
          rw [hnames]
          rw [hvector] at hnames ⊢
          exact bindNames_eq hget n hnames
      · cases he
  | whole =>
      simp only [hrole] at he ⊢
      cases hname : e.2.symbolName? with
      | none => rw [hname] at he; cases he
      | some name => rfl
  | defaults => rfl
  | target pattern =>
      simp only [hget, pure_bind]
      exact (bind_pure (bind pattern _)).symm

end

/-! ## One step -/

/-- One step of binding that goes through the entries of a map in an order
of its own. -/
def bindStepBy (order : Value → ValueMap → List (Value × Value))
    (eval : Evaluate) (scope : Scope) (bind : Value → Value → Action Unit)
    (p v : Value) : Action Unit :=
  match shape p with
  | .name name => Action.define scope name v
  | .sequence ps => do
    bindItems bind scope v ps (← Action.ofExcept (itemsOf v))
  | .associative m => do
    let entries ← Action.ofExcept (entriesOf v)
    let defaults ← Action.ofExcept (defaultsOf m)
    (order v m).forM (bindEntry bind (fetch eval scope entries defaults) scope v)
  | .other typeName => Action.fail (notAPattern typeName)

theorem forM_flatMap {α β : Type} {f : β → Action Unit} {g : α → List β}
    {xs : List α} : (xs.flatMap g).forM f = xs.forM fun x => (g x).forM f := by
  induction xs with
  | nil => rfl
  | cons x xs ih =>
      rw [List.flatMap_cons, List.forM_eq_forM, List.forM_append,
        ← List.forM_eq_forM, ih]
      rfl

theorem bindStepBy_of_not_fits (eval : Evaluate) (scope : Scope)
    (bind : Value → Value → Action Unit) {p v : Value}
    (order : Value → ValueMap → List (Value × Value)) (h : ¬ Fits p v) :
    ∃ fault, bindStepBy order eval scope bind p v = Action.fail fault := by
  unfold Fits at h
  unfold bindStepBy
  cases hs : shape p with
  | name n => simp [hs] at h
  | other t => exact ⟨_, rfl⟩
  | sequence ps =>
      simp only [hs] at h ⊢
      cases hv : itemsOf v with
      | ok items => exact absurd ⟨items, hv⟩ h
      | error fault => exact ⟨fault, rfl⟩
  | associative m =>
      simp only [hs] at h ⊢
      cases hv : entriesOf v with
      | ok entries => exact absurd ⟨entries, hv⟩ h
      | error fault => exact ⟨fault, rfl⟩

theorem hasDefault_of_default? {p d : Value} {m : ValueMap}
    (hp : shape p = .associative m) {name? : Option String}
    (h : default? m name? = some d) : HasDefault p d := by
  unfold default? at h
  split at h
  · next defaults span name hor => exact .here hp hor h
  · cases h

/-- One step of binding is a walk over the targets of the pattern. The order of
the entries shows in the order of this walk and nowhere else. -/
theorem exists_tasks (scope : Scope) (bind : Value → Value → Action Unit)
    {p v : Value} {order : Value → ValueMap → List (Value × Value)}
    (horder : ∀ v m, (order v m).Perm m.entries) (hp : validate p = .ok ())
    (hfixed : ∀ d, HasDefault p d → ∃ w, Fixed eval d w) (hfits : Fits p v) :
    ∃ ts : List (Target × Value),
      bindStepBy order eval scope bind p v = ts.forM (runTask bind scope) ∧
      (ts.map Prod.fst).Perm (targets p) ∧ ∀ t u, (t, u) ∈ ts ↔
        Gives eval p v t u := by
  rw [validate_eq, validateStep] at hp
  unfold Fits at hfits
  unfold bindStepBy targets
  cases hs : shape p with
  | name n =>
      refine ⟨[(.name n, v)], rfl, .refl _, fun t u => ?_⟩
      rw [gives_of_name hs, List.mem_singleton, Prod.mk.injEq]
  | other t => simp [hs] at hfits
  | sequence ps =>
      simp only [hs] at hp hfits ⊢
      obtain ⟨items, hv⟩ := hfits
      refine ⟨elementTasks v items 0 (elements ps), ?_, ?_, fun t u => ?_⟩
      · rw [hv]
        exact bindItems_eq hp v items 0
      · rw [map_fst_elementTasks]
      · simp only [gives_of_sequence hs hv, mem_elementTasks, Nat.zero_add]
  | associative m =>
      simp only [hs] at hp hfits ⊢
      rw [forM_eq_ok_iff] at hp
      obtain ⟨entries, hv⟩ := hfits
      obtain ⟨defaults, hdefaults⟩ : ∃ defaults,
          defaultsOf m = .ok defaults := by
        cases hd : defaultsOf m with
        | ok defaults => exact ⟨defaults, rfl⟩
        | error fault => exact absurd hd (defaultsOf_ne_error hp fault)
      have hget : ∀ key name?,
          ∃ u, fetch eval scope entries defaults key name? = pure u ∧
          ∀ w, Fetched (Fixed eval) m entries key name? w ↔ w = u :=
        exists_fetched hdefaults fun name? d hd =>
          hfixed d (hasDefault_of_default? hs hd)
      choose val hfetch hval using hget
      have hmem (e : Value × Value) : e ∈ order v m ↔ e ∈ m.entries :=
        (horder v m).mem_iff
      refine ⟨(order v m).flatMap (entryTasks val v), ?_, ?_, fun t u => ?_⟩
      · rw [hv, hdefaults, forM_flatMap]
        exact forM_congr fun e he => bindEntry_eq (hp e ((hmem e).mp he)) hfetch
      · rw [List.map_flatMap]
        simp only [map_fst_entryTasks]
        exact (horder v m).flatMap_right _
      · simp only [gives_of_associative hs hv, List.mem_flatMap, hmem,
          mem_entryTasks hval]

end

/-! ## Binders -/

/-- `f` binds the pattern to the value it is given, going through the entries
of each map in some order. The order may be another one for each value, and in
each pattern inside. -/
inductive Binder (eval : Evaluate) (scope : Scope) :
    Value → (Value → Action Unit) → Prop where
  | step {p : Value} (order : Value → ValueMap → List (Value × Value))
      (horder : ∀ v m, (order v m).Perm m.entries)
      (bind : Value → Value → Action Unit)
      (hparts : ∀ q ∈ (shape p).parts, Binder eval scope q (bind q)) :
      Binder eval scope p (bindStepBy order eval scope bind p)

variable {eval : Evaluate} {scope : Scope} {p : Value} {f : Value → Action Unit}

theorem binder_bind (eval : Evaluate) (scope : Scope) (p : Value) :
    Binder eval scope p fun v => bind eval p v scope := by
  induction p using induct with
  | step p ih =>
      have hstep : (fun v => bind eval p v scope) =
          bindStepBy (fun _ m => m.entries) eval scope
            (fun q w => bind eval q w scope) p :=
        funext fun v => bind_eq p v
      rw [hstep]
      exact .step _ (fun _ _ => .refl _) _ ih

/-- Where defaults have fixed values, every binder of a valid pattern binds what
the pattern and the value say, or fails because they do not fit. -/
theorem Binder.realizes (hf : Binder eval scope p f) (hp : validate p = .ok ())
    (hfixed : ∀ d, HasDefault p d → ∃ w, Fixed eval d w) (v : Value) :
    Realizes scope (f v) (AllFit eval p v) (boundNames p) (Binds eval p v) := by
  induction hf generalizing v with
  | @step p order horder bind hparts ih =>
      by_cases hfits : Fits p v
      · obtain ⟨ts, hrun, htargets, hgives⟩ :=
          exists_tasks scope bind horder hp hfixed hfits
        have htask : ∀ x ∈ ts,
            Realizes scope (runTask bind scope x) (x.1.AllFit eval x.2)
            x.1.boundNames (x.1.Binds eval x.2) := by
          rintro ⟨t, u⟩ hx
          cases t with
          | name n => exact realizes_define n u
          | pattern q =>
              have hq := htargets.mem_iff.mp (List.mem_map_of_mem hx)
              have hpart := mem_parts_of_mem_targets hq
              have hfixed (d : Value) (hd : HasDefault q d) :=
                hfixed d (.part hpart hd)
              exact ih q hpart (validate_of_mem_targets hp hq) hfixed u
        -- The tasks come in the order of this binder, and what is said about
        -- them forgets it.
        rw [hrun]
        refine (Realizes.forM htask).congr ?_ ?_ fun n w => ?_
        · rw [allFit_iff]
          refine ⟨fun h => ⟨hfits, fun t u hg =>
            h (t, u) ((hgives t u).mpr hg)⟩, ?_⟩
          exact fun h x hx => h.2 x.1 x.2 ((hgives _ _).mp hx)
        · rw [boundNames_eq, ← List.flatMap_map]
          exact htargets.flatMap_right _
        · rw [binds_iff]
          refine ⟨fun ⟨x, hx, h⟩ => ⟨x.1, x.2, (hgives _ _).mp hx, h⟩, ?_⟩
          exact fun ⟨t, u, hg, h⟩ => ⟨(t, u), (hgives t u).mpr hg, h⟩
      · obtain ⟨fault, hfail⟩ :=
          bindStepBy_of_not_fits eval scope bind order hfits
        rw [hfail]
        exact realizes_fail fault fun h => hfits (allFit_iff.mp h).1

end TinyLisp.Pattern
