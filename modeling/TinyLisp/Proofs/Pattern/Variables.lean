import TinyLisp.Proofs.Pattern.Effect

/-!
# What binding a pattern writes

The variables of a pattern stand in many places: a symbol is one, an element
of a vector names the whole value or holds a pattern, a map pattern lists
them, names the whole value or gives a part a new name. Binding writes to
these variables and to nothing else, and the only way not to write to one of
them is to fail.

Nothing is assumed of the pattern but that it has no default, since evaluating
one may do anything. So it may be malformed, and a list of variables then counts
as far as there are symbols in it. `Writes` says of an action what is needed of
its parts; a failure cuts it short wherever it comes.
-/

namespace TinyLisp.Pattern

/-! ## Variables -/

mutual

/-- The pattern has a variable of this name. -/
inductive HasVariable : Value → String → Prop where
  | name {p : Value} {n : String} (hp : shape p = .name n) : HasVariable p n
  | element {p : Value} {ps : List Value} {e : Element} {n : String}
      (hp : shape p = .sequence ps) (he : e ∈ elements ps)
      (h : ElementHas e n) : HasVariable p n
  | entry {p : Value} {m : ValueMap} {e : Value × Value} {n : String}
      (hp : shape p = .associative m) (he : e ∈ m.entries) (h : EntryHas e n) :
      HasVariable p n

/-- The element of a vector pattern has a variable of this name. -/
inductive ElementHas : Element → String → Prop where
  | item {q : Value} {n : String} (h : HasVariable q n) : ElementHas (.item q) n
  | rest {q : Value} {n : String} (h : HasVariable q n) : ElementHas (.rest q) n
  | whole (n : String) : ElementHas (.whole n) n

/-- The entry of a map pattern has a variable of this name. -/
inductive EntryHas : Value × Value → String → Prop where
  | listed {e : Value × Value} {k : Naming} {names : Items Value}
      {span : Option Span} {v : Value} {n : String}
      (hrole : role e.1 = .names k) (hlist : e.2 = .vector names span)
      (hv : v ∈ names.toList) (hn : v.symbolName? = some n) : EntryHas e n
  | whole {e : Value × Value} {n : String} (hrole : role e.1 = .whole)
      (hn : e.2.symbolName? = some n) : EntryHas e n
  | target {e : Value × Value} {q : Value} {n : String}
      (hrole : role e.1 = .target q) (h : HasVariable q n) : EntryHas e n

end

section

variable {q : Value} {n m : String}

theorem elementHas_item : ElementHas (.item q) n ↔ HasVariable q n :=
  ⟨fun | .item h => h, .item⟩

theorem elementHas_rest : ElementHas (.rest q) n ↔ HasVariable q n :=
  ⟨fun | .rest h => h, .rest⟩

theorem elementHas_whole : ElementHas (.whole m) n ↔ n = m :=
  ⟨fun | .whole _ => rfl, fun h => h ▸ .whole n⟩

theorem entryHas_iff {e : Value × Value} : EntryHas e n ↔
    match role e.1 with
    | .names _ => ∃ names span, e.2 = .vector names span ∧
        ∃ v ∈ names.toList, v.symbolName? = some n
    | .whole => e.2.symbolName? = some n
    | .defaults => False
    | .target q => HasVariable q n := by
  constructor
  · intro h
    cases h with
    | listed hrole hlist hv hn =>
        rw [hrole]
        exact ⟨_, _, hlist, _, hv, hn⟩
    | whole hrole hn =>
        rw [hrole]
        exact hn
    | target hrole h =>
        rw [hrole]
        exact h
  · intro h
    cases hrole : role e.1 with
    | names k =>
        simp only [hrole] at h
        obtain ⟨names, span, hlist, v, hv, hn⟩ := h
        exact .listed hrole hlist hv hn
    | whole =>
        simp only [hrole] at h
        exact .whole hrole h
    | defaults =>
        simp only [hrole] at h
    | target q =>
        simp only [hrole] at h
        exact .target hrole h

theorem hasVariable_iff {p : Value} : HasVariable p n ↔
    match shape p with
    | .name m => n = m
    | .sequence ps => ∃ e ∈ elements ps, ElementHas e n
    | .associative m => ∃ e ∈ m.entries, EntryHas e n
    | .other _ => False := by
  constructor
  · intro h
    cases h with
    | name hp => rw [hp]
    | element hp he h =>
        rw [hp]
        exact ⟨_, he, h⟩
    | entry hp he h =>
        rw [hp]
        exact ⟨_, he, h⟩
  · intro h
    cases hp : shape p with
    | name m =>
        simp only [hp] at h
        exact h ▸ .name hp
    | sequence ps =>
        simp only [hp] at h
        obtain ⟨e, he, h⟩ := h
        exact .element hp he h
    | associative m =>
        simp only [hp] at h
        obtain ⟨e, he, h⟩ := h
        exact .entry hp he h
    | other t => simp only [hp] at h

end

/-! ## Variables of valid patterns -/

theorem mem_of_mapM_symbolName? {vs : List Value} {names : List String}
    (h : vs.mapM Value.symbolName? = some names) (n : String) :
    n ∈ names ↔ ∃ v ∈ vs, v.symbolName? = some n := by
  induction vs generalizing names with
  | nil =>
      obtain rfl := Option.some.inj h
      simp
  | cons v vs ih =>
      rw [List.mapM_cons] at h
      obtain ⟨name, hname, h⟩ := Option.bind_eq_some_iff.mp h
      obtain ⟨rest, hrest, h⟩ := Option.bind_eq_some_iff.mp h
      obtain rfl := Option.some.inj h
      simp [ih hrest, hname, eq_comm]

theorem entryHas_iff_mem {check : Value → Except Fault Unit} {e : Value × Value}
    {n : String} (he : checkEntry check e = .ok ())
    (hpart : ∀ q, .pattern q ∈ entryTargets e →
      (HasVariable q n ↔ n ∈ boundNames q)) :
    EntryHas e n ↔ n ∈ (entryTargets e).flatMap Target.boundNames := by
  rw [entryHas_iff]
  unfold entryTargets at hpart ⊢
  unfold checkEntry at he
  cases hrole : role e.1 with
  | names k =>
      simp only [hrole] at he ⊢
      split at he
      · next hsome =>
          obtain ⟨items, span, hlist, -⟩ := names?_isSome_iff.mp hsome
          obtain ⟨names, hnames⟩ := Option.isSome_iff_exists.mp hsome
          rw [hlist] at hnames
          simp only [hlist, hnames, Value.vector.injEq, Option.getD_some,
            List.flatMap_map, Target.boundNames, List.flatMap_singleton']
          rw [mem_of_mapM_symbolName? hnames]
          refine ⟨?_, fun h => ⟨items, span, ⟨rfl, rfl⟩, h⟩⟩
          rintro ⟨_, _, ⟨rfl, rfl⟩, h⟩
          exact h
      · cases he
  | whole => simp [Target.boundNames]
  | defaults => simp
  | target q =>
      simp only [hrole, List.mem_singleton, Target.pattern.injEq,
        forall_eq] at hpart
      simpa [Target.boundNames] using hpart

/-- The variables of a valid pattern are the names that it binds. -/
theorem hasVariable_iff_mem_boundNames {p : Value} (hp : validate p = .ok ())
    (n : String) : HasVariable p n ↔ n ∈ boundNames p := by
  induction p using induct with
  | step p ih =>
      have htarget (q : Value) (hq : .pattern q ∈ targets p) :
          HasVariable q n ↔ n ∈ boundNames q :=
        ih q (mem_parts_of_mem_targets hq) (validate_of_mem_targets hp hq)
      rw [hasVariable_iff, boundNames_eq]
      rw [validate_eq, validateStep] at hp
      unfold targets at htarget ⊢
      cases hs : shape p with
      | name m => simp [Target.boundNames]
      | other t => simp only [hs] at hp; cases hp
      | sequence ps =>
          simp only [hs] at htarget ⊢
          rw [List.flatMap_map, List.mem_flatMap]
          refine exists_congr fun e => and_congr_right fun he => ?_
          have hmem := List.mem_map_of_mem (f := Element.target) he
          cases e with
          | item q => exact elementHas_item.trans (htarget q hmem)
          | rest q => exact elementHas_rest.trans (htarget q hmem)
          | whole m => exact elementHas_whole.trans List.mem_singleton.symm
      | associative m =>
          simp only [hs] at hp htarget ⊢
          rw [List.flatMap_assoc, List.mem_flatMap]
          refine exists_congr fun e => and_congr_right fun he => ?_
          exact entryHas_iff_mem (forM_eq_ok_iff.mp hp e he)
            fun q hq => htarget q (List.mem_flatMap.mpr ⟨e, he, hq⟩)

/-! ## Actions that write to variables -/

/-- However the action ends, it has bound some variables with these names and
has done nothing else, and if it has not failed it has bound all of them. -/
def Writes (scope : Scope) (names : String → Prop) (x : Action Unit) : Prop :=
  ∀ s, ∃ bs : List (String × Value), (∀ b ∈ bs, names b.1) ∧
    ((x s = .result () (s.bindAll scope bs) ∧ ∀ n, names n →
      n ∈ bs.map Prod.fst) ∨
      ∃ e, x s = .failure e (s.bindAll scope bs))

section

variable {scope : Scope} {names names' : String → Prop} {x y : Action Unit}

theorem writes_pure : Writes scope (fun _ => False) (pure ()) :=
  fun _ => ⟨[], nofun, .inl ⟨rfl, nofun⟩⟩

theorem writes_fail (fault : Fault) : Writes scope names (Action.fail fault) :=
  fun _ => ⟨[], nofun, .inr ⟨_, rfl⟩⟩

theorem writes_define (name : String) (v : Value) :
    Writes scope (· = name) (Action.define scope name v) := by
  refine fun s => ⟨[(name, v)], by simp, .inl ⟨rfl, by simp⟩⟩

theorem Writes.congr (h : Writes scope names x)
    (hnames : ∀ n, names n ↔ names' n) : Writes scope names' x := by
  obtain rfl : names = names' := funext fun n => propext (hnames n)
  exact h

theorem Writes.bind (hx : Writes scope names x) (hy : Writes scope names' y) :
    Writes scope (fun n => names n ∨ names' n) (x >>= fun _ => y) := by
  intro s
  obtain ⟨bs, hbs, ⟨hrun, hall⟩ | ⟨e, hrun⟩⟩ := hx s
  · obtain ⟨cs, hcs, hend⟩ := hy (s.bindAll scope bs)
    rw [← Store.bindAll_append] at hend
    refine ⟨bs ++ cs, fun b hb => (List.mem_append.mp hb).imp (hbs b) (hcs b), ?_⟩
    rw [Action.bind_of_result hrun, List.map_append]
    refine hend.imp_left fun ⟨hrun', hall'⟩ => ⟨hrun', fun n hn => ?_⟩
    exact List.mem_append.mpr (hn.imp (hall n) (hall' n))
  · exact ⟨bs, fun b hb => .inl (hbs b hb), .inr ⟨e, Action.bind_of_failure hrun⟩⟩

theorem writes_ofExcept_bind {α : Type} {a? : Except Fault α}
    {f : α → Action Unit} (h : ∀ a, a? = .ok a → Writes scope names (f a)) :
    Writes scope names (Action.ofExcept a? >>= f) := by
  cases a? with
  | ok a => exact h a rfl
  | error fault => exact writes_fail fault

theorem Writes.forM {α : Type} {names : α → String → Prop} {f : α → Action Unit}
    {xs : List α} (h : ∀ x ∈ xs, Writes scope (names x) (f x)) :
    Writes scope (fun n => ∃ x ∈ xs, names x n) (xs.forM f) := by
  induction xs with
  | nil => exact writes_pure.congr (by simp)
  | cons x xs ih =>
      obtain ⟨hx, hxs⟩ := List.forall_mem_cons.mp h
      exact (hx.bind (ih hxs)).congr (by simp)

end

/-! ## Patterns -/

section

variable {bind : Value → Value → Action Unit} {scope : Scope} {whole : Value}

theorem bindItems_writes {ps : List Value}
    (hbind : ∀ q ∈ ps, ∀ v, Writes scope (HasVariable q) (bind q v))
    (items : List Value) :
    Writes scope (fun n => ∃ e ∈ elements ps, ElementHas e n)
      (bindItems bind scope whole ps items) := by
  induction ps using items_induct generalizing items with
  | nil => exact writes_pure.congr (by simp [elements])
  | whole name span ps ih =>
      have hps := ih (fun q hq => hbind q (by simp [hq])) items
      rw [bindItems_whole, elements_whole]
      exact ((writes_define name whole).bind hps).congr
        (by simp [elementHas_whole])
  | rest span p tail hends ih =>
      have hp := hbind p (by simp) (.vectorOf items)
      have htail := ih (fun q hq => hbind q (by simp [hq])) []
      rw [bindItems_rest span p hends, elements_rest]
      exact (hp.bind htail).congr (by simp [elementHas_rest])
  | item p ps has hamp ih =>
      have hp := hbind p (by simp) (items.headD .nil)
      have hps := ih (fun q hq => hbind q (by simp [hq])) items.tail
      rw [bindItems_item has hamp, elements_item has hamp]
      exact (hp.bind hps).congr (by simp [elementHas_item])
  | refused ps fault hrefused =>
      rw [hrefused.bindItems_eq]
      exact writes_fail fault

variable {get : Value → Option String → Action Value}

theorem bindNames_writes (hget : ∀ key name?, ∃ u, get key name? = pure u)
    (k : Naming) (vs : List Value) :
    Writes scope (fun n => ∃ v ∈ vs, v.symbolName? = some n)
      (bindNames get scope k vs) := by
  induction vs with
  | nil => exact writes_pure.congr (by simp)
  | cons v vs ih =>
      rw [bindNames]
      cases hv : v.symbolName? with
      | none => exact writes_fail _
      | some name =>
          obtain ⟨u, hu⟩ := hget (k.source name) (some name)
          simp only [hu, pure_bind]
          exact ((writes_define name u).bind ih).congr (by simp [hv, eq_comm])

theorem bindEntry_writes (hget : ∀ key name?, ∃ u, get key name? = pure u)
    {e : Value × Value}
    (hbind : ∀ v, Writes scope (HasVariable e.1) (bind e.1 v)) :
    Writes scope (EntryHas e) (bindEntry bind get scope whole e) := by
  unfold bindEntry
  cases hrole : role e.1 with
  | names k =>
      simp only
      split
      · next names span hlist =>
          refine (bindNames_writes hget k names.toList).congr fun n => ?_
          simp only [entryHas_iff, hrole, hlist, Value.vector.injEq]
          refine ⟨fun h => ⟨names, span, ⟨rfl, rfl⟩, h⟩, ?_⟩
          rintro ⟨_, _, ⟨rfl, rfl⟩, h⟩
          exact h
      · exact writes_fail _
  | whole =>
      simp only
      cases hname : e.2.symbolName? with
      | none => exact writes_fail _
      | some name =>
          refine (writes_define name whole).congr fun n => ?_
          simp only [entryHas_iff, hrole, hname, Option.some.injEq, eq_comm]
  | defaults =>
      exact writes_pure.congr fun n => by simp only [entryHas_iff, hrole]
  | target pattern =>
      obtain rfl := eq_of_role_target hrole
      obtain ⟨u, hu⟩ := hget e.2 e.1.symbolName?
      simp only [hu, pure_bind]
      exact (hbind u).congr fun n => by simp only [entryHas_iff, hrole]

/-- A pattern without defaults writes to its variables. -/
theorem bind_writes (eval : Evaluate) (scope : Scope) {p : Value}
    (h : ∀ d, ¬ HasDefault p d) (v : Value) :
    Writes scope (HasVariable p) (Pattern.bind eval p v scope) := by
  induction p using induct generalizing v with
  | step p ih =>
      have hparts (q : Value) (hq : q ∈ (shape p).parts) (w : Value) :
          Writes scope (HasVariable q) (Pattern.bind eval q w scope) :=
        ih q hq (fun d hd => h d (.part hq hd)) w
      refine Writes.congr ?_ fun n => hasVariable_iff.symm
      rw [bind_eq, bindStep]
      cases hs : shape p with
      | name m => exact writes_define m v
      | other t => exact writes_fail _
      | sequence ps =>
          rw [hs] at hparts
          exact writes_ofExcept_bind fun items _ =>
            bindItems_writes hparts items
      | associative m =>
          rw [hs] at hparts
          refine writes_ofExcept_bind fun entries _ => ?_
          refine writes_ofExcept_bind fun defaults hdefaults => ?_
          have hfixed (name? : Option String) (d : Value)
              (hd : default? m name? = some d) :
              ∃ w, Fixed eval d w := absurd (hasDefault_of_default? hs hd) (h d)
          have hget (key : Value) (name? : Option String) :
              ∃ u, fetch eval scope entries defaults key name? = pure u :=
            (exists_fetched hdefaults hfixed key name?).imp fun _ hu => hu.1
          refine Writes.forM fun e he => ?_
          exact bindEntry_writes hget (hparts e.1 (mem_parts_of_mem_entries he))

end

/-- Binding a pattern without defaults writes to the variables of the pattern,
in the frame that it is given, and nowhere else, however it ends. If it has not
failed each variable is bound in this frame, and is found there whatever other
frames are outside it. -/
theorem bind_writes_own_variables (eval : Evaluate) {p : Value}
    (h : ∀ d, ¬ HasDefault p d) (v : Value) {scope : Scope} {s : Store}
    (hs : scope.here < s.frames.size) :
    ∃ t, (bind eval p v scope s).left? = some t ∧
      (∀ f, f ≠ scope.here → t.frames[f]? = s.frames[f]?) ∧
      t.heap = s.heap ∧
      (∀ name, ¬ HasVariable p name →
        t.binding scope.here name = s.binding scope.here name) ∧
      (bind eval p v scope s = .result () t → ∀ name, HasVariable p name →
        ∃ u, t.binding scope.here name = some u ∧
          ∀ outer, t.lookup ⟨scope.here, outer⟩ name = some u) := by
  obtain ⟨bs, hbs, hend⟩ := bind_writes eval scope h v s
  refine ⟨s.bindAll scope bs, ?_, fun f hf => Store.frames_bindAll_of_ne hf,
    Store.heap_bindAll s bs, fun name hname => ?_, fun hresult name hname => ?_⟩
  · rcases hend with ⟨hrun, -⟩ | ⟨e, hrun⟩
    · rw [hrun]
      rfl
    · rw [hrun]
      rfl
  · refine Store.binding_bindAll_of_ne fun _ hmem => ?_
    obtain ⟨b, hb, rfl⟩ := List.mem_map.mp hmem
    exact hname (hbs b hb)
  · rcases hend with ⟨-, hall⟩ | ⟨e, hrun⟩
    · obtain ⟨u, hu⟩ := Store.exists_binding_bindAll hs (hall name hname)
      exact ⟨u, hu, fun outer => Store.lookup_of_binding hu⟩
    · rw [hresult] at hrun
      cases hrun

/-- The pattern is `[a {:keys [k] :as m} & &]`. Of its variables `m` is bound
outside too, and `a` has been written when the second value turns out to have no
map where one is wanted. -/
theorem bind_writes_own_variables_ampersand :
    let eval : Evaluate := fun _ _ => Action.exhausted
    let inner : Value :=
      .mapForm [(.keyword "keys", .vectorOf [.symbol "k" none]),
        (.keyword "as", .symbol "m" none)] none
    let p : Value :=
      .vectorOf [.symbol "a" none, inner, .symbol "&" none, .symbol "&" none]
    let v : Value :=
      .vectorOf [.nil, .map (.ofList [(.keyword "k", .bool true)]) none, .nil]
    let v' : Value := .vectorOf [.nil, .bool true]
    let scope : Scope := ⟨0, [1]⟩
    let s : Store := { frames := #[[("x", .bool true)], [("m", .bool false)]] }
    ((∀ d, ¬ HasDefault p d) ∧ scope.here < s.frames.size) ∧
      (∃ t, bind eval p v scope s = .result () t ∧ t.frames[1]? = s.frames[1]? ∧
        t.binding 0 "x" = some (.bool true) ∧
        (∃ u, t.lookup scope "m" = some u) ∧
        ∃ u, t.lookup scope "&" = some u) ∧
      ∃ e t, bind eval p v' scope s = .failure e t ∧
        t.frames[1]? = s.frames[1]? ∧
        t.binding 0 "x" = some (.bool true) := by
  intro eval inner p v v' scope s
  have hinner (d : Value) : ¬ HasDefault inner d := by
    intro hd
    cases hd with
    | here hp hor _ =>
        obtain rfl := Shape.associative.inj hp
        cases hor
    | @part _ q _ hq hd =>
        have hq : q ∈ [.keyword "as", .keyword "keys"] := hq
        rcases List.mem_pair.mp hq with rfl | rfl <;>
          exact not_hasDefault_of_leaf rfl hd
  have hp (d : Value) : ¬ HasDefault p d := by
    intro hd
    cases hd with
    | here hp _ _ => cases hp
    | @part _ q _ hq hd =>
        have hq : q ∈
            [.symbol "a" none, inner, .symbol "&" none, .symbol "&" none] := hq
        simp only [List.mem_cons, List.not_mem_nil, or_false, or_self] at hq
        rcases hq with rfl | rfl | rfl
        · exact not_hasDefault_of_leaf rfl hd
        · exact hinner d hd
        · exact not_hasDefault_of_leaf rfl hd
  have hs : scope.here < s.frames.size := Nat.zero_lt_two
  have hvariable (n : String) : HasVariable p n ↔ n ∈ ["a", "m", "k", "&"] := by
    have htargets : targets p = [.pattern (.symbol "a" none), .pattern inner,
        .pattern (.symbol "&" none)] := rfl
    have hsymbol (m : String) : boundNames (.symbol m none) = [m] :=
      boundNames_eq _
    have hmap : boundNames inner = ["m", "k"] := boundNames_eq _
    rw [hasVariable_iff_mem_boundNames rfl, boundNames_eq, htargets]
    simp [Target.boundNames, hsymbol, hmap]
  refine ⟨⟨hp, hs⟩, ?_, ?_⟩
  · obtain ⟨t, hleft, hframes, -, hothers, hall⟩ :=
      bind_writes_own_variables eval hp v hs
    obtain ⟨u, hu⟩ : ∃ u, bind eval p v scope s = .result () u := ⟨_, rfl⟩
    rw [hu] at hleft hall
    obtain rfl := Option.some.inj hleft
    obtain ⟨m, -, hm⟩ := hall rfl "m" ((hvariable "m").mpr (by simp))
    obtain ⟨amp, -, hamp⟩ := hall rfl "&" ((hvariable "&").mpr (by simp))
    refine ⟨u, hu, hframes 1 Nat.one_ne_zero, ?_, ⟨m, hm _⟩, amp, hamp _⟩
    exact hothers "x" (mt (hvariable "x").mp (by simp))
  · obtain ⟨t, hleft, hframes, -, hothers, -⟩ :=
      bind_writes_own_variables eval hp v' hs
    obtain ⟨e, u, hu⟩ : ∃ e u, bind eval p v' scope s = .failure e u :=
      ⟨_, _, rfl⟩
    rw [hu] at hleft
    obtain rfl := Option.some.inj hleft
    refine ⟨e, u, hu, hframes 1 Nat.one_ne_zero, ?_⟩
    exact hothers "x" (mt (hvariable "x").mp (by simp))

end TinyLisp.Pattern
