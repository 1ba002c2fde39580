import TinyLisp.Builtin.Call
import TinyLisp.Proofs.Store.Clean

/-!
# Built-in functions make no map literals

Given tidy arguments, a built-in function gives a tidy value and keeps the
store tidy. Most give numbers, texts and truth values, in which nothing can
stand. The others put together what they are given: each item, key or value of
what comes out was an item, key or value, or an argument. The same goes for
the standard host.

For the functions that call others, and for the host, what is called is assumed
to keep the store tidy.
-/

namespace TinyLisp

open Value (tidy_leaf tidy_list tidy_vector tidy_vectorOf tidy_map)
open TinyLisp.Action (Keeps)

/-! ## Arguments -/

namespace Arguments

variable {args : List Value}

theorem one_yields (name : String) (h : AllTidy args) :
    Yields Value.Tidy (one name args) := by
  unfold one
  split
  · exact yields_pure (h _ List.mem_cons_self)
  · exact yields_error _

theorem two_yields (name : String) (h : AllTidy args) :
    Yields (fun p : Value × Value => p.1.Tidy ∧ p.2.Tidy) (two name args) := by
  unfold two
  split
  · next x y => exact yields_pure ⟨h x (by simp), h y (by simp)⟩
  · exact yields_error _

theorem sequence_yields (name : String) {v : Value} (h : v.Tidy) :
    Yields AllTidy (sequence name v) := by
  unfold sequence
  split
  · exact yields_pure (tidy_list.mp h)
  · exact yields_pure (tidy_vector.mp h)
  · exact yields_pure nofun
  · exact yields_error _

theorem indexed_yields (name : String) {v : Value} (h : v.Tidy) :
    Yields (fun items : Items Value => AllTidy items.toList)
      (indexed name v) := by
  unfold indexed
  split
  · exact yields_pure (tidy_vector.mp h)
  · exact (sequence_yields name h).map fun xs hxs => hxs

theorem mapping_yields (name : String) {v : Value} (h : v.Tidy) :
    Yields ValueMap.Tidy (mapping name v) := by
  unfold mapping
  split
  · exact yields_pure (tidy_map.mp h)
  · exact yields_pure ValueMap.tidy_empty
  · exact yields_error _

end Arguments

/-! ## Numbers -/

namespace Arithmetic

variable {args : List Value}

theorem sumOf_yields : Yields Value.Tidy (sumOf args) :=
  yields_bind fun _ => yields_pure (tidy_leaf rfl rfl)

theorem differenceOf_yields : Yields Value.Tidy (differenceOf args) := by
  refine yields_bind fun xs => ?_
  split
  · exact yields_error _
  · exact yields_pure (tidy_leaf rfl rfl)
  · exact yields_pure (tidy_leaf rfl rfl)

theorem productOf_yields : Yields Value.Tidy (productOf args) :=
  yields_bind fun _ => yields_pure (tidy_leaf rfl rfl)

theorem quotientOf_yields : Yields Value.Tidy (quotientOf args) := by
  refine yields_bind fun xs => ?_
  split
  · exact yields_error _
  · exact yields_bind fun _ => yields_pure (tidy_leaf rfl rfl)
  · exact yields_bind fun _ => yields_pure (tidy_leaf rfl rfl)

theorem remainderOf_yields : Yields Value.Tidy (remainderOf args) := by
  refine yields_bind fun ⟨x, y⟩ => yields_bind fun x => yields_bind fun y => ?_
  dsimp only
  split
  · exact yields_error _
  · exact yields_pure (tidy_leaf rfl rfl)

theorem compareOf_yields (name : String) (rel : Float → Float → Bool) :
    Yields Value.Tidy (compareOf name rel args) := by
  unfold compareOf
  split
  · exact yields_error _
  · exact yields_bind fun _ => yields_pure (tidy_leaf rfl rfl)

end Arithmetic

/-! ## Sequences -/

namespace Sequence

open Arguments

variable {args : List Value}

theorem allTidy_items {v : Value} (h : v.Tidy) :
    AllTidy (v.items?.getD []) := by
  cases hi : v.items? with
  | none => exact nofun
  | some xs => exact h.of_items hi

theorem firstOf_yields (h : AllTidy args) : Yields Value.Tidy (firstOf args) :=
  (one_yields "first" h).bind fun _ hv => yields_pure (allTidy_items hv).headD

theorem restOf_yields (h : AllTidy args) : Yields Value.Tidy (restOf args) :=
  (one_yields "rest" h).bind fun _ hv =>
    yields_pure (tidy_vectorOf.mpr (allTidy_items hv).tail)

theorem countOf_yields : Yields Value.Tidy (countOf args) :=
  yields_bind fun _ => yields_bind fun _ => yields_pure (tidy_leaf rfl rfl)

theorem emptyOf_yields : Yields Value.Tidy (emptyOf args) := by
  refine yields_bind fun v => ?_
  split <;> exact yields_pure (tidy_leaf rfl rfl)

theorem consOf_yields (h : AllTidy args) : Yields Value.Tidy (consOf args) := by
  refine (two_yields "cons" h).bind fun ⟨x, coll⟩ ⟨hx, hcoll⟩ => ?_
  refine (sequence_yields "cons" hcoll).bind fun items hitems => ?_
  exact yields_pure (tidy_list.mpr (List.forall_mem_cons.mpr ⟨hx, hitems⟩))

/-- What `nth` does when its arguments have been counted. -/
theorem nth_yields {coll index : Value} {notFound : Option Value}
    (hcoll : coll.Tidy) (hmissing : ∀ v, notFound = some v → v.Tidy) :
    Yields Value.Tidy (do
      let items ← indexed "nth" coll
      let index ← number "nth" index
      match (Number.toNat? index).bind items.get?, notFound with
      | some item, _ => return item
      | none, some v => return v
      | none, none => throw (.outOfBounds (Number.text index) items.size)) := by
  refine (indexed_yields "nth" hcoll).bind fun items hitems =>
    yields_bind fun i => ?_
  split
  · next item hget =>
      obtain ⟨n, -, hn⟩ := Option.bind_eq_some_iff.mp hget
      rw [← Items.getElem?_toList] at hn
      exact yields_pure (hitems item (List.mem_of_getElem? hn))
  · next v _ => exact yields_pure (hmissing v rfl)
  · exact yields_error _

theorem nthOf_yields (h : AllTidy args) : Yields Value.Tidy (nthOf args) := by
  unfold nthOf
  dsimp only
  split
  · next coll index => exact nth_yields (h coll (by simp)) nofun
  · next coll index notFound =>
      refine nth_yields (h coll (by simp)) ?_
      rintro v ⟨⟩
      exact h notFound (by simp)
  · exact yields_error _

theorem addEntries_yields {m : ValueMap} (hm : ValueMap.Tidy m)
    {xs : List Value} (h : AllTidy xs) :
    Yields ValueMap.Tidy (addEntries m xs) := by
  induction xs generalizing m with
  | nil => exact yields_pure hm
  | cons x xs ih =>
      obtain ⟨hx, hxs⟩ := List.forall_mem_cons.mp h
      rw [addEntries]
      split
      · next k v hi =>
          have hkv := hx.of_items hi
          exact ih (hm.insert (hkv k (by simp)) (hkv v (by simp))) hxs
      · exact yields_error _

theorem conjOf_yields (h : AllTidy args) : Yields Value.Tidy (conjOf args) := by
  unfold conjOf
  split
  · exact yields_error _
  · obtain ⟨hcoll, hxs⟩ := List.forall_mem_cons.mp h
    refine yields_pure (tidy_vector.mpr ?_)
    rw [Items.toList_append]
    exact List.forall_mem_append.mpr ⟨tidy_vector.mp hcoll, hxs⟩
  · obtain ⟨hcoll, hxs⟩ := List.forall_mem_cons.mp h
    refine yields_pure
      (tidy_list.mpr (List.forall_mem_append.mpr ⟨?_, tidy_list.mp hcoll⟩))
    exact fun x hx => hxs x (List.mem_reverse.mp hx)
  · refine yields_pure (tidy_list.mpr fun x hx => ?_)
    exact (List.forall_mem_cons.mp h).2 x (List.mem_reverse.mp hx)
  · obtain ⟨hcoll, hxs⟩ := List.forall_mem_cons.mp h
    exact (addEntries_yields (tidy_map.mp hcoll) hxs).map fun m hm =>
      tidy_map.mpr hm
  · exact yields_error _

theorem allTidy_splitLast {x : Value} {more : List Value}
    (h : AllTidy (x :: more)) :
    AllTidy (splitLast x more).1 ∧ (splitLast x more).2.Tidy := by
  induction more generalizing x with
  | nil => exact ⟨nofun, h x List.mem_cons_self⟩
  | cons y more ih =>
      obtain ⟨hx, hmore⟩ := List.forall_mem_cons.mp h
      exact ⟨List.forall_mem_cons.mpr ⟨hx, (ih hmore).1⟩, (ih hmore).2⟩

theorem allTidy_of_mem_zipWith {xs : List Value} {rows : List (List Value)}
    (hxs : AllTidy xs) (hrows : ∀ r ∈ rows, AllTidy r) :
    ∀ r ∈ List.zipWith (· :: ·) xs rows, AllTidy r := by
  induction xs generalizing rows with
  | nil => exact nofun
  | cons x xs ih => cases rows with
    | nil => exact nofun
    | cons row rows =>
        obtain ⟨hx, hxs⟩ := List.forall_mem_cons.mp hxs
        obtain ⟨hrow, hrows⟩ := List.forall_mem_cons.mp hrows
        exact List.forall_mem_cons.mpr ⟨List.forall_mem_cons.mpr ⟨hx, hrow⟩,
          ih hxs hrows⟩

theorem allTidy_singletons {xs : List Value} (h : AllTidy xs) :
    ∀ r ∈ xs.map ([·]), AllTidy r := by
  intro r hr
  obtain ⟨x, hx, rfl⟩ := List.mem_map.mp hr
  exact List.forall_mem_cons.mpr ⟨h x hx, nofun⟩

theorem allTidy_of_mem_rows {columns : List (List Value)}
    (h : ∀ c ∈ columns, AllTidy c) : ∀ r ∈ rows columns, AllTidy r := by
  fun_induction rows columns with
  | case1 => exact nofun
  | case2 column => exact allTidy_singletons (h column List.mem_cons_self)
  | case3 column columns _ ih =>
      obtain ⟨hcolumn, hcolumns⟩ := List.forall_mem_cons.mp h
      exact allTidy_of_mem_zipWith hcolumn (ih hcolumns)

end Sequence

/-! ## Maps -/

namespace Mapping

open Arguments

variable {args : List Value}

theorem addPairs_yields (name : String) {m : ValueMap} (hm : ValueMap.Tidy m)
    (h : AllTidy args) : Yields ValueMap.Tidy (addPairs name m args) := by
  fun_induction addPairs name m args with
  | case1 m => exact yields_pure hm
  | case2 m k v rest ih =>
      obtain ⟨hk, h⟩ := List.forall_mem_cons.mp h
      obtain ⟨hv, hrest⟩ := List.forall_mem_cons.mp h
      exact ih (hm.insert hk hv) hrest
  | case3 m x => exact yields_error _

theorem hashMapOf_yields (h : AllTidy args) :
    Yields Value.Tidy (hashMapOf args) :=
  (addPairs_yields "hash-map" ValueMap.tidy_empty h).bind fun _ hm =>
    yields_pure (tidy_map.mpr hm)

theorem tidy_of_find? {coll key v : Value} (h : coll.Tidy)
    (hfind : find? coll key = some v) : v.Tidy := by
  unfold find? at hfind
  split at hfind
  · exact (tidy_map.mp h).lookup hfind
  · unfold itemAt? at hfind
    split at hfind
    · obtain ⟨n, -, hn⟩ := Option.bind_eq_some_iff.mp hfind
      rw [← Items.getElem?_toList] at hn
      exact tidy_vector.mp h v (List.mem_of_getElem? hn)
    · cases hfind
  · cases hfind

theorem tidy_getD {v? : Option Value} (h : ∀ v, v? = some v → v.Tidy)
    {other : Value} (ho : other.Tidy) : (v?.getD other).Tidy := by
  cases v? with
  | none => exact ho
  | some v => exact h v rfl

theorem getOf_yields (h : AllTidy args) : Yields Value.Tidy (getOf args) := by
  unfold getOf
  split
  · next coll key =>
      exact yields_pure (tidy_getD (fun _ => tidy_of_find? (h coll (by simp)))
        (tidy_leaf rfl rfl))
  · next coll key notFound =>
      exact yields_pure (tidy_getD (fun _ => tidy_of_find? (h coll (by simp)))
        (h notFound (by simp)))
  · exact yields_error _

theorem assocOf_yields (h : AllTidy args) :
    Yields Value.Tidy (assocOf args) := by
  unfold assocOf
  split
  · obtain ⟨hcoll, hrest⟩ := List.forall_mem_cons.mp h
    refine (mapping_yields "assoc" hcoll).bind fun m hm => ?_
    exact (addPairs_yields "assoc" hm hrest).bind fun _ hm' =>
      yields_pure (tidy_map.mpr hm')
  · exact yields_error _

theorem tidy_foldl_erase {m : ValueMap} (hm : ValueMap.Tidy m)
    (ks : List Value) : ValueMap.Tidy (ks.foldl HashTrie.erase m) := by
  induction ks generalizing m with
  | nil => exact hm
  | cons k ks ih => exact ih (hm.erase k)

theorem dissocOf_yields (h : AllTidy args) :
    Yields Value.Tidy (dissocOf args) := by
  unfold dissocOf
  split
  · exact (mapping_yields "dissoc" (h _ List.mem_cons_self)).bind fun m hm =>
      yields_pure (tidy_map.mpr (tidy_foldl_erase hm _))
  · exact yields_error _

theorem keysOf_yields (h : AllTidy args) : Yields Value.Tidy (keysOf args) := by
  refine (one_yields "keys" h).bind fun v hv =>
    (mapping_yields "keys" hv).bind fun m hm => ?_
  refine yields_pure (tidy_vectorOf.mpr fun k hk => ?_)
  obtain ⟨e, he, rfl⟩ := List.mem_map.mp hk
  exact (hm e he).1

theorem valsOf_yields (h : AllTidy args) : Yields Value.Tidy (valsOf args) := by
  refine (one_yields "vals" h).bind fun v hv =>
    (mapping_yields "vals" hv).bind fun m hm => ?_
  refine yields_pure (tidy_vectorOf.mpr fun k hk => ?_)
  obtain ⟨e, he, rfl⟩ := List.mem_map.mp hk
  exact (hm e he).2

theorem containsOf_yields : Yields Value.Tidy (containsOf args) := by
  refine yields_bind fun ⟨coll, key⟩ => ?_
  dsimp only
  split
  · exact yields_pure (tidy_leaf rfl rfl)
  · exact yields_pure (tidy_leaf rfl rfl)
  · exact yields_pure (tidy_leaf rfl rfl)
  · exact yields_error _

theorem keywordCall_yields (name : String) (h : AllTidy args) :
    Yields Value.Tidy (keywordCall name args) := by
  unfold keywordCall
  dsimp only
  split
  · refine yields_pure ?_
    split
    · exact tidy_getD (fun _ => (tidy_map.mp (h _ List.mem_cons_self)).lookup)
        (tidy_leaf rfl rfl)
    · exact tidy_leaf rfl rfl
  · next default =>
      have hdefault := h default (by simp)
      refine yields_pure ?_
      split
      · exact tidy_getD
          (fun _ => (tidy_map.mp (h _ List.mem_cons_self)).lookup) hdefault
      · exact hdefault
  · exact yields_error _

end Mapping

/-! ## The standard host -/

/-- What the host gives is tidy and keeps the store tidy, if what it is
given is tidy. -/
structure Host.Keeping (host : Host) : Prop where
  global : ∀ name, (HeapAction.lift (host.global name)).Keeps Value.Tidy
  construct : ∀ ctor args, ctor.Tidy → AllTidy args →
    (HeapAction.lift (host.construct ctor args)).Keeps Value.Tidy
  invoke : ∀ target member args, target.Tidy → AllTidy args →
    (HeapAction.lift (host.invoke target member args)).Keeps Value.Tidy
  call : ∀ key cell args, AllTidy args →
    (HeapAction.lift (host.call key cell args)).Keeps Value.Tidy

namespace StandardHost

open HeapAction

theorem unary_yields (member : String) (args : List Value) (f : Float → Float) :
    Yields Value.Tidy (unary member args f) :=
  yields_bind fun _ => yields_pure (tidy_leaf rfl rfl)

theorem math_yields (member : String) (args : List Value) :
    Yields Value.Tidy (math member args) := by
  unfold math
  split
  · exact yields_pure (tidy_leaf rfl rfl)
  · exact yields_pure (tidy_leaf rfl rfl)
  · exact unary_yields _ _ _
  · exact unary_yields _ _ _
  · exact unary_yields _ _ _
  · exact unary_yields _ _ _
  · exact unary_yields _ _ _
  · exact yields_bind fun _ => yields_bind fun _ =>
      yields_pure (tidy_leaf rfl rfl)
  · exact yields_bind fun _ => yields_pure (tidy_leaf rfl rfl)
  · exact yields_bind fun _ => yields_pure (tidy_leaf rfl rfl)
  · exact yields_error _

theorem stringMember_yields (s member : String) (args : List Value) :
    Yields Value.Tidy (stringMember s member args) := by
  unfold stringMember
  split
  · exact yields_pure (tidy_leaf rfl rfl)
  · exact yields_pure (tidy_leaf rfl rfl)
  · exact yields_pure (tidy_leaf rfl rfl)
  · exact yields_pure (tidy_leaf rfl rfl)
  · exact yields_bind fun _ => yields_pure (tidy_leaf rfl rfl)
  · exact yields_bind fun _ => yields_pure (tidy_leaf rfl rfl)
  · exact yields_error _

theorem bufferMember_keeps {target : Value} (h : target.Tidy) (buffer : Nat)
    (member : String) (args : List Value) :
    (lift (bufferMember target buffer member args)).Keeps Value.Tidy := by
  unfold bufferMember
  split
  · refine keeps_of_cells_bind (fun _ => rfl) fun texts => ?_
    exact keeps_of_cells_bind (fun _ => rfl) fun _ => keeps_pure h
  · exact keeps_of_cells_bind (fun _ => rfl) fun _ =>
      keeps_pure (tidy_leaf rfl rfl)
  · exact keeps_of_cells_bind (fun _ => rfl) fun _ =>
      keeps_pure (tidy_leaf rfl rfl)
  · exact keeps_fail _

theorem global_keeps (name : String) :
    (lift (global name)).Keeps Value.Tidy := by
  unfold global
  split
  · exact keeps_of_cells_bind (fun _ => rfl) fun _ =>
      keeps_pure (tidy_leaf rfl rfl)
  · exact keeps_of_cells_bind (fun _ => rfl) fun _ =>
      keeps_pure (tidy_leaf rfl rfl)
  · exact keeps_of_cells_bind (fun _ => rfl) fun _ =>
      keeps_pure (tidy_leaf rfl rfl)
  · exact keeps_fail _

theorem construct_keeps (ctor : Value) (args : List Value) :
    (lift (construct ctor args)).Keeps Value.Tidy := by
  unfold construct
  split
  · refine keeps_of_cells_bind (fun _ => rfl) fun texts => ?_
    refine keeps_of_cells_bind (fun _ => rfl) fun buffer => ?_
    exact keeps_of_cells_bind (fun _ => rfl) fun id =>
      keeps_pure (tidy_leaf rfl rfl)
  · exact keeps_of_cells_bind (fun _ => rfl) fun text => keeps_fail _

theorem invoke_keeps {target : Value} (h : target.Tidy) (member : String)
    (args : List Value) :
    (lift (invoke target member args)).Keeps Value.Tidy := by
  unfold invoke
  split
  · exact keeps_ofExcept (stringMember_yields _ member args)
  · exact keeps_ofExcept (math_yields member args)
  · exact bufferMember_keeps h _ member args
  · exact keeps_fail _
  · exact keeps_fail _

theorem keeping : Host.standard.Keeping where
  global := global_keeps
  construct ctor args _ _ := construct_keeps ctor args
  invoke _ member args htarget _ := invoke_keeps htarget member args
  call _ _ _ _ := keeps_fail _

end StandardHost

/-! ## Primitives -/

namespace Primitive

open Arguments Arithmetic Sequence Mapping HeapAction

theorem call_keeps (p : Primitive) {args : List Value} (h : AllTidy args) :
    (lift (p.call args)).Keeps Value.Tidy := by
  cases p with
  | add => exact keeps_ofExcept sumOf_yields
  | sub => exact keeps_ofExcept differenceOf_yields
  | mul => exact keeps_ofExcept productOf_yields
  | div => exact keeps_ofExcept quotientOf_yields
  | rem => exact keeps_ofExcept remainderOf_yields
  | lt => exact keeps_ofExcept (compareOf_yields _ _)
  | gt => exact keeps_ofExcept (compareOf_yields _ _)
  | le => exact keeps_ofExcept (compareOf_yields _ _)
  | ge => exact keeps_ofExcept (compareOf_yields _ _)
  | list => exact keeps_pure (tidy_list.mpr h)
  | vector => exact keeps_pure (tidy_vectorOf.mpr h)
  | first => exact keeps_ofExcept (firstOf_yields h)
  | rest => exact keeps_ofExcept (restOf_yields h)
  | count => exact keeps_ofExcept countOf_yields
  | isEmpty => exact keeps_ofExcept emptyOf_yields
  | cons => exact keeps_ofExcept (consOf_yields h)
  | nth => exact keeps_ofExcept (nthOf_yields h)
  | conj => exact keeps_ofExcept (conjOf_yields h)
  | hashMap => exact keeps_ofExcept (hashMapOf_yields h)
  | get => exact keeps_ofExcept (getOf_yields h)
  | assoc => exact keeps_ofExcept (assocOf_yields h)
  | dissoc => exact keeps_ofExcept (dissocOf_yields h)
  | keys => exact keeps_ofExcept (keysOf_yields h)
  | vals => exact keeps_ofExcept (valsOf_yields h)
  | contains => exact keeps_ofExcept containsOf_yields
  | identity => exact keeps_ofExcept (one_yields "identity" h)
  | parseFloat =>
      exact keeps_ofExcept (yields_bind fun _ => yields_pure (tidy_leaf rfl rfl))
  | same => exact keeps_ofExcept (yields_map_leaf (fun _ => rfl) fun _ => rfl)
  | notSame =>
      exact keeps_ofExcept (yields_map_leaf (fun _ => rfl) fun _ => rfl)
  | not => exact keeps_ofExcept (yields_map_leaf (fun _ => rfl) fun _ => rfl)
  | isAtom => exact keeps_ofExcept (yields_map_leaf (fun _ => rfl) fun _ => rfl)
  | type => exact keeps_ofExcept (yields_map_leaf (fun _ => rfl) fun _ => rfl)
  | str =>
      exact keeps_of_cells_bind (fun _ => rfl) fun _ =>
        keeps_pure (tidy_leaf rfl rfl)
  | prStr =>
      exact keeps_of_cells_bind (fun _ => rfl) fun _ =>
        keeps_pure (tidy_leaf rfl rfl)
  | print =>
      refine keeps_of_cells_bind (fun _ => rfl) fun text => ?_
      exact keeps_of_cells_bind (fun _ => rfl) fun _ =>
        keeps_pure (tidy_leaf rfl rfl)
  | println =>
      refine keeps_of_cells_bind (fun _ => rfl) fun text => ?_
      exact keeps_of_cells_bind (fun _ => rfl) fun _ =>
        keeps_pure (tidy_leaf rfl rfl)
  | atom =>
      refine Keeps.lift_bind (keeps_ofExcept (one_yields "atom" h))
        fun v hv => ?_
      exact Keeps.lift_bind (keeps_newCell hv) fun _ _ =>
        keeps_pure (tidy_leaf rfl rfl)
  | deref =>
      refine Keeps.lift_bind (keeps_ofExcept (one_yields "deref" h))
        fun v hv => ?_
      exact keeps_ofExcept_bind fun cell => keeps_readCell cell
  | reset =>
      refine Keeps.lift_bind (keeps_ofExcept (two_yields "reset!" h))
        fun ⟨a, v⟩ hav => ?_
      refine keeps_ofExcept_bind fun cell => ?_
      exact Keeps.lift_bind (keeps_writeCell cell hav.2) fun _ _ =>
        keeps_pure hav.2

end Primitive

/-! ## Functions that call others -/

section

open Arguments Sequence

variable {apply : Apply} {args : List Value}
  (happly : ∀ f args, f.Tidy → AllTidy args → (apply f args).Keeps Value.Tidy)
include happly

theorem mapCall_keeps (h : AllTidy args) :
    (mapCall apply args).Keeps Value.Tidy := by
  have heach {f : Value} {rows : List (List Value)} (hf : f.Tidy)
      (hrows : ∀ r ∈ rows, AllTidy r) :
      (do return .vectorOf (← Action.each (apply f ·) rows) :
        Action Value).Keeps Value.Tidy :=
    (Action.keeps_each fun r hr => happly f r hf (hrows r hr)).bind fun _ hys =>
      Action.keeps_pure (tidy_vectorOf.mpr hys)
  unfold mapCall
  split
  · next f coll =>
      refine (Action.keeps_ofExcept
        (sequence_yields "map" (h coll (by simp)))).bind ?_
      exact fun items hitems =>
        heach (h f (by simp)) (allTidy_singletons hitems)
  · next f coll colls _ =>
      obtain ⟨hf, hcolls⟩ := List.forall_mem_cons.mp h
      refine (Action.keeps_ofExcept
        (yields_mapM fun c hc => sequence_yields "map" ?_)).bind ?_
      · exact hcolls c hc
      · exact fun columns hcolumns => heach hf (allTidy_of_mem_rows hcolumns)
  · exact Action.keeps_fail _

theorem applyCall_keeps (h : AllTidy args) :
    (applyCall apply args).Keeps Value.Tidy := by
  unfold applyCall
  split
  · next f x more =>
      obtain ⟨hf, hrest⟩ := List.forall_mem_cons.mp h
      obtain ⟨hleading, hlast⟩ := allTidy_splitLast hrest
      refine (Action.keeps_ofExcept (sequence_yields "apply" hlast)).bind
        fun items hitems => ?_
      exact happly f _ hf (List.forall_mem_append.mpr ⟨hleading, hitems⟩)
  · exact Action.keeps_fail _

theorem swapCall_keeps (h : AllTidy args) :
    (swapCall apply args).Keeps Value.Tidy := by
  unfold swapCall
  split
  · next a f more =>
      obtain ⟨hf, hmore⟩ :=
        List.forall_mem_cons.mp (List.forall_mem_cons.mp h).2
      refine Action.keeps_ofExcept_bind fun cell => ?_
      refine (HeapAction.keeps_readCell cell).bind fun held hheld => ?_
      refine (happly f _ hf (List.forall_mem_cons.mpr ⟨hheld, hmore⟩)).bind
        fun v hv => ?_
      exact (HeapAction.keeps_writeCell cell hv).bind fun _ _ =>
        Action.keeps_pure hv
  · exact Action.keeps_fail _

theorem Builtin.call_keeps (b : Builtin) (h : AllTidy args) :
    (b.call apply args).Keeps Value.Tidy := by
  cases b with
  | primitive p => exact p.call_keeps h
  | map => exact mapCall_keeps happly h
  | apply => exact applyCall_keeps happly h
  | swap => exact swapCall_keeps happly h

end

end TinyLisp
