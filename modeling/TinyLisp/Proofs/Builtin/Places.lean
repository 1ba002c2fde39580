import TinyLisp.Builtin.Call
import TinyLisp.Host.Counting
import TinyLisp.Proofs.Store.Places

/-!
# Built-in functions do not look at places

Given matching arguments on matching stores, a built-in function ends the same
way: it complains of the same thing, or gives values that match. What it
prints and compares, and the types that it names in a complaint, come from
what values are and not from where they were read, and what it puts together
has no place at all.

For the functions that call others, what is called is assumed to be of this
kind, and so is the host. The standard host is.
-/

namespace TinyLisp

open AssocList (Paired)
open Value (Matches matches_vectorOf matches_getD matches_headD allMatch_tail
  rel_get?)

variable {R : Places} {args args' : List Value}

/-! ## Arguments -/

theorem concur_arity {α β : Type} {P : α → β → Prop} (name expected : String)
    (h : AllMatch R args args') :
    Concur Eq P (.error (Fault.arity name expected args.length))
      (.error (Fault.arity name expected args'.length)) :=
  .error (by rw [h.length_eq])

theorem concur_wrongType {α β : Type} {P : α → β → Prop}
    (name expected : String) {v w : Value} (h : v.Matches R w) :
    Concur Eq P (.error (Fault.wrongType name expected v))
      (.error (Fault.wrongType name expected w)) :=
  .error (by rw [Fault.wrongType, Fault.wrongType, h.typeName_eq])

namespace Arguments

theorem one_concur (name : String) (h : AllMatch R args args') :
    Concur Eq (Matches R) (one name args) (one name args') := by
  rcases h with _ | ⟨hx, _ | ⟨hy, h⟩⟩
  · exact concur_error _
  · exact concur_pure hx
  · exact concur_arity name _ (.cons hx (.cons hy h))

theorem two_concur (name : String) (h : AllMatch R args args') :
    Concur Eq (Paired (Matches R) (Matches R)) (two name args)
      (two name args') := by
  rcases h with _ | ⟨hx, _ | ⟨hy, _ | ⟨hz, h⟩⟩⟩
  · exact concur_error _
  · exact concur_error _
  · exact concur_pure (.mk hx hy)
  · exact concur_arity name _ (.cons hx (.cons hy (.cons hz h)))

variable {v w : Value}

theorem number_concur (name : String) (h : v.Matches R w) :
    Concur Eq Eq (number name v) (number name w) := by
  have herror := concur_wrongType (P := Eq (α := Float)) name "number" h
  cases h with
  | number => exact concur_pure rfl
  | _ => exact herror

theorem numbers_concur (name : String) (h : AllMatch R args args') :
    Concur Eq Eq (numbers name args) (numbers name args') := by
  have hnumbers :=
    concur_mapM (fun _ _ hvw => number_concur (R := R) name hvw) h
  rwa [List.forall₂_eq_eq_eq] at hnumbers

theorem sequence_concur (name : String) (h : v.Matches R w) :
    Concur Eq (AllMatch R) (sequence name v) (sequence name w) := by
  have herror := concur_wrongType (P := AllMatch R) name "sequence" h
  cases h with
  | list items _ => exact concur_pure items
  | vector items _ => exact concur_pure items
  | nil => exact concur_pure .nil
  | _ => exact herror

theorem indexed_concur (name : String) (h : v.Matches R w) :
    Concur Eq (fun xs ys : Items Value => AllMatch R xs.toList ys.toList)
      (indexed name v) (indexed name w) := by
  have hsequence :=
    (sequence_concur name h).map (f := Items.ofList) (g := Items.ofList)
      (Q := fun xs ys : Items Value => AllMatch R xs.toList ys.toList)
      fun _ _ hxs => hxs
  cases h with
  | vector items _ => exact concur_pure items
  | _ => exact hsequence

theorem mapping_concur (name : String) (h : v.Matches R w) :
    Concur Eq (ValueMap.Matches R) (mapping name v) (mapping name w) := by
  have herror := concur_wrongType (P := ValueMap.Matches R) name "map" h
  cases h with
  | map entries _ => exact concur_pure entries
  | nil => exact concur_pure ValueMap.matches_empty
  | _ => exact herror

end Arguments

/-! ## Numbers -/

namespace Arithmetic

open Arguments

theorem sumOf_concur (h : AllMatch R args args') :
    Concur Eq (Matches R) (sumOf args) (sumOf args') :=
  (numbers_concur "+" h).bind_eq fun _ => concur_pure .number

theorem differenceOf_concur (h : AllMatch R args args') :
    Concur Eq (Matches R) (differenceOf args) (differenceOf args') := by
  refine (numbers_concur "-" h).bind_eq fun xs => ?_
  split
  · exact concur_error _
  · exact concur_pure .number
  · exact concur_pure .number

theorem productOf_concur (h : AllMatch R args args') :
    Concur Eq (Matches R) (productOf args) (productOf args') :=
  (numbers_concur "*" h).bind_eq fun _ => concur_pure .number

theorem quotientOf_concur (h : AllMatch R args args') :
    Concur Eq (Matches R) (quotientOf args) (quotientOf args') := by
  refine (numbers_concur "/" h).bind_eq fun xs => ?_
  split
  · exact concur_error _
  · exact (concur_same _).bind_eq fun _ => concur_pure .number
  · exact (concur_same _).bind_eq fun _ => concur_pure .number

theorem remainderOf_concur (h : AllMatch R args args') :
    Concur Eq (Matches R) (remainderOf args) (remainderOf args') := by
  refine (two_concur "%" h).bind ?_
  rintro _ _ ⟨hx, hy⟩
  refine (number_concur "%" hx).bind_eq fun x =>
    (number_concur "%" hy).bind_eq fun y => ?_
  dsimp only
  split
  · exact concur_error _
  · exact concur_pure .number

theorem chained_eq {P : Value → Value → Prop} {rel rel' : Value → Value → Bool}
    (hrel : AssocList.Respects P rel rel') {xs ys : List Value}
    (h : List.Forall₂ P xs ys) : chained rel xs = chained rel' ys := by
  induction h with
  | nil => rfl
  | cons hx h ih => cases h with
    | nil => rfl
    | cons hy h => rw [chained, chained, hrel hx hy, ih]

theorem allSame_concur (name : String) (h : AllMatch R args args') :
    Concur Eq Eq (allSame name args) (allSame name args') := by
  have hchained := chained_eq Value.respects_beq h
  unfold allSame
  cases h with
  | nil => exact concur_error _
  | cons hx h => exact concur_pure hchained

theorem compareOf_concur (name : String) (rel : Float → Float → Bool)
    (h : AllMatch R args args') :
    Concur Eq (Matches R) (compareOf name rel args)
      (compareOf name rel args') := by
  have hnumbers := numbers_concur name h
  unfold compareOf
  cases h with
  | nil => exact concur_error _
  | cons hx h => exact hnumbers.bind_eq fun _ => concur_pure .bool

end Arithmetic

/-! ## Sequences -/

namespace Sequence

open Arguments

theorem firstOf_concur (h : AllMatch R args args') :
    Concur Eq (Matches R) (firstOf args) (firstOf args') :=
  (one_concur "first" h).bind fun _ _ hv =>
    concur_pure (matches_headD hv.itemsD)

theorem restOf_concur (h : AllMatch R args args') :
    Concur Eq (Matches R) (restOf args) (restOf args') :=
  (one_concur "rest" h).bind fun _ _ hv =>
    concur_pure (matches_vectorOf (allMatch_tail hv.itemsD))

theorem lengthOf_concur {v w : Value} (h : v.Matches R w) :
    Concur Eq Eq (lengthOf v) (lengthOf w) := by
  have herror := concur_wrongType (P := Eq (α := Nat)) "count" "collection" h
  cases h with
  | list items _ => exact concur_pure items.length_eq
  | vector items _ => exact concur_pure (Value.size_eq_of_allMatch items)
  | map entries _ => exact concur_pure entries.size
  | string => exact concur_pure rfl
  | nil => exact concur_pure rfl
  | _ => exact herror

theorem countOf_concur (h : AllMatch R args args') :
    Concur Eq (Matches R) (countOf args) (countOf args') :=
  (one_concur "count" h).bind fun _ _ hv =>
    (lengthOf_concur hv).bind_eq fun _ => concur_pure .number

theorem emptyOf_concur (h : AllMatch R args args') :
    Concur Eq (Matches R) (emptyOf args) (emptyOf args') := by
  refine (one_concur "empty?" h).bind fun v w hv => ?_
  cases hv with
  | list items _ => cases items <;> exact concur_pure .bool
  | vector items _ =>
      dsimp only
      rw [Value.size_eq_of_allMatch items]
      exact concur_pure .bool
  | map entries _ =>
      dsimp only
      rw [HashTrie.isEmpty, HashTrie.isEmpty, entries.size]
      exact concur_pure .bool
  | _ => exact concur_pure .bool

theorem consOf_concur (h : AllMatch R args args') :
    Concur Eq (Matches R) (consOf args) (consOf args') := by
  refine (two_concur "cons" h).bind ?_
  rintro _ _ ⟨hx, hcoll⟩
  refine (sequence_concur "cons" hcoll).bind fun items items' hitems => ?_
  exact concur_pure (.list (.cons hx hitems) R.none)

/-- What `nth` does when its arguments have been counted. -/
theorem nth_concur {coll coll' index index' : Value}
    {notFound notFound' : Option Value} (hcoll : coll.Matches R coll')
    (hindex : index.Matches R index')
    (hmissing : Option.Rel (Matches R) notFound notFound') :
    Concur Eq (Matches R)
      (do
        let items ← indexed "nth" coll
        let index ← number "nth" index
        match (Number.toNat? index).bind items.get?, notFound with
        | some item, _ => return item
        | none, some v => return v
        | none, none =>
            throw (.outOfBounds (Number.text index) items.size) :
              Except Fault Value)
      (do
        let items ← indexed "nth" coll'
        let index ← number "nth" index'
        match (Number.toNat? index).bind items.get?, notFound' with
        | some item, _ => return item
        | none, some v => return v
        | none, none =>
            throw (.outOfBounds (Number.text index) items.size)) := by
  refine (indexed_concur "nth" hcoll).bind fun items items' hitems => ?_
  refine (number_concur "nth" hindex).bind_eq fun i => ?_
  have hitem : Option.Rel (Matches R) ((Number.toNat? i).bind items.get?)
      ((Number.toNat? i).bind items'.get?) := by
    cases Number.toNat? i with
    | none => exact .none
    | some n => exact rel_get? hitems n
  generalize (Number.toNat? i).bind items.get? = item? at hitem
  generalize (Number.toNat? i).bind items'.get? = item?' at hitem
  cases hitem with
  | some hv => exact concur_pure hv
  | none => cases hmissing with
    | some hv => exact concur_pure hv
    | none => exact .error (by rw [Value.size_eq_of_allMatch hitems])

theorem nthOf_concur (h : AllMatch R args args') :
    Concur Eq (Matches R) (nthOf args) (nthOf args') := by
  unfold nthOf
  rcases h with _ | ⟨hcoll, _ | ⟨hindex, _ | ⟨hmissing, _ | ⟨hx, h⟩⟩⟩⟩
  · exact concur_error _
  · exact concur_error _
  · exact nth_concur hcoll hindex .none
  · exact nth_concur hcoll hindex (.some hmissing)
  · exact concur_arity "nth" _
      (.cons hcoll (.cons hindex (.cons hmissing (.cons hx h))))

theorem addEntries_concur {m n : ValueMap} (hm : m.Matches R n)
    {xs ys : List Value} (h : AllMatch R xs ys) :
    Concur Eq (ValueMap.Matches R) (addEntries m xs) (addEntries n ys) := by
  induction h generalizing m n with
  | nil => exact concur_pure hm
  | @cons x y _ _ hx _ ih =>
      have hitems := hx.items?
      rw [addEntries, addEntries]
      generalize x.items? = xs? at hitems
      generalize y.items? = ys? at hitems
      rcases hitems with ⟨_ | ⟨hk, _ | ⟨hv, _ | ⟨hz, _⟩⟩⟩⟩ | _
      · exact concur_error _
      · exact concur_error _
      · exact ih (hm.insert hk hv)
      · exact concur_error _
      · exact concur_error _

theorem conjOf_concur (h : AllMatch R args args') :
    Concur Eq (Matches R) (conjOf args) (conjOf args') := by
  rcases h with _ | ⟨hcoll, h⟩
  · exact concur_error _
  · have herror := concur_wrongType (P := Matches R) "conj" "collection" hcoll
    cases hcoll with
    | vector items _ =>
        refine concur_pure (.vector ?_ R.none)
        rw [Items.toList_append, Items.toList_append]
        exact List.rel_append items h
    | list items _ =>
        exact concur_pure
          (.list (List.rel_append (List.rel_reverse h) items) R.none)
    | nil => exact concur_pure (.list (List.rel_reverse h) R.none)
    | map entries _ =>
        exact (addEntries_concur entries h).map fun _ _ hm => .map hm R.none
    | _ => exact herror

theorem splitLast_matches {x x' : Value} {more more' : List Value}
    (hx : x.Matches R x') (h : AllMatch R more more') :
    AllMatch R (splitLast x more).1 (splitLast x' more').1 ∧
      (splitLast x more).2.Matches R (splitLast x' more').2 := by
  induction h generalizing x x' with
  | nil => exact ⟨.nil, hx⟩
  | cons hy _ ih => exact ⟨.cons hx (ih hy).1, (ih hy).2⟩

theorem zipWith_cons_matches {xs ys : List Value}
    {rows rows' : List (List Value)} (h : AllMatch R xs ys)
    (hrows : List.Forall₂ (AllMatch R) rows rows') :
    List.Forall₂ (AllMatch R) (List.zipWith (· :: ·) xs rows)
      (List.zipWith (· :: ·) ys rows') := by
  induction h generalizing rows rows' with
  | nil => exact .nil
  | cons hx _ ih => cases hrows with
    | nil => exact .nil
    | cons hrow hrows => exact .cons (.cons hx hrow) (ih hrows)

theorem singletons_match {xs ys : List Value} (h : AllMatch R xs ys) :
    List.Forall₂ (AllMatch R) (xs.map ([·])) (ys.map ([·])) :=
  List.rel_map (fun _ _ hx => .cons hx .nil) h

theorem rows_match {columns columns' : List (List Value)}
    (h : List.Forall₂ (AllMatch R) columns columns') :
    List.Forall₂ (AllMatch R) (rows columns) (rows columns') := by
  induction h with
  | nil => exact .nil
  | cons hcolumn h ih => cases h with
    | nil => exact singletons_match hcolumn
    | cons hcolumn' h => exact zipWith_cons_matches hcolumn ih

end Sequence

/-! ## Maps -/

namespace Mapping

open Arguments

theorem addPairs_concur (name : String) {m n : ValueMap} (hm : m.Matches R n)
    (h : AllMatch R args args') :
    Concur Eq (ValueMap.Matches R) (addPairs name m args)
      (addPairs name n args') := by
  fun_induction addPairs name m args generalizing n args' with
  | case1 m =>
      cases h
      exact concur_pure hm
  | case2 m k v rest ih =>
      obtain _ | ⟨hk, _ | ⟨hv, h⟩⟩ := h
      rw [addPairs]
      exact ih (hm.insert hk hv) h
  | case3 m x =>
      obtain _ | ⟨hx, _ | _⟩ := h
      exact concur_error _

theorem hashMapOf_concur (h : AllMatch R args args') :
    Concur Eq (Matches R) (hashMapOf args) (hashMapOf args') :=
  (addPairs_concur "hash-map" ValueMap.matches_empty h).bind fun _ _ hm =>
    concur_pure (.map hm R.none)

theorem find?_rel {coll coll' key key' : Value} (hcoll : coll.Matches R coll')
    (hkey : key.Matches R key') :
    Option.Rel (Matches R) (find? coll key) (find? coll' key') := by
  cases hcoll with
  | map entries _ => exact ValueMap.Matches.lookup entries hkey
  | vector items _ => cases hkey with
    | @number x =>
        simp only [find?, itemAt?]
        cases Number.toNat? x with
        | none => exact .none
        | some n => exact rel_get? items n
    | _ => exact .none
  | _ => exact .none

theorem getOf_concur (h : AllMatch R args args') :
    Concur Eq (Matches R) (getOf args) (getOf args') := by
  rcases h with _ | ⟨hcoll, _ | ⟨hkey, _ | ⟨hmissing, _ | ⟨hx, h⟩⟩⟩⟩
  · exact concur_error _
  · exact concur_error _
  · exact concur_pure (matches_getD (find?_rel hcoll hkey) .nil)
  · exact concur_pure (matches_getD (find?_rel hcoll hkey) hmissing)
  · exact concur_arity "get" _
      (.cons hcoll (.cons hkey (.cons hmissing (.cons hx h))))

theorem assocOf_concur (h : AllMatch R args args') :
    Concur Eq (Matches R) (assocOf args) (assocOf args') := by
  rcases h with _ | ⟨hcoll, _ | ⟨hk, _ | ⟨hv, h⟩⟩⟩
  · exact concur_error _
  · exact concur_error _
  · exact concur_error _
  · refine (mapping_concur "assoc" hcoll).bind fun m n hm => ?_
    exact (addPairs_concur "assoc" hm (.cons hk (.cons hv h))).bind
      fun _ _ hm' => concur_pure (.map hm' R.none)

theorem dissocOf_concur (h : AllMatch R args args') :
    Concur Eq (Matches R) (dissocOf args) (dissocOf args') := by
  rcases h with _ | ⟨hcoll, h⟩
  · exact concur_error _
  · refine (mapping_concur "dissoc" hcoll).bind fun m n hm =>
      concur_pure (.map ?_ R.none)
    exact List.rel_foldl (R := Matches R) (P := ValueMap.Matches R)
      (fun _ _ hm _ _ hk => ValueMap.Matches.erase hm hk) hm h

theorem keysOf_concur (h : AllMatch R args args') :
    Concur Eq (Matches R) (keysOf args) (keysOf args') :=
  (one_concur "keys" h).bind fun _ _ hv =>
    (mapping_concur "keys" hv).bind fun _ _ hm =>
      concur_pure (matches_vectorOf hm.keys)

theorem valsOf_concur (h : AllMatch R args args') :
    Concur Eq (Matches R) (valsOf args) (valsOf args') :=
  (one_concur "vals" h).bind fun _ _ hv =>
    (mapping_concur "vals" hv).bind fun _ _ hm =>
      concur_pure (matches_vectorOf hm.values)

theorem containsOf_concur (h : AllMatch R args args') :
    Concur Eq (Matches R) (containsOf args) (containsOf args') := by
  refine (two_concur "contains?" h).bind ?_
  rintro _ _ ⟨hcoll, hkey⟩
  have hfound := AssocList.isSome_eq_of_rel (find?_rel hcoll hkey)
  have herror :=
    concur_wrongType (P := Matches R) "contains?" "map or vector" hcoll
  cases hcoll with
  | map _ _ => dsimp only; rw [hfound]; exact concur_pure .bool
  | vector _ _ => dsimp only; rw [hfound]; exact concur_pure .bool
  | nil => exact concur_pure .bool
  | _ => exact herror

theorem keywordCall_concur (name : String) (h : AllMatch R args args') :
    Concur Eq (Matches R) (keywordCall name args) (keywordCall name args') := by
  rcases h with _ | ⟨htarget, _ | ⟨hdefault, _ | ⟨hx, h⟩⟩⟩
  · exact concur_error _
  · refine concur_pure ?_
    cases htarget with
    | map entries _ =>
        exact matches_getD (ValueMap.Matches.lookup entries .keyword) .nil
    | _ => exact .nil
  · refine concur_pure ?_
    cases htarget with
    | map entries _ =>
        exact matches_getD (ValueMap.Matches.lookup entries .keyword) hdefault
    | _ => exact hdefault
  · exact concur_arity _ _ (.cons htarget (.cons hdefault (.cons hx h)))

end Mapping

/-! ## Hosts -/

/-- Asked for the same on matching stores, the host answers the same
up to places. -/
structure Host.Mirrors (R : Places) (host : Host) : Prop where
  global : ∀ name, (HeapAction.lift (host.global name)).Mirrors R (Matches R)
    (HeapAction.lift (host.global name))
  construct : ∀ {ctor ctor' args args'}, ctor.Matches R ctor' →
    AllMatch R args args' →
    (HeapAction.lift (host.construct ctor args)).Mirrors R (Matches R)
      (HeapAction.lift (host.construct ctor' args'))
  invoke : ∀ {target target'} (member : String) {args args'},
    target.Matches R target' →
    AllMatch R args args' →
    (HeapAction.lift (host.invoke target member args)).Mirrors R (Matches R)
      (HeapAction.lift (host.invoke target' member args'))
  call : ∀ (key : String) (cell : CellId) {args args'}, AllMatch R args args' →
    (HeapAction.lift (host.call key cell args)).Mirrors R (Matches R)
      (HeapAction.lift (host.call key cell args'))

/-- The host looks at no place, whichever places correspond. -/
def Host.Blind (host : Host) : Prop :=
  ∀ R : Places, host.Mirrors R

namespace StandardHost

open HeapAction

theorem numberArg_concur (member : String) (i : Nat)
    (h : AllMatch R args args') :
    Concur Eq Eq (numberArg member args i) (numberArg member args' i) := by
  have harg := Value.rel_getElem? h i
  rw [numberArg, numberArg, h.length_eq]
  generalize args[i]? = v? at harg
  generalize args'[i]? = w? at harg
  cases harg with
  | none => exact concur_error _
  | some hv =>
      have herror := concur_wrongType (P := Eq (α := Float)) member "number" hv
      cases hv with
      | number => exact concur_pure rfl
      | _ => exact herror

theorem stringArg_concur (member : String) (i : Nat)
    (h : AllMatch R args args') :
    Concur Eq Eq (stringArg member args i) (stringArg member args' i) := by
  have harg := Value.rel_getElem? h i
  rw [stringArg, stringArg, h.length_eq]
  generalize args[i]? = v? at harg
  generalize args'[i]? = w? at harg
  cases harg with
  | none => exact concur_error _
  | some hv =>
      have herror := concur_wrongType (P := Eq (α := String)) member "string" hv
      cases hv with
      | string => exact concur_pure rfl
      | _ => exact herror

theorem numberArgs_concur (member : String) (h : AllMatch R args args') :
    Concur Eq Eq (numberArgs member args) (numberArgs member args') := by
  have hnumbers : Concur Eq (List.Forall₂ Eq) (numberArgs member args)
      (numberArgs member args') := by
    refine concur_mapM (fun v w hv => ?_) h
    have herror := concur_wrongType (P := Eq (α := Float)) member "number" hv
    cases hv with
    | number => exact concur_pure rfl
    | _ => exact herror
  rwa [List.forall₂_eq_eq_eq] at hnumbers

theorem unary_concur (member : String) (f : Float → Float)
    (h : AllMatch R args args') :
    Concur Eq (Matches R) (unary member args f) (unary member args' f) :=
  (numberArg_concur member 0 h).bind_eq fun _ => concur_pure .number

theorem math_concur (member : String) (h : AllMatch R args args') :
    Concur Eq (Matches R) (math member args) (math member args') := by
  unfold math
  split
  · exact concur_pure .number
  · exact concur_pure .number
  · exact unary_concur _ _ h
  · exact unary_concur _ _ h
  · exact unary_concur _ _ h
  · exact unary_concur _ _ h
  · exact unary_concur _ _ h
  · exact (numberArg_concur _ 0 h).bind_eq fun _ =>
        (numberArg_concur _ 1 h).bind_eq fun _ =>
          concur_pure .number
  · exact (numberArgs_concur _ h).bind_eq fun _ => concur_pure .number
  · exact (numberArgs_concur _ h).bind_eq fun _ => concur_pure .number
  · exact concur_error _

theorem stringMember_concur (s member : String) (h : AllMatch R args args') :
    Concur Eq (Matches R) (stringMember s member args)
      (stringMember s member args') := by
  unfold stringMember
  split
  · exact concur_pure .string
  · exact concur_pure .string
  · exact concur_pure .string
  · exact concur_pure .number
  · exact (stringArg_concur _ 0 h).bind_eq fun _ => concur_pure .bool
  · exact (stringArg_concur _ 0 h).bind_eq fun _ => concur_pure .bool
  · exact concur_error _

theorem bufferMember_mirrors {target target' : Value}
    (htarget : target.Matches R target') (buffer : Nat) (member : String)
    (h : AllMatch R args args') :
    (lift (bufferMember target buffer member args)).Mirrors R (Matches R)
      (lift (bufferMember target' buffer member args')) := by
  unfold bufferMember
  split
  · refine Mirrors.lift_bind_eq (mirrors_renderAll false h) fun texts => ?_
    exact Mirrors.lift_bind_eq (mirrors_appendBuffer buffer _) fun _ =>
      mirrors_pure htarget
  · exact Mirrors.lift_bind_eq (mirrors_readBuffer buffer) fun _ =>
      mirrors_pure .string
  · exact Mirrors.lift_bind_eq (mirrors_readBuffer buffer) fun _ =>
      mirrors_pure .number
  · exact mirrors_fail _

theorem global_mirrors (name : String) :
    (lift (global name)).Mirrors R (Matches R) (lift (global name)) := by
  unfold global
  split
  · exact Mirrors.lift_bind_eq mirrors_freshId fun _ => mirrors_pure .host
  · exact Mirrors.lift_bind_eq mirrors_freshId fun _ => mirrors_pure .host
  · exact Mirrors.lift_bind_eq mirrors_freshId fun _ => mirrors_pure .native
  · exact mirrors_fail _

theorem construct_mirrors {ctor ctor' : Value} (hctor : ctor.Matches R ctor')
    (h : AllMatch R args args') :
    (lift (construct ctor args)).Mirrors R (Matches R)
      (lift (construct ctor' args')) := by
  have hother : (lift (do
        HeapAction.fail
          (.host ((← HeapAction.render true ctor) ++ " is not a constructor")) :
        HeapAction Value)).Mirrors R (Matches R)
      (lift (do
        HeapAction.fail
          (.host
            ((← HeapAction.render true ctor') ++ " is not a constructor")))) :=
    Mirrors.lift_bind_eq (mirrors_render true hctor) fun _ => mirrors_fail _
  cases hctor with
  | host =>
      unfold construct
      split
      · refine Mirrors.lift_bind_eq (mirrors_renderAll false h) fun texts => ?_
        refine Mirrors.lift_bind_eq (mirrors_newBuffer _) fun buffer => ?_
        exact Mirrors.lift_bind_eq mirrors_freshId fun id => mirrors_pure .host
      · exact hother
  | _ => exact hother

theorem invoke_mirrors {target target' : Value}
    (htarget : target.Matches R target') (member : String)
    (h : AllMatch R args args') :
    (lift (invoke target member args)).Mirrors R (Matches R)
      (lift (invoke target' member args')) := by
  have hother : (lift (HeapAction.fail
        (.host ("Cannot invoke '" ++ member ++ "' on " ++ target.typeName)) :
          HeapAction Value)).Mirrors R (Matches R)
      (lift (HeapAction.fail (.host
        ("Cannot invoke '" ++ member ++ "' on " ++ target'.typeName)))) := by
    rw [htarget.typeName_eq]
    exact mirrors_fail _
  cases htarget with
  | string => exact mirrors_ofExcept (stringMember_concur _ member h)
  | host =>
      unfold invoke
      split
      · cases ‹Value.host _ _ _ = Value.string _›
      · exact mirrors_ofExcept (math_concur member h)
      · exact bufferMember_mirrors .host _ member h
      · exact mirrors_fail _
      · exact hother
  | _ => exact hother

/-- The standard host looks at no place. -/
theorem blind : Host.standard.Blind := fun _ =>
  { global := global_mirrors
    construct := construct_mirrors
    invoke := fun member _ _ => fun htarget h => invoke_mirrors htarget member h
    call := fun _ _ _ _ _ => mirrors_fail _ }

end StandardHost

namespace CountingHost

open HeapAction

theorem global_mirrors (name : String) :
    (lift (global name)).Mirrors R (Matches R) (lift (global name)) := by
  unfold global
  split
  · exact Mirrors.lift_bind_eq mirrors_freshId fun _ => mirrors_pure .host
  · exact mirrors_fail _

/-- The counting host looks at no place either. -/
theorem blind : Host.counting.Blind := fun _ =>
  { global := global_mirrors
    construct := fun _ h => mirrors_pure (matches_vectorOf h)
    invoke := fun member _ _ _ _ =>
      Mirrors.lift_bind_eq (mirrors_note member) fun _ => mirrors_pure .string
    call := fun _ _ _ _ _ => mirrors_fail _ }

end CountingHost

/-! ## Primitives -/

theorem displayed_mirrors (h : AllMatch R args args') :
    (HeapAction.lift (displayed args)).Mirrors R Eq
      (HeapAction.lift (displayed args')) :=
  HeapAction.Mirrors.lift_bind_eq (HeapAction.mirrors_renderAll false h) fun _ =>
    HeapAction.mirrors_pure rfl

theorem cellOf_concur (name : String) {v w : Value} (h : v.Matches R w) :
    Concur Eq Eq (cellOf name v) (cellOf name w) := by
  have herror := concur_wrongType (P := Eq (α := CellId)) name "atom" h
  cases h with
  | atom => exact concur_pure rfl
  | _ => exact herror

namespace Primitive

open Arguments Arithmetic Sequence Mapping HeapAction

theorem call_mirrors (p : Primitive) (h : AllMatch R args args') :
    (lift (p.call args)).Mirrors R (Matches R) (lift (p.call args')) := by
  cases p with
  | add => exact mirrors_ofExcept (sumOf_concur h)
  | sub => exact mirrors_ofExcept (differenceOf_concur h)
  | mul => exact mirrors_ofExcept (productOf_concur h)
  | div => exact mirrors_ofExcept (quotientOf_concur h)
  | rem => exact mirrors_ofExcept (remainderOf_concur h)
  | same =>
      exact mirrors_ofExcept ((allSame_concur "=" h).map fun _ _ hb => hb ▸ .bool)
  | notSame =>
      exact mirrors_ofExcept ((allSame_concur "not=" h).map fun _ _ hb =>
        hb ▸ .bool)
  | lt => exact mirrors_ofExcept (compareOf_concur _ _ h)
  | gt => exact mirrors_ofExcept (compareOf_concur _ _ h)
  | le => exact mirrors_ofExcept (compareOf_concur _ _ h)
  | ge => exact mirrors_ofExcept (compareOf_concur _ _ h)
  | not =>
      exact mirrors_ofExcept
        ((one_concur "not" h).map fun _ _ hv => hv.truthy_eq ▸ .bool)
  | str =>
      have hshown : AllMatch R (args.filter fun v => !v.isNil)
          (args'.filter fun v => !v.isNil) :=
        List.rel_filter (fun v w hv => by
          show (!v.isNil) = true ↔ (!w.isNil) = true
          rw [hv.isNil_eq]) h
      exact Mirrors.lift_bind_eq (mirrors_renderAll false hshown) fun _ =>
        mirrors_pure .string
  | prStr =>
      exact Mirrors.lift_bind_eq (mirrors_renderAll true h) fun _ =>
        mirrors_pure .string
  | print =>
      refine Mirrors.lift_bind_eq (displayed_mirrors h) fun text => ?_
      exact Mirrors.lift_bind_eq (mirrors_print _) fun _ => mirrors_pure .nil
  | println =>
      refine Mirrors.lift_bind_eq (displayed_mirrors h) fun text => ?_
      exact Mirrors.lift_bind_eq (mirrors_print _) fun _ => mirrors_pure .nil
  | list => exact mirrors_pure (.list h R.none)
  | vector => exact mirrors_pure (matches_vectorOf h)
  | first => exact mirrors_ofExcept (firstOf_concur h)
  | rest => exact mirrors_ofExcept (restOf_concur h)
  | count => exact mirrors_ofExcept (countOf_concur h)
  | isEmpty => exact mirrors_ofExcept (emptyOf_concur h)
  | cons => exact mirrors_ofExcept (consOf_concur h)
  | nth => exact mirrors_ofExcept (nthOf_concur h)
  | conj => exact mirrors_ofExcept (conjOf_concur h)
  | hashMap => exact mirrors_ofExcept (hashMapOf_concur h)
  | get => exact mirrors_ofExcept (getOf_concur h)
  | assoc => exact mirrors_ofExcept (assocOf_concur h)
  | dissoc => exact mirrors_ofExcept (dissocOf_concur h)
  | keys => exact mirrors_ofExcept (keysOf_concur h)
  | vals => exact mirrors_ofExcept (valsOf_concur h)
  | contains => exact mirrors_ofExcept (containsOf_concur h)
  | atom =>
      refine Mirrors.lift_bind (mirrors_ofExcept (one_concur "atom" h))
        fun v w hv => ?_
      exact Mirrors.lift_bind_eq (mirrors_newCell hv) fun _ =>
        mirrors_pure .atom
  | isAtom =>
      exact mirrors_ofExcept
        ((one_concur "atom?" h).map fun _ _ hv => hv.typeName_eq ▸ .bool)
  | deref =>
      refine Mirrors.lift_bind (mirrors_ofExcept (one_concur "deref" h))
        fun v w hv => ?_
      exact Mirrors.lift_bind_eq (mirrors_ofExcept (cellOf_concur "deref" hv))
        mirrors_readCell
  | reset =>
      refine Mirrors.lift_bind (mirrors_ofExcept (two_concur "reset!" h)) ?_
      rintro _ _ ⟨ha, hv⟩
      refine Mirrors.lift_bind_eq (mirrors_ofExcept (cellOf_concur "reset!" ha))
        fun cell => ?_
      exact Mirrors.lift_bind_eq (mirrors_writeCell cell hv) fun _ =>
        mirrors_pure hv
  | identity => exact mirrors_ofExcept (one_concur "identity" h)
  | type =>
      exact mirrors_ofExcept
        ((one_concur "type" h).map fun _ _ hv => hv.typeName_eq ▸ .keyword)
  | parseFloat =>
      exact mirrors_ofExcept
        ((StandardHost.stringArg_concur "parseFloat" 0 h).bind_eq fun _ =>
          concur_pure .number)

end Primitive

/-! ## Functions that call others -/

section

open Arguments Sequence

variable {apply : Apply}
  (happly : ∀ {f f' : Value} {args args' : List Value}, f.Matches R f' →
    AllMatch R args args' →
    (apply f args).Mirrors R (Matches R) (apply f' args'))
include happly

theorem mapCall_mirrors (h : AllMatch R args args') :
    (mapCall apply args).Mirrors R (Matches R) (mapCall apply args') := by
  have heach {f f' : Value} {rows rows' : List (List Value)}
      (hf : f.Matches R f') (hrows : List.Forall₂ (AllMatch R) rows rows') :
      Action.Mirrors R (Matches R)
        (do return .vectorOf (← Action.each (apply f ·) rows) : Action Value)
        (do return .vectorOf (← Action.each (apply f' ·) rows')) :=
    (Action.mirrors_each (fun _ _ hrow => happly hf hrow) hrows).bind
      fun _ _ hys => Action.mirrors_pure (matches_vectorOf hys)
  rcases h with _ | ⟨hf, _ | ⟨hcoll, _ | ⟨hcoll', hcolls⟩⟩⟩
  · exact Action.mirrors_fail _
  · exact Action.mirrors_fail _
  · refine (Action.mirrors_ofExcept (sequence_concur "map" hcoll)).bind
      fun items items' h => ?_
    exact heach hf (singletons_match h)
  · have hcolumns :=
      concur_mapM (P := Matches R) (fun _ _ hc => sequence_concur "map" hc)
        (.cons hcoll (.cons hcoll' hcolls))
    exact (Action.mirrors_ofExcept hcolumns).bind fun columns columns' h =>
      heach hf (rows_match h)

theorem applyCall_mirrors (h : AllMatch R args args') :
    (applyCall apply args).Mirrors R (Matches R) (applyCall apply args') := by
  rcases h with _ | ⟨hf, _ | ⟨hx, hmore⟩⟩
  · exact Action.mirrors_fail _
  · exact Action.mirrors_fail _
  · obtain ⟨hleading, hlast⟩ := splitLast_matches hx hmore
    refine (Action.mirrors_ofExcept (sequence_concur "apply" hlast)).bind
      fun items items' h => ?_
    exact happly hf (List.rel_append hleading h)

theorem swapCall_mirrors (h : AllMatch R args args') :
    (swapCall apply args).Mirrors R (Matches R) (swapCall apply args') := by
  rcases h with _ | ⟨ha, _ | ⟨hf, hmore⟩⟩
  · exact Action.mirrors_fail _
  · exact Action.mirrors_fail _
  · refine (Action.mirrors_ofExcept (cellOf_concur "swap!" ha)).bind_eq
      fun cell => ?_
    refine (HeapAction.mirrors_readCell cell).bind fun held held' hheld => ?_
    refine (happly hf (.cons hheld hmore)).bind fun v w hv => ?_
    exact (HeapAction.mirrors_writeCell cell hv).bind_eq fun _ =>
      Action.mirrors_pure hv

theorem Builtin.call_mirrors (b : Builtin) (h : AllMatch R args args') :
    (b.call apply args).Mirrors R (Matches R) (b.call apply args') := by
  cases b with
  | primitive p => exact p.call_mirrors h
  | map => exact mapCall_mirrors happly h
  | apply => exact applyCall_mirrors happly h
  | swap => exact swapCall_mirrors happly h

end

end TinyLisp
