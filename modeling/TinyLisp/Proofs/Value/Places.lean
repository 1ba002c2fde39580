import TinyLisp.Proofs.HashTrie.Alike
import TinyLisp.Proofs.Value.Clean
import TinyLisp.Proofs.Value.Render

/-!
# Values that differ in their places

A form carries the place where it was read. Two values match if they are the
same but for those places, and the places of one correspond to the places of
the other. Which places correspond is left open: all of them, if what is
shown is that places do not matter, or a place and the same place further
down in another text.

Nothing that is computed from a value looks at its place. Matching values have
the same type, text and hash, are equal to the same values, and are taken apart
into parts that match.
-/

namespace TinyLisp

open AssocList (Paired Respects)

/-- Which places of one run correspond to which places of another, where having
no place counts as a place. A failure without a place is given one, so the
relation has to be closed under that. -/
structure Places where
  rel : Option Span → Option Span → Prop
  none : rel none none
  or : ∀ {p p' q q' : Option Span}, rel p p' → rel q q' →
    rel (p.or q) (p'.or q')

/-- All places correspond to each other. -/
def Places.any : Places := ⟨fun _ _ => True, trivial, fun _ _ => trivial⟩

/-- Places correspond to themselves only. Values that match are then the same
but for how the items of a vector are divided between its two lists, which is
not to be seen. -/
def Places.same : Places := ⟨Eq, rfl, fun h h' => by rw [h, h']⟩

/-- Two places correspond if they are related by `S`, and having none
corresponds to having none. -/
def Places.lift (S : Span → Span → Prop) : Places where
  rel := Option.Rel S
  none := .none
  or {p p' q q'} hp hq := by
    cases hp with
    | none => exact hq
    | some h => exact .some h

variable {R : Places}

namespace Value

/-- The same value but for its places, which correspond. -/
inductive Matches (R : Places) : Value → Value → Prop where
  | nil : Matches R nil nil
  | bool {b : Bool} : Matches R (bool b) (bool b)
  | number {x : Float} : Matches R (number x) (number x)
  | string {s : String} : Matches R (string s) (string s)
  | symbol {name : String} {p q : Option Span} (place : R.rel p q) :
      Matches R (symbol name p) (symbol name q)
  | keyword {name : String} : Matches R (keyword name) (keyword name)
  | list {xs ys : List Value} {p q : Option Span}
      (items : List.Forall₂ (Matches R) xs ys) (place : R.rel p q) :
      Matches R (list xs p) (list ys q)
  | vector {xs ys : Items Value} {p q : Option Span}
      (items : List.Forall₂ (Matches R) xs.toList ys.toList)
      (place : R.rel p q) : Matches R (vector xs p) (vector ys q)
  | map {m n : HashTrie Value Value} {p q : Option Span}
      (entries : HashTrie.Alike (Matches R) (Matches R) m n)
      (place : R.rel p q) : Matches R (map m p) (map n q)
  | mapForm {ps qs : List (Value × Value)} {p q : Option Span}
      (pairs : List.Forall₂ (Paired (Matches R) (Matches R)) ps qs)
      (place : R.rel p q) : Matches R (mapForm ps p) (mapForm qs q)
  | atom {cell : CellId} : Matches R (atom cell) (atom cell)
  | closure {kind : ClosureKind} {name : Option String}
      {params params' body body' : Value} {scope : Option Scope} {id : ObjectId}
      (params_match : Matches R params params')
      (body_match : Matches R body body') :
      Matches R (closure kind name params body scope id)
        (closure kind name params' body' scope id)
  | native {name : String} {code : NativeCode} {id : ObjectId} :
      Matches R (native name code id) (native name code id)
  | host {typeName : String} {state : HostState} {id : ObjectId} :
      Matches R (host typeName state id) (host typeName state id)

end Value

/-- Values that match one by one. -/
abbrev AllMatch (R : Places) : List Value → List Value → Prop :=
  List.Forall₂ (Value.Matches R)

/-- Pairs whose keys and values match one by one. -/
abbrev PairsMatch (R : Places) :
    List (Value × Value) → List (Value × Value) → Prop :=
  List.Forall₂ (Paired (Value.Matches R) (Value.Matches R))

/-- Maps of the same shape whose keys and values match. -/
abbrev ValueMap.Matches (R : Places) : ValueMap → ValueMap → Prop :=
  HashTrie.Alike (Value.Matches R) (Value.Matches R)

namespace Value

variable {v w a a' b b' : Value} {xs ys : List Value}
  {ps qs : List (Value × Value)}

/-! ## What is seen of a value -/

theorem Matches.typeName_eq (h : Matches R v w) : v.typeName = w.typeName := by
  cases h with
  | @closure kind => cases kind <;> rfl
  | _ => rfl

theorem Matches.truthy_eq (h : Matches R v w) : v.truthy = w.truthy := by
  cases h <;> rfl

theorem Matches.isNil_eq (h : Matches R v w) : v.isNil = w.isNil := by
  cases h <;> rfl

theorem Matches.isSymbol_eq (h : Matches R v w) (name : String) :
    v.isSymbol name = w.isSymbol name := by
  cases h <;> rfl

theorem Matches.isKeyword_eq (h : Matches R v w) (name : String) :
    v.isKeyword name = w.isKeyword name := by
  cases h <;> rfl

theorem Matches.symbolName?_eq (h : Matches R v w) :
    v.symbolName? = w.symbolName? := by
  cases h <;> rfl

theorem Matches.isCallOf_eq (h : Matches R v w) (name : String) :
    v.isCallOf name = w.isCallOf name := by
  cases h with
  | list items _ => cases items with
    | nil => rfl
    | cons head _ => exact head.isSymbol_eq name
  | _ => rfl

theorem Matches.span (h : Matches R v w) : R.rel v.span w.span := by
  cases h with
  | symbol place => exact place
  | list _ place => exact place
  | vector _ place => exact place
  | map _ place => exact place
  | mapForm _ place => exact place
  | _ => exact R.none

theorem Matches.items? (h : Matches R v w) :
    Option.Rel (AllMatch R) v.items? w.items? := by
  cases h with
  | list items _ => exact .some items
  | vector items _ => exact .some items
  | _ => exact .none

theorem Matches.itemsD (h : Matches R v w) :
    AllMatch R (v.items?.getD []) (w.items?.getD []) := by
  have hitems := h.items?
  generalize v.items? = xs? at hitems
  generalize w.items? = ys? at hitems
  cases hitems with
  | none => exact .nil
  | some hxs => exact hxs

/-! ## Vectors -/

theorem matches_vectorOf (h : AllMatch R xs ys) :
    Matches R (vectorOf xs) (vectorOf ys) :=
  .vector h R.none

theorem size_eq_of_allMatch {xs ys : Items Value}
    (h : AllMatch R xs.toList ys.toList) : xs.size = ys.size := by
  rw [← Items.length_toList, ← Items.length_toList, h.length_eq]

theorem rel_getElem? {α β : Type} {P : α → β → Prop} {as : List α} {bs : List β}
    (h : List.Forall₂ P as bs) (i : Nat) : Option.Rel P as[i]? bs[i]? := by
  induction h generalizing i with
  | nil => exact .none
  | cons hab _ ih => cases i with
    | zero => exact .some hab
    | succ i => exact ih i

theorem rel_get? {xs ys : Items Value} (h : AllMatch R xs.toList ys.toList)
    (i : Nat) : Option.Rel (Matches R) (xs.get? i) (ys.get? i) := by
  rw [← Items.getElem?_toList, ← Items.getElem?_toList]
  exact rel_getElem? h i

theorem matches_headD (h : AllMatch R xs ys) :
    Matches R (xs.headD .nil) (ys.headD .nil) := by
  cases h with
  | nil => exact .nil
  | cons hx _ => exact hx

theorem allMatch_tail (h : AllMatch R xs ys) : AllMatch R xs.tail ys.tail := by
  cases h with
  | nil => exact .nil
  | cons _ h => exact h

theorem matches_getD {v? w? : Option Value} (h : Option.Rel (Matches R) v? w?)
    (hother : Matches R a b) : Matches R (v?.getD a) (w?.getD b) := by
  cases h with
  | none => exact hother
  | some hv => exact hv

/-! ## Depth -/

theorem depthItems_eq (xs : Items Value) : depthItems xs = depthAll xs.toList :=
  Nat.le_antisymm (depthItems_le fun _ => depth_le_depthAll)
    (depthAll_le fun _ => depth_le_depthItems)

theorem depthTrie_eq (m : HashTrie Value Value) :
    depthTrie m = depthPairs m.entries :=
  Nat.le_antisymm (depthTrie_le fun _ => depth_le_depthPairs)
    (depthPairs_le fun _ => depth_le_depthTrie)

theorem depthAll_eq (h : List.Forall₂ (fun x y => x.depth = y.depth) xs ys) :
    depthAll xs = depthAll ys := by
  induction h with
  | nil => rfl
  | cons hxy _ ih => rw [depthAll, depthAll, hxy, ih]

theorem depthPairs_eq (h : PairsMatch R ps qs)
    (hdepth : ∀ p ∈ ps, ∀ x y : Value, x = p.1 ∨ x = p.2 → Matches R x y →
      x.depth = y.depth) :
    depthPairs ps = depthPairs qs := by
  induction h with
  | nil => rfl
  | cons hp _ ih =>
      cases hp with
      | mk hk hv =>
          rw [depthPairs, depthPairs,
            hdepth _ List.mem_cons_self _ _ (.inl rfl) hk,
            hdepth _ List.mem_cons_self _ _ (.inr rfl) hv,
            ih fun p hp => hdepth p (List.mem_cons_of_mem _ hp)]

/-- Induction over matching values. The statement may be assumed of what
is less deep. -/
theorem Matches.induct {motive : Value → Value → Prop}
    (step : ∀ v w, Matches R v w →
      (∀ x y, x.depth < v.depth → Matches R x y → motive x y) → motive v w)
    (h : Matches R v w) : motive v w := by
  generalize hn : v.depth = n
  induction n using Nat.strongRecOn generalizing v w with
  | _ n ih => exact step v w h fun x y hx hxy => ih x.depth (hn ▸ hx) hxy rfl

theorem Matches.depth_eq (h : Matches R v w) : v.depth = w.depth := by
  refine Matches.induct (motive := fun v w => v.depth = w.depth)
    (fun v w h ih => ?_) h
  have hitems {xs ys} (hxs : v.items? = some xs) (h : AllMatch R xs ys) :
      depthAll xs = depthAll ys :=
    depthAll_eq (((List.forall₂_and_left _ _).mpr ⟨fun x hx => hx, h⟩).imp
      fun x y hxy => ih x y (depth_lt_of_mem_items hxs hxy.1) hxy.2)
  have hpairs {ps qs} (h : PairsMatch R ps qs)
      (hps : ∀ p ∈ ps, p.1.depth < v.depth ∧ p.2.depth < v.depth) :
      depthPairs ps = depthPairs qs := by
    refine depthPairs_eq h fun p hp x y hx hxy => ih x y ?_ hxy
    rcases hx with rfl | rfl
    · exact (hps p hp).1
    · exact (hps p hp).2
  cases h with
  | list items _ => rw [depth, depth, hitems rfl items]
  | vector items _ =>
      rw [depth, depth, depthItems_eq, depthItems_eq, hitems rfl items]
  | map entries _ =>
      rw [depth, depth, depthTrie_eq, depthTrie_eq, hpairs entries.entries]
      exact fun e he =>
        (depth_le_depthTrie he).imp Nat.lt_succ_of_le Nat.lt_succ_of_le
  | mapForm pairs _ =>
      rw [depth, depth, hpairs pairs]
      exact fun p hp =>
        (depth_le_depthPairs hp).imp Nat.lt_succ_of_le Nat.lt_succ_of_le
  | closure params_match _ =>
      rw [depth, depth, ih _ _ (Nat.lt_succ_self _) params_match]
  | _ => rfl

/-! ## Equality and hashing -/

theorem isEqv_eq {same same' : Value → Value → Bool} {P : Value → Value → Prop}
    {xs xs' ys ys' : List Value} (hsame : Respects P same same')
    (hx : List.Forall₂ P xs xs') (hy : List.Forall₂ P ys ys') :
    xs.isEqv ys same = xs'.isEqv ys' same' := by
  induction hx generalizing ys ys' with
  | nil => cases hy <;> rfl
  | cons hx _ ih => cases hy with
    | nil => rfl
    | cons hy hys =>
        rw [List.isEqv_cons_cons, List.isEqv_cons_cons, hsame hx hy, ih hys]

theorem sameEntries_eq {same same' : Value → Value → Bool}
    {P : Value → Value → Prop} {es es' fs fs' : List (Value × Value)}
    (hsame : Respects P same same') (he : List.Forall₂ (Paired P P) es es')
    (hf : List.Forall₂ (Paired P P) fs fs') :
    sameEntries same es fs = sameEntries same' es' fs' := by
  rw [sameEntries, sameEntries, he.length_eq, hf.length_eq]
  congr 1
  induction he with
  | nil => rfl
  | cons he _ ih =>
      have hfind := hsame.find? he.key hf
      rw [List.all_cons, List.all_cons, ih]
      congr 1
      generalize AssocList.find? same _ fs = v? at hfind
      generalize AssocList.find? same' _ fs' = w? at hfind
      cases hfind with
      | none => rfl
      | some hv => exact hsame hv he.value

theorem Matches.entriesBy? {same same' : Value → Value → Bool}
    (hsame : Respects (Matches R) same same') (h : Matches R v w) :
    Option.Rel (PairsMatch R) (v.entriesBy? same) (w.entriesBy? same') := by
  cases h with
  | map entries _ => exact .some entries.entries
  | mapForm pairs _ => exact .some (hsame.ofPairs pairs)
  | _ => exact .none

theorem sameLeaf_eq (ha : Matches R a a') (hb : Matches R b b') :
    sameLeaf a b = sameLeaf a' b' := by
  cases ha <;> cases hb <;> rfl

theorem respects_beqWithin (n : Nat) :
    Respects (Matches R) (beqWithin n) (beqWithin n) := by
  induction n with
  | zero => exact fun _ _ _ _ _ _ => rfl
  | succ n ih =>
      intro a a' b b' ha hb
      have hxs := ha.items?
      have hys := hb.items?
      have hes := ha.entriesBy? ih
      have hfs := hb.entriesBy? ih
      simp only [beqWithin, sameLeaf_eq ha hb]
      generalize a.items? = xs at hxs
      generalize a'.items? = xs' at hxs
      generalize b.items? = ys at hys
      generalize b'.items? = ys' at hys
      generalize a.entriesBy? (beqWithin n) = es at hes
      generalize a'.entriesBy? (beqWithin n) = es' at hes
      generalize b.entriesBy? (beqWithin n) = fs at hfs
      generalize b'.entriesBy? (beqWithin n) = fs' at hfs
      cases hxs with
      | some hxs => cases hys with
        | some hys => exact isEqv_eq ih hxs hys
        | none => rfl
      | none => cases hys with
        | some hys => rfl
        | none => cases hes with
          | some hes => cases hfs with
            | some hfs => exact sameEntries_eq ih hes hfs
            | none => rfl
          | none => cases hfs <;> rfl

/-- Which values are equal does not depend on places. -/
theorem respects_beq : Respects (Matches R) Value.beq Value.beq := by
  intro a a' b b' ha hb
  rw [Value.beq, Value.beq, ha.depth_eq, hb.depth_eq]
  exact respects_beqWithin _ ha hb

theorem hashLeaf_eq_of_matches (h : Matches R v w) :
    hashLeaf v = hashLeaf w := by
  cases h <;> rfl

theorem Matches.hashWithin_eq (n : Nat) (h : Matches R v w) :
    hashWithin n v = hashWithin n w := by
  induction n generalizing v w with
  | zero => rfl
  | succ n ih =>
      have hxs := h.items?
      have hes := h.entriesBy? respects_beq
      simp only [hashWithin, hashLeaf_eq_of_matches h]
      generalize v.items? = xs at hxs
      generalize w.items? = ys at hxs
      generalize v.entriesBy? Value.beq = es at hes
      generalize w.entriesBy? Value.beq = fs at hes
      cases hxs with
      | some hxs =>
          refine List.rel_foldl (P := Eq) (fun h h' hh x y hxy => ?_) rfl hxs
          rw [hh, ih hxy]
      | none => cases hes with
        | some hes =>
            refine List.rel_foldl (P := Eq) (fun h h' hh e f hef => ?_) rfl hes
            rw [hh, ih hef.key, ih hef.value]
        | none => rfl

theorem Matches.hash_eq (h : Matches R v w) : v.hash = w.hash := by
  rw [Value.hash, Value.hash, h.depth_eq]
  exact h.hashWithin_eq _

/-- As keys, matching values are the same. -/
theorem keysAlike : HashTrie.KeysAlike (Matches R) :=
  ⟨fun h => h.hash_eq, respects_beq⟩

end Value

/-! ## Maps -/

namespace ValueMap

variable {m n : ValueMap} {k k' v v' : Value}

theorem Matches.insert (h : Matches R m n) (hk : k.Matches R k')
    (hv : v.Matches R v') :
    Matches R (HashTrie.insert m k v) (HashTrie.insert n k' v') :=
  HashTrie.Alike.insert Value.keysAlike hk hv h

theorem Matches.erase (h : Matches R m n) (hk : k.Matches R k') :
    Matches R (HashTrie.erase m k) (HashTrie.erase n k') :=
  HashTrie.Alike.erase Value.keysAlike hk h

theorem Matches.get? (h : Matches R m n) (hk : k.Matches R k') :
    Option.Rel (Value.Matches R) (HashTrie.get? m k) (HashTrie.get? n k') :=
  HashTrie.Alike.get? Value.keysAlike hk h

theorem matches_empty : Matches R {} {} := HashTrie.alike_empty

theorem Matches.lookup (h : Matches R m n) (hk : k.Matches R k') :
    Option.Rel (Value.Matches R) (ValueMap.lookup m k)
      (ValueMap.lookup n k') := by
  have hget := h.get? hk
  rw [ValueMap.lookup, ValueMap.lookup]
  generalize HashTrie.get? m k = v? at hget
  generalize HashTrie.get? n k' = w? at hget
  cases hget with
  | none => exact Value.respects_beq.find? hk h.entries
  | some hv => exact .some hv

end ValueMap

namespace Value

variable {v w : Value} {xs ys : List Value}

/-! ## Forms as data -/

theorem Matches.toData (h : Matches R v w) : Matches R v.toData w.toData := by
  refine Matches.induct (motive := fun v w => Matches R v.toData w.toData)
    (fun v w h ih => ?_) h
  have hitems {xs ys} (hxs : v.items? = some xs) (h : AllMatch R xs ys) :
      AllMatch R (xs.map Value.toData) (ys.map Value.toData) := by
    refine List.forall₂_map_left_iff.mpr (List.forall₂_map_right_iff.mpr ?_)
    exact ((List.forall₂_and_left _ _).mpr ⟨fun x hx => hx, h⟩).imp
      fun x y hxy => ih x y (depth_lt_of_mem_items hxs hxy.1) hxy.2
  cases h with
  | list items place =>
      rw [Value.toData, Value.toData, toDataAll_eq_map, toDataAll_eq_map]
      exact .list (hitems rfl items) place
  | vector items place =>
      rw [Value.toData, Value.toData]
      refine .vector ?_ place
      rw [toList_toDataItems, toList_toDataItems]
      exact hitems rfl items
  | mapForm pairs place =>
      rw [Value.toData, Value.toData, toDataPairs_eq_map, toDataPairs_eq_map]
      refine .map (HashTrie.Alike.ofList keysAlike ?_) place
      refine List.forall₂_map_left_iff.mpr (List.forall₂_map_right_iff.mpr ?_)
      refine ((List.forall₂_and_left _ _).mpr ⟨fun p hp => hp, pairs⟩).imp
        fun p q hpq => ?_
      obtain ⟨hk, hv⟩ := depth_le_depthPairs hpq.1
      exact .mk (ih _ _ (Nat.lt_succ_of_le hk) hpq.2.key)
        (ih _ _ (Nat.lt_succ_of_le hv) hpq.2.value)
  | map entries place => exact .map entries place
  | symbol place => exact .symbol place
  | closure params_match body_match => exact .closure params_match body_match
  | _ => constructor

theorem allMatch_toData (h : AllMatch R xs ys) :
    AllMatch R (xs.map Value.toData) (ys.map Value.toData) :=
  List.rel_map (fun _ _ h => h.toData) h

/-! ## Texts -/

theorem map_text_eq {f g : Value → String}
    (hfg : ∀ v w, Matches R v w → f v = g w) (h : AllMatch R xs ys) :
    xs.map f = ys.map g := by
  rw [← List.forall₂_eq_eq_eq]
  exact List.rel_map (fun _ _ h => hfg _ _ h) h

theorem alternating_text_eq {f g : Value → String}
    (hfg : ∀ v w, Matches R v w → f v = g w) {ps qs : List (Value × Value)}
    (h : PairsMatch R ps qs) : alternating f ps = alternating g qs := by
  rw [← List.forall₂_eq_eq_eq]
  refine List.rel_flatMap h fun p q hpq => ?_
  exact .cons (hfg _ _ hpq.key) (.cons (hfg _ _ hpq.value) .nil)

theorem Matches.renderWithin_eq (cellText : Bool → CellId → String) (n : Nat)
    (readable : Bool) (h : Matches R v w) :
    renderWithin cellText n readable v = renderWithin cellText n readable w := by
  induction n generalizing readable v w with
  | zero => rfl
  | succ n ih =>
      have hpart : ∀ x y, Matches R x y →
          renderWithin cellText n readable x =
            renderWithin cellText n readable y :=
        fun x y hxy => ih readable hxy
      cases h with
      | list items _ => rw [renderWithin, renderWithin, map_text_eq hpart items]
      | vector items _ =>
          rw [renderWithin, renderWithin, map_text_eq hpart items]
      | map entries _ =>
          rw [renderWithin, renderWithin,
            alternating_text_eq hpart entries.entries]
      | mapForm pairs _ =>
          rw [renderWithin, renderWithin, alternating_text_eq hpart pairs]
      | @closure kind _ _ _ _ _ _ _ params_match _ =>
          cases kind with
          | function => rw [renderWithin, renderWithin, ih true params_match]
          | expander => rw [renderWithin, renderWithin, ih true params_match]
      | _ => rfl

/-- The text of a value shows no place, nor does that of what its atoms hold. -/
theorem Matches.render_eq {cells cells' : Array Value}
    (hcells : AllMatch R cells.toList cells'.toList) (readable : Bool)
    (h : Matches R v w) :
    v.render cells readable = w.render cells' readable := by
  have hsize : cells.size = cells'.size := hcells.length_eq
  rw [Value.render, Value.render, hsize]
  generalize cells'.size = n
  induction n generalizing readable v w with
  | zero =>
      rw [renderFollowing, renderFollowing, h.depth_eq]
      exact h.renderWithin_eq _ _ _
  | succ n ih =>
      rw [renderFollowing, renderFollowing, h.depth_eq, h.renderWithin_eq]
      congr 1
      funext readable cell
      have hcell := rel_getElem? hcells cell
      rw [Array.getElem?_toList, Array.getElem?_toList] at hcell
      generalize cells[cell]? = v? at hcell
      generalize cells'[cell]? = w? at hcell
      cases hcell with
      | none => rfl
      | some hv => exact ih readable hv

/-! ## The places in a value -/

/-- The place is that of the value or of something that stands in it,
at any depth. -/
inductive Bears (a : Span) : Value → Prop where
  | here {v : Value} (h : v.span = some a) : Bears a v
  | part {v w : Value} (hw : w ∈ v.formParts) (h : Bears a w) : Bears a v

/-- Every place in the value corresponds to itself. -/
def Stays (R : Places) (v : Value) : Prop :=
  ∀ a, v.Bears a → R.rel (some a) (some a)

theorem Stays.place (h : v.Stays R) : R.rel v.span v.span := by
  cases hv : v.span with
  | none => exact R.none
  | some a => exact h a (.here hv)

theorem Stays.part (h : v.Stays R) (hw : w ∈ v.formParts) : w.Stays R :=
  fun a ha => h a (.part hw ha)

mutual

/-- A value whose places correspond to themselves matches itself. -/
theorem matches_self : ∀ v : Value, v.Stays R → Matches R v v
  | nil, _ => .nil
  | bool _, _ => .bool
  | number _, _ => .number
  | string _, _ => .string
  | symbol _ _, h => .symbol h.place
  | keyword _, _ => .keyword
  | list xs _, h => .list (allMatch_self xs fun _ hx => h.part hx) h.place
  | vector ⟨front, added⟩ p, h => by
      refine .vector ?_ h.place
      have hitems : ∀ x ∈ (Items.mk front added).toList, x.Stays R :=
        fun _ hx => h.part hx
      rw [Items.toList_eq] at hitems ⊢
      refine List.rel_append ?_ (List.rel_reverse ?_)
      · exact allMatch_self front fun x hx =>
          hitems x (List.mem_append_left _ hx)
      · refine allMatch_self added fun x hx =>
          hitems x (List.mem_append_right _ ?_)
        exact List.mem_reverse.mpr hx
  | map ⟨none, _⟩ _, h => .map (.mk .none) h.place
  | map ⟨some n, _⟩ _, h =>
      .map (.mk (.some (nodeMatches_self n fun _ hx => h.part hx))) h.place
  | mapForm ps _, h =>
      .mapForm (pairsMatch_self ps fun _ hx => h.part hx) h.place
  | atom _, _ => .atom
  | closure _ _ params body _ _, h =>
      .closure (matches_self params (h.part List.mem_cons_self))
        (matches_self body (h.part (List.mem_cons_of_mem _ List.mem_cons_self)))
  | native _ _ _, _ => .native
  | host _ _ _, _ => .host

theorem allMatch_self :
    ∀ xs : List Value, (∀ x ∈ xs, x.Stays R) → AllMatch R xs xs
  | [], _ => .nil
  | x :: xs, h => .cons (matches_self x (h x List.mem_cons_self))
      (allMatch_self xs fun y hy => h y (List.mem_cons_of_mem x hy))

theorem pairsMatch_self :
    ∀ ps : List (Value × Value), (∀ x ∈ sides ps, x.Stays R) →
      PairsMatch R ps ps
  | [], _ => .nil
  | (k, v) :: ps, h => by
      obtain ⟨hp, hps⟩ := List.forall_mem_cons.mp (forall_mem_sides.mp h)
      exact .cons (.mk (matches_self k hp.1) (matches_self v hp.2))
        (pairsMatch_self ps (forall_mem_sides.mpr hps))

theorem nodeMatches_self :
    ∀ n : HashTrie.Node Value Value, (∀ x ∈ sides n.entries, x.Stays R) →
    HashTrie.Node.Alike (Matches R) (Matches R) n n
  | .leaf _ k v, h => by
      obtain ⟨hk, hv⟩ := forall_mem_sides.mp h (k, v) List.mem_cons_self
      exact .leaf (matches_self k hk) (matches_self v hv)
  | .collision _ es, h => .collision (pairsMatch_self es h)
  | .branch _ cs, h => .branch (nodesMatch_self cs h)

theorem nodesMatch_self : ∀ cs : List (HashTrie.Node Value Value),
    (∀ x ∈ sides (HashTrie.Node.entriesAll cs), x.Stays R) →
    List.Forall₂ (HashTrie.Node.Alike (Matches R) (Matches R)) cs cs
  | [], _ => .nil
  | c :: cs, h => by
      obtain ⟨hc, hcs⟩ := List.forall_mem_append.mp (forall_mem_sides.mp h)
      exact .cons (nodeMatches_self c (forall_mem_sides.mpr hc))
        (nodesMatch_self cs (forall_mem_sides.mpr hcs))

end

end Value

end TinyLisp
