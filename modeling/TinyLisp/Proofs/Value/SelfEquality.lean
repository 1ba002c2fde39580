import TinyLisp.Builtin.Call
import TinyLisp.Proofs.Value.Interchange

/-!
# The laws of equality

On values that programs can build, equality is symmetric and transitive. It is
not reflexive, since not-a-number differs from itself, and this is the only
reason: a value is equal to itself unless not-a-number stands somewhere in it.
Where it has to be looked for is in the value as data, so what a later pair of a
literal hides does not count.

Equality of a map with itself asks for each key to be found again, and what is
found may be another entry. Symmetry and transitivity make up for that: if a key
equals some key, it equals itself.

The function `=` compares neighbours only, and on these laws that is enough.
-/

namespace TinyLisp.Value

open HashTrie (LawfulOn)

/-! ## Values that are not equal to themselves -/

/-- Not-a-number stands in the value as data: as an item of a list or vector, or
in a key or a value of a map, and there at any depth. Atoms and functions are
not looked into. -/
inductive HoldsNaN : Value → Prop where
  | number {x : Float} (h : x.isNaN = true) : HoldsNaN (.number x)
  | item {v x : Value} {xs : List Value} (hi : v.items? = some xs) (hx : x ∈ xs)
      (h : HoldsNaN x) : HoldsNaN v
  | key {m : ValueMap} {e : Value × Value} (s : Option Span)
      (he : e ∈ m.entries) (h : HoldsNaN e.1) : HoldsNaN (.map m s)
  | value {m : ValueMap} {e : Value × Value} (s : Option Span)
      (he : e ∈ m.entries) (h : HoldsNaN e.2) : HoldsNaN (.map m s)
  | literal {ps : List (Value × Value)} {s : Option Span}
      (h : HoldsNaN (toData (.mapForm ps s))) : HoldsNaN (.mapForm ps s)

theorem holdsNaN_of_items {v : Value} {xs : List Value}
    (hi : v.items? = some xs) : HoldsNaN v ↔ ∃ x ∈ xs, HoldsNaN x := by
  constructor
  · intro h
    cases h with
    | number _ => cases hi
    | item hi' hx h =>
        rw [hi] at hi'
        obtain rfl := Option.some.inj hi'
        exact ⟨_, hx, h⟩
    | key s _ _ => cases hi
    | value s _ _ => cases hi
    | literal _ => cases hi
  · rintro ⟨x, hx, h⟩
    exact .item hi hx h

theorem holdsNaN_map {m : ValueMap} {s : Option Span} :
    HoldsNaN (.map m s) ↔ ∃ e ∈ m.entries, HoldsNaN e.1 ∨ HoldsNaN e.2 := by
  constructor
  · intro h
    cases h with
    | item hi _ _ => cases hi
    | key s he h => exact ⟨_, he, .inl h⟩
    | value s he h => exact ⟨_, he, .inr h⟩
  · rintro ⟨e, he, h | h⟩
    · exact .key s he h
    · exact .value s he h

theorem holdsNaN_mapForm {ps : List (Value × Value)} {s : Option Span} :
    HoldsNaN (.mapForm ps s) ↔ HoldsNaN (toData (.mapForm ps s)) := by
  constructor
  · intro h
    cases h with
    | item hi _ _ => cases hi
    | literal h => exact h
  · exact .literal

theorem holdsNaN_number {x : Float} :
    HoldsNaN (.number x) ↔ x.isNaN = true := by
  constructor
  · intro h
    cases h with
    | number h => exact h
    | item hi _ _ => cases hi
  · exact .number

theorem not_holdsNaN_of_leaf {v : Value} (hi : v.items? = none)
    (he : v.entriesBy? Value.beq = none) (hne : ∀ x, v ≠ .number x) :
    ¬ HoldsNaN v := by
  intro h
  cases h with
  | number _ => exact hne _ rfl
  | item hi' _ _ => rw [hi] at hi'; cases hi'
  | key _ _ _ => cases he
  | value _ _ _ => cases he
  | literal _ => cases he

theorem sameLeaf_self_iff {v : Value} (hi : v.items? = none)
    (he : v.entriesBy? Value.beq = none) :
    sameLeaf v v = true ↔ ¬ HoldsNaN v := by
  cases v with
  | number x =>
      have hself : sameLeaf (.number x) (.number x) = (x == x) := rfl
      rw [hself, Number.beq_self_iff, holdsNaN_number, Bool.not_eq_true]
  | list _ _ => cases hi
  | vector _ _ => cases hi
  | map _ _ => cases he
  | mapForm _ _ => cases he
  | _ =>
      exact iff_of_true (by simp [sameLeaf])
        (not_holdsNaN_of_leaf hi he (by simp))

theorem isEqv_self_iff {xs : List Value} :
    xs.isEqv xs Value.beq = true ↔ ∀ x ∈ xs, (x == x) = true := by
  induction xs with
  | nil => exact iff_of_true rfl (List.forall_mem_nil _)
  | cons x xs ih =>
      rw [List.isEqv_cons_cons, Bool.and_eq_true, ih, List.forall_mem_cons]; rfl

theorem sameEntries_self_iff {P : Value → Prop} (law : LawfulOn P)
    {es : List (Value × Value)} (hes : Keyed P es) :
    sameEntries Value.beq es es = true ↔
      ∀ e ∈ es, (e.1 == e.1) = true ∧ (e.2 == e.2) = true := by
  rw [sameEntries_iff law hes hes]
  constructor
  · rintro ⟨-, h⟩ e he
    obtain ⟨f, hf, hk, hv⟩ := h e he
    have hkey := law.symm (hes.keys f hf) (hes.keys e he) hk
    have hvalue := law.symm (hes.values f hf) (hes.values e he) hv
    exact ⟨law.trans (hes.keys e he) (hes.keys f hf) (hes.keys e he) hkey hk,
      law.trans (hes.values e he) (hes.values f hf) (hes.values e he) hvalue hv⟩
  · exact fun h => ⟨rfl, fun e he => ⟨e, he, h e he⟩⟩

/-- A value is equal to itself unless not-a-number stands in it. -/
theorem beq_self_iff {a : Value} (ha : Built a) :
    (a == a) = true ↔ ¬ HoldsNaN a := by
  induction hd : a.depth using Nat.strongRecOn generalizing a with
  | ind d ih =>
      subst hd
      have hpart {x : Value} (hx : Built x) (hlt : x.depth < a.depth) :
          (x == x) = true ↔ ¬ HoldsNaN x := ih x.depth hlt hx rfl
      have hmap {m : ValueMap} {s : Option Span} (hm : Built (.map m s))
          (hle : (Value.map m s).depth ≤ a.depth) :
          (Value.map m s == .map m s) = true ↔ ¬ HoldsNaN (.map m s) := by
        have hkeyed := hm.keyed rfl
        have hself : (Value.map m s == .map m s) =
            sameEntries Value.beq m.entries m.entries :=
          beq_eq ..
        rw [hself, sameEntries_self_iff lawfulOn_built hkeyed, holdsNaN_map,
          not_exists]
        refine forall_congr' fun e => ?_
        rw [not_and, not_or]
        refine forall_congr' fun he => ?_
        obtain ⟨hk, hv⟩ := depth_le_depthTrie he
        rw [depth] at hle
        rw [hpart (hkeyed.keys e he) (by omega),
          hpart (hkeyed.values e he) (by omega)]
      rcases items_or_entries_or_leaf a with ⟨xs, hxs⟩ | ⟨es, hes⟩ | ⟨hi, he⟩
      · have hself : (a == a) = true ↔ xs.isEqv xs Value.beq = true := by
          rw [beq_of_items hxs, hxs]
          simp
        rw [hself, isEqv_self_iff, holdsNaN_of_items hxs, not_exists]
        refine forall_congr' fun x => ?_
        rw [not_and]
        exact forall_congr' fun hx =>
          hpart (ha.of_mem_items hxs hx) (depth_lt_of_mem_items hxs hx)
      · cases a with
        | map m s => exact hmap ha (Nat.le_refl _)
        | mapForm ps s =>
            rw [beq_mapForm ha ha, holdsNaN_mapForm]
            exact hmap ha.toData (depth_toData_le (mapForm ps s))
        | _ => cases hes
      · rw [beq_of_leaf hi he, sameLeaf_self_iff hi he]

/-! ## Neighbours -/

/-- If each argument equals the next one, any two are equal. -/
theorem chained_iff_pairwise {args : List Value} (h : ∀ x ∈ args, Built x) :
    Arithmetic.chained Value.beq args = true ↔
      args.Pairwise fun x y => (x == y) = true := by
  induction args with
  | nil => exact iff_of_true rfl .nil
  | cons x args ih =>
      obtain ⟨hx, hargs⟩ := List.forall_mem_cons.mp h
      cases args with
      | nil => exact iff_of_true rfl (List.pairwise_singleton _ _)
      | cons y rest =>
          rw [Arithmetic.chained, Bool.and_eq_true, ih hargs,
            List.pairwise_cons (a := x)]
          refine and_congr_left fun hrest =>
            ⟨fun hxy z hz => ?_, fun hall => ?_⟩
          · rcases List.mem_cons.mp hz with rfl | hz
            · exact hxy
            · have hyz := (List.pairwise_cons.mp hrest).1 z hz
              exact lawfulOn_built.trans hx (hargs y List.mem_cons_self)
                (hargs z (List.mem_cons_of_mem y hz)) hxy hyz
          · exact hall y List.mem_cons_self

theorem pairwise_iff_of_ne {args : List Value} (h : ∀ x ∈ args, Built x) :
    (args.Pairwise fun x y => (x == y) = true) ↔
      ∀ i j (hi : i < args.length) (hj : j < args.length), i ≠ j →
        (args[i] == args[j]) = true := by
  rw [List.pairwise_iff_getElem]
  constructor
  · intro hlt i j hi hj hne
    rcases Nat.lt_or_gt_of_ne hne with hij | hji
    · exact hlt i j hi hj hij
    · exact lawfulOn_built.symm (h _ (List.getElem_mem hj))
        (h _ (List.getElem_mem hi)) (hlt j i hj hi hji)
  · exact fun hne i j hi hj hij => hne i j hi hj (Nat.ne_of_lt hij)

theorem call_same {args : List Value} (h : args ≠ []) (apply : Apply)
    (s : Store) :
    (Builtin.primitive .same).call apply args s =
      .result (.bool (Arithmetic.chained Value.beq args)) s := by
  cases args with
  | nil => exact absurd rfl h
  | cons x rest => rfl

/-! ## The laws -/

/-- Equality is symmetric and transitive, and a value is equal to itself exactly
when its data holds no not-a-number. The function `=`, called with any arguments
at all, gives a boolean and changes nothing, and it is true exactly when any two
arguments at different places are equal. -/
theorem equality_laws :
    (∀ a b : Value, a.Built → b.Built → (a == b) = true → (b == a) = true) ∧
    (∀ a b c : Value, a.Built → b.Built → c.Built → (a == b) = true →
      (b == c) = true →
      (a == c) = true) ∧
    (∀ a : Value, a.Built → ((a == a) = true ↔ ¬ HoldsNaN a)) ∧
    ∀ args : List Value, args ≠ [] → (∀ x ∈ args, x.Built) →
      ∀ (apply : Apply) (s : Store),
      ∃ b, (Builtin.primitive .same).call apply args s = .result (.bool b) s ∧
        (b = true ↔ ∀ i j (hi : i < args.length) (hj : j < args.length), i ≠ j →
          (args[i] == args[j]) = true) := by
  refine ⟨fun a b ha hb => lawfulOn_built.symm ha hb,
    fun a b c ha hb hc => lawfulOn_built.trans ha hb hc,
    fun a ha => beq_self_iff ha, ?_⟩
  intro args hne hargs apply s
  refine ⟨_, call_same hne apply s, ?_⟩
  rw [chained_iff_pairwise hargs, pairwise_iff_of_ne hargs]

/-- A literal whose pair with not-a-number is hidden by a later one, the map it
stands for, and a vector that has not-a-number for an item. The first two are
equal, to each other and to themselves; the vector is not, and `=` tells only
when it is called with two of it. -/
theorem equality_laws_hidden :
    let a : Value := .mapForm [(.keyword "k", .number Number.nan),
      (.keyword "k", .number 1)] none
    let b : Value := .map (.ofList [(.keyword "k", .number 1)]) none
    let c : Value := vectorOf [.number Number.nan]
    ¬ HoldsNaN a ∧ (b == a) = true ∧ HoldsNaN c ∧ (c == c) = false ∧
      ∀ (apply : Apply) (s : Store),
        (Builtin.primitive .same).call apply [a, b, a] s =
          .result (.bool true) s ∧
        (Builtin.primitive .same).call apply [c, c] s = .result (.bool false) s ∧
        (Builtin.primitive .same).call apply [c] s = .result (.bool true) s := by
  intro a b c
  have hkey : Built (.keyword "k") := .leaf rfl rfl
  have hnumber (x : Float) : Built (.number x) := .leaf rfl rfl
  have ha : Built a := .mapForm none (by simp [hkey]) (by simp [hnumber])
  have hb : Built b :=
    .map none (HashTrie.builtFrom_ofList (by simp [hkey, hnumber]))
  have hc : Built c := .items rfl (by simp [hnumber])
  have hnan : HoldsNaN c :=
    .item (x := .number Number.nan) rfl (by simp) (.number (by decide))
  obtain ⟨hsymm, htrans, hself, hsame⟩ := equality_laws
  have hab : (a == b) = true := by decide
  have hba := hsymm a b ha hb hab
  have haa := htrans a b a ha hb ha hab hba
  have hbb := htrans b a b hb ha hb hba hab
  have hcc : (c == c) = false :=
    Bool.eq_false_iff.mpr fun h => (hself c hc).mp h hnan
  have hall : ∀ x ∈ [a, b, a], ∀ y ∈ [a, b, a], (x == y) = true := by
    simp [haa, hab, hba, hbb]
  refine ⟨(hself a ha).mp haa, hba, hnan, hcc, fun apply s => ⟨?_, ?_, ?_⟩⟩
  · obtain ⟨r, hr, hiff⟩ := hsame [a, b, a] nofun (by simp [ha, hb]) apply s
    rw [hr, hiff.mpr fun i j hi hj _ =>
      hall _ (List.getElem_mem hi) _ (List.getElem_mem hj)]
  · obtain ⟨r, hr, hiff⟩ := hsame [c, c] nofun (by simp [hc]) apply s
    have hfalse : r = false := Bool.eq_false_iff.mpr fun h =>
      Bool.eq_false_iff.mp hcc (hiff.mp h 0 1 (by decide) (by decide) (by decide))
    rw [hr, hfalse]
  · obtain ⟨r, hr, hiff⟩ := hsame [c] nofun (by simp [hc]) apply s
    rw [hr, hiff.mpr fun i j hi hj hne => by simp at hi hj; omega]

end TinyLisp.Value
