import TinyLisp.Proofs.HashTrie.Members
import TinyLisp.Proofs.Value.Data

/-!
# Values without map literals

A map literal is syntax. Evaluating a form makes a map of it, and so does taking
the form as data, but each of the ways by which a form becomes a value has to
see to that.

A value is clean if no map literal stands in it. A form may hold literals, of
course, in lists, in vectors and in each other. But where it holds something
that is a value already, a map or an object, nothing looks inside any more, so
there it has to be clean: such a form is admissible. The body of a closure is a
form that is still to be evaluated. It belongs to the closure as a form and not
as a value, and so what a program may hold without harm is a clean value all of
whose bodies are admissible, a tidy one.
-/

namespace TinyLisp

namespace Value

def isMapForm : Value → Bool
  | mapForm _ _ => true
  | _ => false

/-- Both sides of several pairs. -/
def sides (ps : List (Value × Value)) : List Value :=
  ps.flatMap fun p => [p.1, p.2]

/-- What stands in a value: items, keys and values, and the parameters
of a closure. -/
def dataParts : Value → List Value
  | list xs _ => xs
  | vector xs _ => xs.toList
  | map m _ => sides m.entries
  | closure _ _ params _ _ _ => [params]
  | _ => []

/-- The body of a closure, which is a form. -/
def bodies : Value → List Value
  | closure _ _ _ body _ _ => [body]
  | _ => []

/-- What stands in a form: also the keys and values of a map literal and the
body of a closure. -/
def formParts : Value → List Value
  | mapForm ps _ => sides ps
  | closure _ _ params body _ _ => [params, body]
  | v => v.dataParts

/-- Whether this is a value already where it stands in a form. -/
def isEmbedded : Value → Bool
  | map _ _ => true
  | atom _ => true
  | closure _ _ _ _ _ _ => true
  | native _ _ _ => true
  | host _ _ _ => true
  | _ => false

/-- No map literal stands in the value. -/
inductive Clean : Value → Prop where
  | intro {v : Value} (literal : v.isMapForm = false)
      (parts : ∀ p ∈ v.dataParts, Clean p) : Clean v

/-- Every map, and everything else that is a value already where it stands in
the form, is clean. -/
inductive Admissible : Value → Prop where
  | intro {v : Value} (embedded : v.isEmbedded = true → Clean v)
      (parts : ∀ p ∈ v.formParts, Admissible p) : Admissible v

/-- No map literal stands in the value, and the body of each closure that stands
in it is admissible. -/
inductive Tidy : Value → Prop where
  | intro {v : Value} (literal : v.isMapForm = false)
      (parts : ∀ p ∈ v.dataParts, Tidy p)
      (bodies : ∀ b ∈ v.bodies, Admissible b) : Tidy v

end Value

/-- All of the forms are admissible. -/
def AllAdmissible (forms : List Value) : Prop :=
  ∀ form ∈ forms, form.Admissible

/-- All of the values are tidy. -/
def AllTidy (vs : List Value) : Prop :=
  ∀ v ∈ vs, v.Tidy

/-- The keys and values of the map are tidy. -/
def ValueMap.Tidy (m : ValueMap) : Prop :=
  ∀ e ∈ m.entries, e.1.Tidy ∧ e.2.Tidy

namespace Value

theorem forall_mem_sides {P : Value → Prop} {ps : List (Value × Value)} :
    (∀ x ∈ sides ps, P x) ↔ ∀ p ∈ ps, P p.1 ∧ P p.2 := by
  rw [sides, List.forall_mem_flatMap]
  exact forall₂_congr fun p _ => by simp

theorem mem_formParts {v p : Value} (hv : v.isMapForm = false) :
    p ∈ v.formParts ↔ p ∈ v.dataParts ∨ p ∈ v.bodies := by
  cases v with
  | mapForm ps s => cases hv
  | closure k n params body sc i =>
      exact List.mem_append (s := [params]) (t := [body])
  | _ => exact (or_iff_left List.not_mem_nil).symm

/-! ## Parts -/

theorem Tidy.not_mapForm {v : Value} (h : v.Tidy) : v.isMapForm = false := by
  cases h with
  | intro literal _ _ => exact literal

theorem Tidy.of_mem_dataParts {v p : Value} (h : v.Tidy)
    (hp : p ∈ v.dataParts) : p.Tidy := by
  cases h with
  | intro _ parts _ => exact parts p hp

theorem Tidy.of_mem_bodies {v b : Value} (h : v.Tidy) (hb : b ∈ v.bodies) :
    b.Admissible := by
  cases h with
  | intro _ _ bodies => exact bodies b hb

theorem Admissible.of_mem_formParts {v p : Value} (h : v.Admissible)
    (hp : p ∈ v.formParts) : p.Admissible := by
  cases h with
  | intro _ parts => exact parts p hp

theorem Tidy.clean {v : Value} (h : v.Tidy) : v.Clean := by
  induction h with
  | intro literal _ _ ih => exact .intro literal ih

/-- A value may be evaluated like any form. -/
theorem Tidy.admissible {v : Value} (h : v.Tidy) : v.Admissible := by
  induction h with
  | intro literal parts bodies ih =>
      refine .intro (fun _ => (Tidy.intro literal parts bodies).clean)
        fun p hp => ?_
      rcases (mem_formParts literal).mp hp with hp | hp
      · exact ih p hp
      · exact bodies p hp

theorem Clean.tidy {v : Value} (h : v.Clean) (hv : v.Admissible) : v.Tidy := by
  induction h with
  | intro literal parts ih =>
      refine .intro literal (fun p hp => ih p hp ?_) fun b hb => ?_
      · exact hv.of_mem_formParts ((mem_formParts literal).mpr (.inl hp))
      · exact hv.of_mem_formParts ((mem_formParts literal).mpr (.inr hb))

theorem Admissible.tidy_of_embedded {v : Value} (h : v.Admissible)
    (he : v.isEmbedded = true) : v.Tidy := by
  refine Clean.tidy ?_ h
  cases h with
  | intro embedded _ => exact embedded he

theorem tidy_leaf {v : Value} (hv : v.isMapForm = false)
    (h : v.formParts = []) : v.Tidy := by
  have hnone (p : Value) : ¬(p ∈ v.dataParts ∨ p ∈ v.bodies) := by
    rw [← mem_formParts hv, h]
    exact List.not_mem_nil
  exact .intro hv (fun p hp => absurd (.inl hp) (hnone p)) fun b hb =>
    absurd (.inr hb) (hnone b)

theorem admissible_leaf {v : Value} (hv : v.isMapForm = false)
    (h : v.formParts = []) : v.Admissible :=
  (tidy_leaf hv h).admissible

theorem tidy_list {xs : List Value} {s : Option Span} :
    (list xs s).Tidy ↔ AllTidy xs :=
  ⟨fun h _ hx => h.of_mem_dataParts hx, fun h => .intro rfl h nofun⟩

theorem tidy_vector {xs : Items Value} {s : Option Span} :
    (vector xs s).Tidy ↔ AllTidy xs.toList :=
  ⟨fun h _ hx => h.of_mem_dataParts hx, fun h => .intro rfl h nofun⟩

theorem tidy_vectorOf {xs : List Value} : (vectorOf xs).Tidy ↔ AllTidy xs :=
  tidy_vector

theorem tidy_map {m : ValueMap} {s : Option Span} : (map m s).Tidy ↔ m.Tidy :=
  ⟨fun h => forall_mem_sides.mp fun _ hx => h.of_mem_dataParts hx,
    fun h => .intro rfl (forall_mem_sides.mpr h) nofun⟩

theorem tidy_closure {kind : ClosureKind} {name : Option String}
    {params body : Value} {scope : Option Scope} {id : ObjectId} :
    (closure kind name params body scope id).Tidy ↔
      params.Tidy ∧ body.Admissible := by
  constructor
  · intro h
    exact ⟨h.of_mem_dataParts List.mem_cons_self,
      h.of_mem_bodies List.mem_cons_self⟩
  · rintro ⟨hparams, hbody⟩
    refine .intro rfl (fun p hp => ?_) fun b hb => ?_
    · obtain rfl := List.mem_singleton.mp hp
      exact hparams
    · obtain rfl := List.mem_singleton.mp hb
      exact hbody

theorem Tidy.of_items {v : Value} {xs : List Value} (h : v.Tidy)
    (hi : v.items? = some xs) : AllTidy xs := by
  cases v with
  | list ys s =>
      obtain rfl := Option.some.inj hi
      exact tidy_list.mp h
  | vector ys s =>
      obtain rfl := Option.some.inj hi
      exact tidy_vector.mp h
  | _ => cases hi

theorem Admissible.of_items {v : Value} {xs : List Value} (h : v.Admissible)
    (hi : v.items? = some xs) : AllAdmissible xs := by
  cases v with
  | list ys s =>
      obtain rfl := Option.some.inj hi
      exact fun x hx => h.of_mem_formParts hx
  | vector ys s =>
      obtain rfl := Option.some.inj hi
      exact fun x hx => h.of_mem_formParts hx
  | _ => cases hi

theorem admissible_list {xs : List Value} {s : Option Span}
    (h : AllAdmissible xs) : (list xs s).Admissible :=
  .intro nofun h

theorem admissible_vector {xs : Items Value} {s : Option Span}
    (h : AllAdmissible xs.toList) : (vector xs s).Admissible :=
  .intro nofun h

theorem admissible_mapForm {ps : List (Value × Value)} {s : Option Span} :
    (mapForm ps s).Admissible ↔ ∀ p ∈ ps, p.1.Admissible ∧ p.2.Admissible :=
  ⟨fun h => forall_mem_sides.mp fun _ hx => h.of_mem_formParts hx,
    fun h => .intro nofun (forall_mem_sides.mpr h)⟩

/-! ## Taking a form as data -/

/-- Without items and no literal, a form is a value already. -/
theorem Admissible.tidy {v : Value} (h : v.Admissible)
    (hv : v.isMapForm = false) (hi : v.items? = none) : v.Tidy := by
  by_cases he : v.isEmbedded = true
  · exact h.tidy_of_embedded he
  · refine tidy_leaf hv ?_
    cases v <;> simp_all [isMapForm, items?, isEmbedded, formParts, dataParts]

theorem Admissible.tidy_toData {v : Value} (h : v.Admissible) :
    v.toData.Tidy := by
  induction h with
  | @intro v embedded parts ih =>
      cases v with
      | list xs s =>
          rw [toData, toDataAll_eq_map]
          refine tidy_list.mpr fun y hy => ?_
          obtain ⟨x, hx, rfl⟩ := List.mem_map.mp hy
          exact ih x hx
      | vector xs s =>
          rw [toData, tidy_vector, toList_toDataItems]
          intro y hy
          obtain ⟨x, hx, rfl⟩ := List.mem_map.mp hy
          exact ih x hx
      | mapForm ps s =>
          rw [toData, tidy_map, toDataPairs_eq_map]
          intro e he
          obtain ⟨p, hp, rfl⟩ :=
            List.mem_map.mp (HashTrie.mem_entries_ofList he)
          exact forall_mem_sides.mp ih p hp
      | _ => exact (Admissible.intro embedded parts).tidy rfl rfl

end Value

/-! ## Several values -/

section

variable {vs : List Value}

theorem AllTidy.tail (h : AllTidy vs) : AllTidy vs.tail :=
  fun v hv => h v (List.mem_of_mem_tail hv)

theorem AllTidy.headD (h : AllTidy vs) : (vs.headD .nil).Tidy := by
  cases vs with
  | nil => exact Value.tidy_leaf rfl rfl
  | cons v vs => exact h v List.mem_cons_self

end

namespace ValueMap

open Value

variable {m : ValueMap} {key value : Value}

theorem tidy_empty : Tidy {} := nofun

theorem Tidy.insert (h : Tidy m) (hk : key.Tidy) (hv : value.Tidy) :
    Tidy (m.insert key value) := by
  intro e he
  rcases HashTrie.mem_entries_insert he with rfl | he
  · exact ⟨hk, hv⟩
  · exact h e he

theorem Tidy.erase (h : Tidy m) (key : Value) : Tidy (m.erase key) :=
  fun e he => h e (HashTrie.mem_entries_erase he)

theorem Tidy.get? (h : Tidy m) (hget : m.get? key = some value) :
    value.Tidy := by
  obtain ⟨e, he, -, rfl⟩ := HashTrie.mem_entries_of_get? hget
  exact (h e he).2

theorem Tidy.lookup (h : Tidy m) (hlookup : lookup m key = some value) :
    value.Tidy := by
  rcases Option.or_eq_some_iff.mp hlookup with hget | ⟨-, hfind⟩
  · exact h.get? hget
  · obtain ⟨e, he, -, rfl⟩ := AssocList.mem_of_find?_eq_some hfind
    exact (h e he).2

end ValueMap

end TinyLisp
