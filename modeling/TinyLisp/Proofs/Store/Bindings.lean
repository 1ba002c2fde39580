import TinyLisp.Proofs.Store.Footprint

/-!
# Binding several variables

Binding a variable changes what its frame says about this one name. So after
several variables with different names have been bound in a frame, each has the
value it was given, whatever was bound before and after it, and everything else
is as it was. The order shows only in how the frame lists its bindings, which no
lookup can tell.
-/

namespace TinyLisp

namespace Bindings

theorem find?_replace (name other : String) (v : Value) (bs : Bindings) :
    find? other (replace name v bs) =
      if name = other ∧ contains name bs = true then some v
      else find? other bs := by
  induction bs with
  | nil => simp [replace, contains, find?]
  | cons b bs ih =>
      rw [replace, contains_cons, find?]
      by_cases hb : b.1 = name
      · by_cases hn : name = other <;> simp [hb, hn, find?]
      · by_cases hn : name = other
        · subst hn
          simp [hb, find?, ih]
        · simp [hb, hn, find?, ih]

theorem find?_set (name other : String) (v : Value) (bs : Bindings) :
    find? other (set name v bs) = if name = other then some v
    else find? other bs := by
  rw [set]
  split
  · next h => simp [find?_replace, h]
  · simp [find?]

end Bindings

namespace Store

variable {s : Store} {scope : Scope} {name other : String} {v : Value}
  {f : FrameId}

/-- The value that a variable has in one frame. -/
def binding (s : Store) (f : FrameId) (name : String) : Option Value :=
  s.frames[f]?.bind (Bindings.find? name)

theorem lookup_of_binding (h : s.binding scope.here name = some v) :
    s.lookup scope name = some v := by
  rw [binding] at h
  rw [lookup, Scope.frames, lookupIn, h]

theorem binding_bind_self (h : scope.here < s.frames.size) :
    (s.bind scope name v).binding scope.here name = some v := by
  rw [binding, bind, Array.getElem?_modify, if_pos rfl,
    Array.getElem?_eq_getElem h]
  exact (Bindings.find?_set name name v _).trans (if_pos rfl)

theorem binding_bind_of_ne (h : f = scope.here → name ≠ other) :
    (s.bind scope name v).binding f other = s.binding f other := by
  rw [binding, binding, bind, Array.getElem?_modify]
  split
  · next hf =>
      cases s.frames[f]? with
      | none => rfl
      | some bs =>
          exact (Bindings.find?_set name other v bs).trans (if_neg (h hf.symm))
  · rfl

/-- The store after several variables have been bound, one after the other. -/
def bindAll (s : Store) (scope : Scope) (bs : List (String × Value)) : Store :=
  bs.foldl (fun s b => s.bind scope b.1 b.2) s

section

variable {bs cs : List (String × Value)}

theorem bindAll_cons (b : String × Value) :
    s.bindAll scope (b :: bs) = (s.bind scope b.1 b.2).bindAll scope bs := rfl

theorem bindAll_append :
    s.bindAll scope (bs ++ cs) = (s.bindAll scope bs).bindAll scope cs :=
  List.foldl_append

theorem heap_bindAll (s : Store) (bs : List (String × Value)) :
    (s.bindAll scope bs).heap = s.heap := by
  induction bs generalizing s with
  | nil => rfl
  | cons b bs ih => exact ih _

theorem binding_bindAll_of_ne (h : f = scope.here → name ∉ bs.map Prod.fst) :
    (s.bindAll scope bs).binding f name = s.binding f name := by
  induction bs generalizing s with
  | nil => rfl
  | cons b bs ih =>
      rw [bindAll_cons, ih fun hf hmem => h hf (List.mem_cons_of_mem _ hmem)]
      exact binding_bind_of_ne fun hf heq => h hf (heq ▸ List.mem_cons_self)

theorem frames_bindAll_of_ne (h : f ≠ scope.here) :
    (s.bindAll scope bs).frames[f]? = s.frames[f]? := by
  induction bs generalizing s with
  | nil => rfl
  | cons b bs ih =>
      rw [bindAll_cons, ih, bind, Array.getElem?_modify, if_neg h.symm]

/-- A variable that is bound has a value, be it bound more than once or not. -/
theorem exists_binding_bindAll (hs : scope.here < s.frames.size)
    (h : name ∈ bs.map Prod.fst) :
    ∃ v, (s.bindAll scope bs).binding scope.here name = some v := by
  induction bs generalizing s with
  | nil => cases h
  | cons b bs ih =>
      rw [bindAll_cons]
      by_cases hlater : name ∈ bs.map Prod.fst
      · exact ih (by rwa [bind, Array.size_modify]) hlater
      · obtain rfl := (List.mem_cons.mp h).resolve_right hlater
        exact ⟨b.2,
          (binding_bindAll_of_ne fun _ => hlater).trans (binding_bind_self hs)⟩

/-- A variable that is bound once has the value it was given. -/
theorem binding_bindAll_of_mem (hs : scope.here < s.frames.size)
    (hbs : (bs.map Prod.fst).Nodup) (h : (name, v) ∈ bs) :
    (s.bindAll scope bs).binding scope.here name = some v := by
  induction bs generalizing s with
  | nil => cases h
  | cons b bs ih =>
      obtain ⟨hb, hbs⟩ := List.nodup_cons.mp hbs
      rw [bindAll_cons]
      rcases List.mem_cons.mp h with rfl | h
      · rw [binding_bindAll_of_ne fun _ => hb]
        exact binding_bind_self hs
      · exact ih (by rwa [bind, Array.size_modify]) hbs h

end

end Store

end TinyLisp
