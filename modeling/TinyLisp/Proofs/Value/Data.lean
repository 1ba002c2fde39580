import TinyLisp.Proofs.HashTrie.Members
import TinyLisp.Proofs.Value.Built
import TinyLisp.Value.Data

/-!
# Taking a form as data

A form does not get deeper by being taken as data: the map that a literal is
built into holds nothing but pairs of the literal. And what it is taken as can
be built by a program if the form can.
-/

namespace TinyLisp.Value

open HashTrie (Node)

/-! ## Depth -/

theorem depthAll_le {xs : List Value} {d : Nat} (h : ∀ x ∈ xs, x.depth ≤ d) :
    depthAll xs ≤ d := by
  induction xs with
  | nil => exact Nat.zero_le d
  | cons x xs ih =>
      rw [depthAll]
      exact Nat.max_le.mpr ⟨h x List.mem_cons_self, ih fun y hy =>
        h y (List.mem_cons_of_mem x hy)⟩

theorem depthItems_le {xs : Items Value} {d : Nat}
    (h : ∀ x ∈ xs.toList, x.depth ≤ d) : depthItems xs ≤ d := by
  obtain ⟨front, added⟩ := xs
  rw [Items.toList_eq] at h
  rw [depthItems]
  refine Nat.max_le.mpr ⟨depthAll_le fun x hx => ?_, depthAll_le fun x hx => ?_⟩
  · exact h x (List.mem_append_left _ hx)
  · exact h x (List.mem_append_right _ (List.mem_reverse.mpr hx))

theorem depthPairs_le {ps : List (Value × Value)} {d : Nat}
    (h : ∀ p ∈ ps, p.1.depth ≤ d ∧ p.2.depth ≤ d) : depthPairs ps ≤ d := by
  induction ps with
  | nil => exact Nat.zero_le d
  | cons p ps ih =>
      rw [depthPairs]
      have hp := h p List.mem_cons_self
      have hps := ih fun q hq => h q (List.mem_cons_of_mem p hq)
      omega

theorem depthNodes_le {cs : List (Node Value Value)} {d : Nat}
    (h : ∀ c ∈ cs, depthNode c ≤ d) : depthNodes cs ≤ d := by
  induction cs with
  | nil => exact Nat.zero_le d
  | cons c cs ih =>
      rw [depthNodes]
      exact Nat.max_le.mpr ⟨h c List.mem_cons_self, ih fun x hx =>
        h x (List.mem_cons_of_mem c hx)⟩

theorem depthNode_le {n : Node Value Value} {d : Nat}
    (h : ∀ e ∈ n.entries, e.1.depth ≤ d ∧ e.2.depth ≤ d) : depthNode n ≤ d := by
  induction n using Node.induct with
  | leaf hash k v =>
      rw [depthNode]
      exact Nat.max_le.mpr (h (k, v) (List.mem_singleton_self _))
  | collision hash es => exact depthPairs_le h
  | branch b cs ih =>
      exact depthNodes_le fun c hc => ih c hc fun e he =>
        h e (Node.mem_entriesAll.mpr ⟨c, hc, he⟩)

theorem depthTrie_le {m : HashTrie Value Value} {d : Nat}
    (h : ∀ e ∈ m.entries, e.1.depth ≤ d ∧ e.2.depth ≤ d) : depthTrie m ≤ d := by
  obtain ⟨root, size⟩ := m
  cases root with
  | none => exact Nat.zero_le d
  | some n => exact depthNode_le h

theorem depth_toData_le (v : Value) : v.toData.depth ≤ v.depth := by
  induction hd : v.depth using Nat.strongRecOn generalizing v with
  | ind d ih =>
      subst hd
      have hparts {x : Value} {d : Nat} (hx : x.depth ≤ d) (hd : d < v.depth) :
          x.toData.depth ≤ d :=
        Nat.le_trans (ih x.depth (Nat.lt_of_le_of_lt hx hd) x rfl) hx
      cases v with
      | list xs s =>
          rw [toData, toDataAll_eq_map]
          refine Nat.succ_le_succ (depthAll_le fun y hy => ?_)
          obtain ⟨x, hx, rfl⟩ := List.mem_map.mp hy
          exact hparts (depth_le_depthAll hx) (Nat.lt_succ_self _)
      | vector xs s =>
          rw [toData]
          refine Nat.succ_le_succ (depthItems_le fun y hy => ?_)
          rw [toList_toDataItems] at hy
          obtain ⟨x, hx, rfl⟩ := List.mem_map.mp hy
          exact hparts (depth_le_depthItems hx) (Nat.lt_succ_self _)
      | mapForm ps s =>
          rw [toData, toDataPairs_eq_map]
          refine Nat.succ_le_succ (depthTrie_le fun e he => ?_)
          obtain ⟨p, hp, rfl⟩ :=
            List.mem_map.mp (HashTrie.mem_entries_ofList he)
          obtain ⟨hk, hv⟩ := depth_le_depthPairs hp
          exact ⟨hparts hk (Nat.lt_succ_self _), hparts hv (Nat.lt_succ_self _)⟩
      | _ => exact Nat.le_refl _

/-! ## Values that programs can build -/

theorem toData_of_leaf {v : Value} (hi : v.items? = none)
    (he : v.entriesBy? Value.beq = none) : v.toData = v := by
  cases v with
  | list xs s => cases hi
  | vector xs s => cases hi
  | mapForm ps s => cases he
  | _ => rfl

theorem items?_toData {v : Value} {xs : List Value} (h : v.items? = some xs) :
    v.toData.items? = some (xs.map toData) := by
  cases v with
  | list ys s =>
      obtain rfl := Option.some.inj h
      rw [toData, toDataAll_eq_map, items?]
  | vector ys s =>
      obtain rfl := Option.some.inj h
      rw [toData, items?, toList_toDataItems]
  | _ => cases h

theorem Built.of_mem_items {v x : Value} {xs : List Value} (h : Built v)
    (hi : v.items? = some xs) (hx : x ∈ xs) : Built x := by
  cases h with
  | leaf hnone _ => rw [hnone] at hi; cases hi
  | items hsome hxs =>
      rw [hsome] at hi
      obtain rfl := Option.some.inj hi
      exact hxs x hx
  | map s _ => cases hi
  | mapForm s _ _ => cases hi

theorem Built.toData {v : Value} (h : Built v) : Built v.toData := by
  -- Maps are left as they are, so nothing is asked of how they were built.
  refine @Built.rec (fun v _ => Built v.toData) (fun _ _ => True) ?_ ?_ ?_
    ?_ trivial (fun _ _ _ _ _ _ => trivial) (fun _ _ _ _ => trivial) v h
  · intro v hi he
    rw [toData_of_leaf hi he]
    exact .leaf hi he
  · intro v xs hi _ ih
    refine .items (items?_toData hi) fun y hy => ?_
    obtain ⟨x, hx, rfl⟩ := List.mem_map.mp hy
    exact ih x hx
  · intro m s hm _
    exact .map s hm
  · intro ps s hk hv ihk ihv
    refine .map s (HashTrie.builtFrom_ofList fun e he => ?_)
    rw [toDataPairs_eq_map] at he
    obtain ⟨p, hp, rfl⟩ := List.mem_map.mp he
    exact ⟨ihk p hp, ihv p hp⟩

end TinyLisp.Value
