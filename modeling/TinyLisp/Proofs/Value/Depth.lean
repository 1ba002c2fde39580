import Mathlib.Data.List.Basic
import TinyLisp.Proofs.HashTrie.Invariant
import TinyLisp.Value.Hash

/-!
# Budgets are bookkeeping

Equality and hashing look into a value on a budget, its depth, and each step
into it costs one. The parts of a value are less deep than the value, so any two
budgets that cover the depth give the same answer, and the budget drops out of
the equations: `beq_eq` and `hash_eq` say what equality and hashing do in terms
of themselves. Nothing after this file mentions `beqWithin` or `hashWithin`.
-/

namespace TinyLisp

namespace AssocList

variable {K V : Type} {same same' : K → K → Bool}

theorem mem_ofPairs {e : K × V} {ps : List (K × V)} (h : e ∈ ofPairs same ps) :
    e ∈ ps := by
  suffices ∀ es, e ∈ ps.foldl (fun es p => insert same p.1 p.2 es) es →
      e ∈ es ∨ e ∈ ps from
    (this [] h).resolve_left List.not_mem_nil
  clear h
  induction ps with
  | nil => exact fun _ h => .inl h
  | cons p ps ih =>
      intro es h
      rcases ih _ h with h | h
      · rcases mem_insert h with rfl | h
        · exact .inr List.mem_cons_self
        · exact .inl h
      · exact .inr (List.mem_cons_of_mem p h)

theorem find?_congr {k : K} {es : List (K × V)}
    (h : ∀ e ∈ es, same e.1 k = same' e.1 k) :
    find? same k es = find? same' k es := by
  induction es with
  | nil => rfl
  | cons e es ih =>
      rw [find?, find?, h e List.mem_cons_self,
        ih fun x hx => h x (List.mem_cons_of_mem e hx)]

theorem insert_congr {k : K} {v : V} {es : List (K × V)}
    (h : ∀ e ∈ es, same e.1 k = same' e.1 k) :
    insert same k v es = insert same' k v es := by
  induction es with
  | nil => rfl
  | cons e es ih =>
      rw [insert, insert, h e List.mem_cons_self,
        ih fun x hx => h x (List.mem_cons_of_mem e hx)]

theorem ofPairs_congr {ps : List (K × V)}
    (h : ∀ p ∈ ps, ∀ q ∈ ps, same p.1 q.1 = same' p.1 q.1) :
    ofPairs same ps = ofPairs same' ps := by
  suffices ∀ qs es : List (K × V), (∀ q ∈ qs, q ∈ ps) → (∀ e ∈ es, e ∈ ps) →
      qs.foldl (fun es p => insert same p.1 p.2 es) es =
        qs.foldl (fun es p => insert same' p.1 p.2 es) es from
    this ps [] (fun _ hq => hq) nofun
  intro qs
  induction qs with
  | nil => exact fun _ _ _ => rfl
  | cons q qs ih =>
      intro es hqs hes
      have hq := hqs q List.mem_cons_self
      rw [List.foldl_cons, List.foldl_cons, insert_congr fun e he =>
        h e (hes e he) q hq]
      refine ih _ (fun x hx => hqs x (List.mem_cons_of_mem q hx)) fun e he => ?_
      rcases mem_insert he with rfl | he
      · exact hq
      · exact hes e he

end AssocList

namespace Value

open HashTrie (Node)

/-! ## Parts are less deep -/

theorem depth_pos (v : Value) : 0 < v.depth := by
  cases v <;> simp [depth]

theorem depth_le_depthAll {x : Value} {xs : List Value} (h : x ∈ xs) :
    x.depth ≤ depthAll xs := by
  induction xs with
  | nil => cases h
  | cons y ys ih =>
      rw [depthAll]
      rcases List.mem_cons.mp h with rfl | h
      · omega
      · have := ih h; omega

theorem depth_le_depthItems {x : Value} {xs : Items Value} (h : x ∈ xs.toList) :
    x.depth ≤ depthItems xs := by
  obtain ⟨front, added⟩ := xs
  rw [Items.toList_eq] at h
  rw [depthItems]
  rcases List.mem_append.mp h with h | h
  · exact Nat.le_trans (depth_le_depthAll h) (Nat.le_max_left ..)
  · exact Nat.le_trans (depth_le_depthAll (List.mem_reverse.mp h))
      (Nat.le_max_right ..)

theorem depth_le_depthPairs {p : Value × Value} {ps : List (Value × Value)}
    (h : p ∈ ps) : p.1.depth ≤ depthPairs ps ∧ p.2.depth ≤ depthPairs ps := by
  induction ps with
  | nil => cases h
  | cons q qs ih =>
      rw [depthPairs]
      rcases List.mem_cons.mp h with rfl | h
      · omega
      · have := ih h; omega

theorem depthNode_le_depthNodes {c : Node Value Value}
    {cs : List (Node Value Value)} (h : c ∈ cs) :
    depthNode c ≤ depthNodes cs := by
  induction cs with
  | nil => cases h
  | cons d ds ih =>
      rw [depthNodes]
      rcases List.mem_cons.mp h with rfl | h
      · omega
      · have := ih h; omega

theorem depth_le_depthNode {e : Value × Value} {n : Node Value Value}
    (h : e ∈ n.entries) :
    e.1.depth ≤ depthNode n ∧ e.2.depth ≤ depthNode n := by
  induction n using Node.induct with
  | leaf hash k v =>
      rw [List.mem_singleton.mp h, depthNode]
      exact ⟨Nat.le_max_left .., Nat.le_max_right ..⟩
  | collision hash es => exact depth_le_depthPairs h
  | branch b cs ih =>
      obtain ⟨c, hc, he⟩ := Node.mem_entriesAll.mp h
      have hle := depthNode_le_depthNodes hc
      have := ih c hc he
      rw [depthNode]
      omega

theorem depth_le_depthTrie {e : Value × Value} {m : HashTrie Value Value}
    (h : e ∈ m.entries) :
    e.1.depth ≤ depthTrie m ∧ e.2.depth ≤ depthTrie m := by
  obtain ⟨root, size⟩ := m
  cases root with
  | none => cases h
  | some n => exact depth_le_depthNode h

theorem depth_lt_of_mem_items {v x : Value} {xs : List Value}
    (h : v.items? = some xs) (hx : x ∈ xs) : x.depth < v.depth := by
  cases v with
  | list ys s =>
      obtain rfl := Option.some.inj h
      exact Nat.lt_succ_of_le (depth_le_depthAll hx)
  | vector ys s =>
      obtain rfl := Option.some.inj h
      exact Nat.lt_succ_of_le (depth_le_depthItems hx)
  | _ => cases h

theorem depth_lt_of_mem_entries {same : Value → Value → Bool} {v : Value}
    {es : List (Value × Value)} (h : v.entriesBy? same = some es)
    {e : Value × Value} (he : e ∈ es) :
    e.1.depth < v.depth ∧ e.2.depth < v.depth := by
  cases v with
  | map m s =>
      obtain rfl := Option.some.inj h
      exact (depth_le_depthTrie he).imp Nat.lt_succ_of_le Nat.lt_succ_of_le
  | mapForm ps s =>
      obtain rfl := Option.some.inj h
      exact (depth_le_depthPairs (AssocList.mem_ofPairs he)).imp
        Nat.lt_succ_of_le
        Nat.lt_succ_of_le
  | _ => cases h

/-! ## Equality -/

theorem entriesBy?_congr {same same' : Value → Value → Bool} {v : Value}
    (h : ∀ a b : Value, a.depth < v.depth → b.depth < v.depth →
      same a b = same' a b) :
    v.entriesBy? same = v.entriesBy? same' := by
  cases v with
  | mapForm ps s =>
      refine congrArg some (AssocList.ofPairs_congr fun p hp q hq => h _ _ ?_ ?_)
      · exact Nat.lt_succ_of_le (depth_le_depthPairs hp).1
      · exact Nat.lt_succ_of_le (depth_le_depthPairs hq).1
  | _ => rfl

theorem sameEntries_eq_true_iff {same : Value → Value → Bool}
    {es fs : List (Value × Value)} :
    sameEntries same es fs = true ↔ es.length = fs.length ∧
      ∀ e ∈ es, ∃ v, AssocList.find? same e.1 fs = some v ∧
        same v e.2 = true := by
  rw [sameEntries, Bool.and_eq_true, beq_iff_eq, List.all_eq_true]
  refine and_congr_right fun _ => forall_congr' fun e =>
    imp_congr_right fun _ => ?_
  cases AssocList.find? same e.1 fs with
  | none => simp
  | some v => simp

theorem sameEntries_congr {same same' : Value → Value → Bool}
    {es fs : List (Value × Value)}
    (h : ∀ e ∈ es, ∀ f ∈ fs, same f.1 e.1 = same' f.1 e.1 ∧
      same f.2 e.2 = same' f.2 e.2) :
    sameEntries same es fs = sameEntries same' es fs := by
  rw [Bool.eq_iff_iff, sameEntries_eq_true_iff, sameEntries_eq_true_iff]
  refine and_congr_right fun _ => forall_congr' fun e =>
    forall_congr' fun he => ?_
  rw [AssocList.find?_congr fun f hf => (h e he f hf).1]
  refine exists_congr fun v => and_congr_right fun hv => ?_
  obtain ⟨f, hf, _, rfl⟩ := AssocList.mem_of_find?_eq_some hv
  rw [(h e he f hf).2]

theorem isEqv_congr {same same' : Value → Value → Bool} {xs ys : List Value}
    (h : ∀ x ∈ xs, ∀ y ∈ ys, same x y = same' x y) :
    xs.isEqv ys same = xs.isEqv ys same' := by
  induction xs generalizing ys with
  | nil => cases ys <;> rfl
  | cons x xs ih =>
      cases ys with
      | nil => rfl
      | cons y ys =>
          have hxy := h x List.mem_cons_self y List.mem_cons_self
          rw [List.isEqv_cons_cons, List.isEqv_cons_cons, hxy,
            ih fun a ha b hb =>
              h a (List.mem_cons_of_mem x ha) b (List.mem_cons_of_mem y hb)]

/-- One step of equality, given equality of the parts. -/
def beqStep (same : Value → Value → Bool) (a b : Value) : Bool :=
  match a.items?, b.items? with
  | some xs, some ys => xs.isEqv ys same
  | none, none =>
    match a.entriesBy? same, b.entriesBy? same with
    | some es, some fs => sameEntries same es fs
    | none, none => sameLeaf a b
    | _, _ => false
  | _, _ => false

theorem beqStep_congr {same same' : Value → Value → Bool} {a b : Value}
    (h : ∀ x y : Value, x.depth < max a.depth b.depth →
      y.depth < max a.depth b.depth → same x y = same' x y) :
    beqStep same a b = beqStep same' a b := by
  unfold beqStep
  rw [entriesBy?_congr (v := a) fun x y hx hy => h x y (by omega) (by omega),
    entriesBy?_congr (v := b) fun x y hx hy => h x y (by omega) (by omega)]
  split
  · next xs ys hxs hys =>
      refine isEqv_congr fun x hx y hy => h x y ?_ ?_
      · have := depth_lt_of_mem_items hxs hx; omega
      · have := depth_lt_of_mem_items hys hy; omega
  · split
    · next es fs hes hfs =>
        refine sameEntries_congr fun e he f hf => ?_
        have hde := depth_lt_of_mem_entries hes he
        have hdf := depth_lt_of_mem_entries hfs hf
        exact ⟨h _ _ (by omega) (by omega), h _ _ (by omega) (by omega)⟩
    · rfl
    · rfl
  · rfl

/-- Two budgets that cover both values give the same answer. -/
theorem beqWithin_congr {n m : Nat} {a b : Value} (hn : max a.depth b.depth ≤ n)
    (hm : max a.depth b.depth ≤ m) : beqWithin n a b = beqWithin m a b := by
  induction n generalizing m a b with
  | zero => have := depth_pos a; omega
  | succ n ih =>
      have := depth_pos a
      obtain ⟨k, rfl⟩ : ∃ k, m = k + 1 := ⟨m - 1, by omega⟩
      show beqStep (beqWithin n) a b = beqStep (beqWithin k) a b
      exact beqStep_congr fun x y hx hy => ih (by omega) (by omega)

/-- Equality in terms of itself. -/
theorem beq_eq (a b : Value) : a.beq b = beqStep Value.beq a b := by
  have := depth_pos a
  obtain ⟨n, hn⟩ : ∃ n, max a.depth b.depth = n + 1 :=
    ⟨max a.depth b.depth - 1, by omega⟩
  rw [Value.beq, hn]
  show beqStep (beqWithin n) a b = beqStep Value.beq a b
  refine beqStep_congr fun x y hx hy => ?_
  exact beqWithin_congr (by omega) (Nat.le_refl _)

/-- A value is a sequence, a map or without parts. -/
theorem items_or_entries_or_leaf (v : Value) :
    (∃ xs, v.items? = some xs) ∨ (∃ es, v.entriesBy? Value.beq = some es) ∨
      v.items? = none ∧ v.entriesBy? Value.beq = none := by
  cases v <;> simp [items?, entriesBy?]

theorem items?_of_entries {v : Value} {es : List (Value × Value)}
    (h : v.entriesBy? Value.beq = some es) : v.items? = none := by
  cases v with
  | map m s => rfl
  | mapForm ps s => rfl
  | _ => cases h

theorem beq_of_items {a b : Value} {xs : List Value} (h : a.items? = some xs) :
    (a == b) = true ↔
      ∃ ys, b.items? = some ys ∧ xs.isEqv ys Value.beq = true := by
  show a.beq b = true ↔ _
  rw [beq_eq, beqStep, h]
  cases b.items? <;> simp

theorem beq_of_entries {a b : Value} {es : List (Value × Value)}
    (h : a.entriesBy? Value.beq = some es) :
    (a == b) = true ↔
      ∃ fs, b.entriesBy? Value.beq = some fs ∧
        sameEntries Value.beq es fs = true := by
  show a.beq b = true ↔ _
  rw [beq_eq, beqStep, h, items?_of_entries h]
  cases b <;> simp [items?, entriesBy?]

theorem beq_of_leaf {a b : Value} (hi : a.items? = none)
    (he : a.entriesBy? Value.beq = none) :
    (a == b) = true ↔ sameLeaf a b = true := by
  show a.beq b = true ↔ _
  rw [beq_eq, beqStep, hi, he]
  cases b with
  | list _ _ => cases a <;> simp [items?, sameLeaf]
  | vector _ _ => cases a <;> simp [items?, sameLeaf]
  | map _ _ => cases a <;> simp [items?, entriesBy?, sameLeaf]
  | mapForm _ _ => cases a <;> simp [items?, entriesBy?, sameLeaf]
  | _ => rfl

/-! ## Hashing -/

/-- One step of hashing, given the hashes of the parts. -/
def hashStep (hash : Value → UInt32) (v : Value) : UInt32 :=
  match v.items? with
  | some xs => hashItems hash xs
  | none =>
    match v.entriesBy? Value.beq with
    | some es => hashEntries hash es
    | none => hashLeaf v

theorem hashStep_congr {hash hash' : Value → UInt32} {v : Value}
    (h : ∀ x : Value, x.depth < v.depth → hash x = hash' x) :
    hashStep hash v = hashStep hash' v := by
  unfold hashStep
  split
  · next xs hxs =>
      exact List.foldl_ext _ _ _ fun _ x hx => by
        rw [h x (depth_lt_of_mem_items hxs hx)]
  · split
    · next es hes =>
        refine List.foldl_ext _ _ _ fun _ e he => ?_
        obtain ⟨hk, hv⟩ := depth_lt_of_mem_entries hes he
        rw [h e.1 hk, h e.2 hv]
    · rfl

theorem hashWithin_congr {n m : Nat} {v : Value} (hn : v.depth ≤ n)
    (hm : v.depth ≤ m) : hashWithin n v = hashWithin m v := by
  induction n generalizing m v with
  | zero => have := depth_pos v; omega
  | succ n ih =>
      have := depth_pos v
      obtain ⟨k, rfl⟩ : ∃ k, m = k + 1 := ⟨m - 1, by omega⟩
      show hashStep (hashWithin n) v = hashStep (hashWithin k) v
      exact hashStep_congr fun x hx => ih (by omega) (by omega)

/-- Hashing in terms of itself. -/
theorem hash_eq (v : Value) : v.hash = hashStep Value.hash v := by
  have := depth_pos v
  obtain ⟨n, hn⟩ : ∃ n, v.depth = n + 1 := ⟨v.depth - 1, by omega⟩
  rw [Value.hash, hn]
  show hashStep (hashWithin n) v = hashStep Value.hash v
  refine hashStep_congr fun x hx => ?_
  exact hashWithin_congr (by omega) (Nat.le_refl _)

theorem hash_of_items {v : Value} {xs : List Value} (h : v.items? = some xs) :
    v.hash = hashItems Value.hash xs := by
  rw [hash_eq, hashStep, h]

theorem hash_of_entries {v : Value} {es : List (Value × Value)}
    (h : v.entriesBy? Value.beq = some es) :
    v.hash = hashEntries Value.hash es := by
  rw [hash_eq, hashStep, items?_of_entries h, h]

theorem hash_of_leaf {v : Value} (hi : v.items? = none)
    (he : v.entriesBy? Value.beq = none) : v.hash = hashLeaf v := by
  rw [hash_eq, hashStep, hi, he]

end Value

end TinyLisp
