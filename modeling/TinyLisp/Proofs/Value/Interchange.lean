import TinyLisp.Proofs.Value.Data
import TinyLisp.Proofs.Value.Lookup

/-!
# Forms and their data are equal to the same values

A literal is compared by the entries of the map it stands for, and taking it as
data builds that map, with its keys and values taken as data too. The two agree:
which pairs of a literal hide which is a question of equality of their keys, and
keys are less deep than the literal, so by induction on the depth it has the
same answer for the keys as data. The map then has the same entries as the
literal, part by part as data, and its order does not matter to equality.
-/

namespace TinyLisp

namespace AssocList

variable {K V : Type} {same : K → K → Bool} {f : K → K} {g : V → V}

theorem insert_map {k : K} {v : V} {es : List (K × V)}
    (h : ∀ e ∈ es, same (f e.1) (f k) = same e.1 k) :
    insert same (f k) (g v) (es.map fun e => (f e.1, g e.2)) =
      (insert same k v es).map fun e => (f e.1, g e.2) := by
  induction es with
  | nil => rfl
  | cons e es ih =>
      rw [List.map_cons, insert, insert, h e List.mem_cons_self,
        ih fun x hx => h x (List.mem_cons_of_mem e hx)]
      split <;> rfl

/-- If `f` keeps apart the same keys, the pairs may be mapped
before or after. -/
theorem ofPairs_map {ps : List (K × V)}
    (h : ∀ p ∈ ps, ∀ q ∈ ps, same (f p.1) (f q.1) = same p.1 q.1) :
    ofPairs same (ps.map fun p => (f p.1, g p.2)) =
      (ofPairs same ps).map fun e => (f e.1, g e.2) := by
  suffices ∀ qs es : List (K × V), (∀ q ∈ qs, q ∈ ps) → (∀ e ∈ es, e ∈ ps) →
      (qs.map fun p => (f p.1, g p.2)).foldl (fun es p => insert same p.1 p.2 es)
          (es.map fun e => (f e.1, g e.2)) =
        (qs.foldl (fun es p => insert same p.1 p.2 es) es).map fun e =>
          (f e.1, g e.2) from
    this ps [] (fun _ hq => hq) nofun
  intro qs
  induction qs with
  | nil => exact fun _ _ _ => rfl
  | cons q qs ih =>
      intro es hqs hes
      have hq := hqs q List.mem_cons_self
      rw [List.map_cons, List.foldl_cons, List.foldl_cons,
        insert_map fun e he => h e (hes e he) q hq]
      refine ih _ (fun x hx => hqs x (List.mem_cons_of_mem q hx)) fun e he => ?_
      rcases mem_insert he with rfl | he
      · exact hq
      · exact hes e he

end AssocList

namespace Value

open HashTrie (BuiltFrom LawfulOn Represents)

theorem beq_comm {a b : Value} (ha : Built a) (hb : Built b) :
    (a == b) = (b == a) :=
  Bool.eq_iff_iff.mpr ⟨lawfulOn_built.symm ha hb, lawfulOn_built.symm hb ha⟩

/-- The entries of a built value, whether it is a map or a literal. -/
theorem Built.keyed {v : Value} (h : Built v) {es : List (Value × Value)}
    (he : v.entriesBy? Value.beq = some es) : Keyed Built es := by
  cases h with
  | leaf _ hn => rw [hn] at he; cases he
  | items hi _ => rw [items?_of_entries he] at hi; cases hi
  | map s hm =>
      obtain rfl := Option.some.inj he
      obtain ⟨fs, hfs, hvalues⟩ := hm.represents lawfulOn_built
      have hself := hfs.entries lawfulOn_built
      exact ⟨hself.keys, fun e he => hvalues e (hfs.buckets.perm.mem_iff.mp he),
        hself.distinct⟩
  | mapForm s hk hv =>
      obtain rfl := Option.some.inj he
      exact ⟨fun e he => hk e (AssocList.mem_ofPairs he),
        fun e he => hv e (AssocList.mem_ofPairs he),
        (HashTrie.represents_ofList lawfulOn_built hk).distinct⟩

theorem isEqv_map_left {f : Value → Value} {xs ys : List Value}
    (h : ∀ x ∈ xs, ∀ y ∈ ys, Value.beq (f x) y = Value.beq x y) :
    (xs.map f).isEqv ys Value.beq = xs.isEqv ys Value.beq := by
  induction xs generalizing ys with
  | nil => rfl
  | cons x xs ih =>
      cases ys with
      | nil => rfl
      | cons y ys =>
          rw [List.map_cons, List.isEqv_cons_cons, List.isEqv_cons_cons,
            h x List.mem_cons_self y List.mem_cons_self,
            ih fun a ha b hb =>
              h a (List.mem_cons_of_mem x ha) b (List.mem_cons_of_mem y hb)]

/-- Entries and their images under a map that keeps equality have the same
partners, in whatever order the images stand. -/
theorem sameEntries_of_perm_map {P : Value → Prop} (law : LawfulOn P)
    {f : Value → Value} {es es' fs : List (Value × Value)} (hes : Keyed P es)
    (hes' : Keyed P es') (hfs : Keyed P fs)
    (hperm : List.Perm es' (es.map fun e => (f e.1, f e.2)))
    (hf : ∀ e ∈ es, ∀ g ∈ fs, (g.1 == f e.1) = (g.1 == e.1) ∧
      (g.2 == f e.2) = (g.2 == e.2)) :
    sameEntries Value.beq es' fs = true ↔
      sameEntries Value.beq es fs = true := by
  rw [sameEntries_iff law hes' hfs, sameEntries_iff law hes hfs,
    hperm.length_eq, List.length_map]
  refine and_congr_right fun _ => ?_
  have hpartner : ∀ e ∈ es, (∃ g ∈ fs, SameEntry (f e.1, f e.2) g) ↔
      ∃ g ∈ fs, SameEntry e g := by
    intro e he
    refine exists_congr fun g => and_congr_right fun hg => ?_
    rw [SameEntry, SameEntry, (hf e he g hg).1, (hf e he g hg).2]
  constructor
  · intro h e he
    exact (hpartner e he).mp (h _ (hperm.mem_iff.mpr (List.mem_map_of_mem he)))
  · intro h e' he'
    obtain ⟨e, he, rfl⟩ := List.mem_map.mp (hperm.mem_iff.mp he')
    exact (hpartner e he).mpr (h e he)

theorem Built.of_mem_pairs {ps : List (Value × Value)} {s : Option Span}
    (h : Built (.mapForm ps s)) {p : Value × Value} (hp : p ∈ ps) :
    Built p.1 ∧ Built p.2 := by
  cases h with
  | leaf _ he => cases he
  | items hi _ => cases hi
  | mapForm _ hk hv => exact ⟨hk p hp, hv p hp⟩

/-- The map that a literal is built into holds the entries of the literal,
taken as data. -/
theorem perm_entries_toData {ps : List (Value × Value)}
    (hps : ∀ p ∈ ps, Built p.1)
    (hkeys : ∀ p ∈ ps, ∀ q ∈ ps, (p.1.toData == q.1.toData) = (p.1 == q.1)) :
    List.Perm (HashTrie.ofList (toDataPairs ps)).entries
      ((AssocList.ofPairs Value.beq ps).map fun e =>
        (e.1.toData, e.2.toData)) := by
  rw [toDataPairs_eq_map]
  have hdata : ∀ q ∈ ps.map (fun p => (p.1.toData, p.2.toData)), Built q.1 :=
      fun q hq => by
        obtain ⟨p, hp, rfl⟩ := List.mem_map.mp hq
        exact (hps p hp).toData
  refine (HashTrie.represents_ofList lawfulOn_built hdata).buckets.perm.trans ?_
  rw [AssocList.ofPairs_map hkeys]
  exact List.Perm.refl _

/-- Taking a form as data does not change what it is equal to. -/
theorem beq_toData {a b : Value} (ha : Built a) (hb : Built b) :
    (a.toData == b) = (a == b) := by
  induction hd : a.depth using Nat.strongRecOn generalizing a b with
  | ind d ih =>
      subst hd
      have hpart {x y : Value} (hx : Built x) (hy : Built y)
          (hlt : x.depth < a.depth) :
          (x.toData == y) = (x == y) := ih x.depth hlt hx hy rfl
      have hpart' {x y : Value} (hx : Built x) (hy : Built y)
          (hlt : x.depth < a.depth) :
          (y == x.toData) = (y == x) := by
        rw [beq_comm hy hx.toData, hpart hx hy hlt, beq_comm hx hy]
      rcases items_or_entries_or_leaf a with ⟨xs, hxs⟩ | ⟨es, hes⟩ | ⟨hi, he⟩
      · rw [Bool.eq_iff_iff, beq_of_items (items?_toData hxs), beq_of_items hxs]
        refine exists_congr fun ys => and_congr_right fun hys => ?_
        rw [isEqv_map_left fun x hx y hy => hpart (ha.of_mem_items hxs hx)
          (hb.of_mem_items hys hy) (depth_lt_of_mem_items hxs hx)]
      · cases a with
        | mapForm ps s =>
            have hkeys : ∀ p ∈ ps,
                ∀ q ∈ ps, (p.1.toData == q.1.toData) = (p.1 == q.1) := by
              intro p hp q hq
              have hbp := (ha.of_mem_pairs hp).1
              have hbq := (ha.of_mem_pairs hq).1
              have hltp := Nat.lt_succ_of_le (depth_le_depthPairs hp).1
              have hltq := Nat.lt_succ_of_le (depth_le_depthPairs hq).1
              rw [hpart hbp hbq.toData hltp, hpart' hbq hbp hltq]
            have hperm :=
              perm_entries_toData (fun p hp => (ha.of_mem_pairs hp).1) hkeys
            rw [Bool.eq_iff_iff, beq_of_entries (a := (mapForm ps s).toData)
              rfl, beq_of_entries rfl]
            refine exists_congr fun fs => and_congr_right fun hfs => ?_
            have hes := ha.keyed rfl
            have hgs := hb.keyed hfs
            refine sameEntries_of_perm_map lawfulOn_built hes
              (ha.toData.keyed rfl) hgs hperm ?_
            intro e he g hg
            obtain ⟨hk, hv⟩ :=
              depth_lt_of_mem_entries (v := mapForm ps s) rfl he
            exact ⟨hpart' (hes.keys e he) (hgs.keys g hg) hk,
              hpart' (hes.values e he) (hgs.values g hg) hv⟩
        | map m s => rfl
        | _ => cases hes
      · rw [toData_of_leaf hi he]

theorem beq_toData_toData {a b : Value} (ha : Built a) (hb : Built b) :
    (a.toData == b.toData) = (a == b) := by
  rw [beq_toData ha hb.toData, beq_comm ha hb.toData, beq_toData hb ha,
    beq_comm hb ha]

/-! ## Maps and literals

Equality goes through lists of entries, since it is defined before there is
a hash. For maps it comes to looking keys up all the same, and for literals
to their data.
-/

/-- Two maps are equal if they are of one size and what the first has under a
key is what the second is found to have under it. -/
theorem beq_map {m n : ValueMap} (hm : BuiltFrom Built Built m)
    (hn : BuiltFrom Built Built n) (s t : Option Span) :
    (map m s == map n t) =
      (m.size == n.size && m.entries.all fun e => n.lookup e.1 == some e.2) := by
  have hm' := represents_of_builtFrom hm
  have hn' := represents_of_builtFrom hn
  have hstep : (map m s == map n t) =
      sameEntries Value.beq m.entries n.entries :=
    beq_eq ..
  rw [hstep, sameEntries, hm'.size_eq, hn'.size_eq]
  congr 1
  rw [Bool.eq_iff_iff, List.all_eq_true, List.all_eq_true]
  refine forall_congr' fun e => forall_congr' fun he => ?_
  rw [ValueMap.lookup_eq_get? hn (hm'.keys e he),
    ValueMap.get?_eq_find? hn (hm'.keys e he)]
  cases AssocList.find? Value.beq e.1 n.entries with
  | none => exact Iff.rfl
  | some v => exact Iff.rfl

/-- A literal is compared by its data, and so is what it is compared with. -/
theorem beq_mapForm {ps : List (Value × Value)} {s : Option Span} {b : Value}
    (ha : Built (.mapForm ps s)) (hb : Built b) :
    (mapForm ps s == b) = (map (.ofList (toDataPairs ps)) s == b.toData) :=
  (beq_toData_toData ha hb).symm

/-! ## Hashes

That equal values have equal hashes does not give this, since a form with
not-a-number in it is not equal to its data.
-/

theorem hashItems_map {f : Value → Value} {xs : List Value}
    (h : ∀ x ∈ xs, (f x).hash = x.hash) :
    hashItems Value.hash (xs.map f) = hashItems Value.hash xs := by
  rw [hashItems, hashItems, List.foldl_map]
  exact List.foldl_ext _ _ _ fun _ x hx => by rw [h x hx]

theorem hashEntries_map {f : Value → Value} {es : List (Value × Value)}
    (h : ∀ e ∈ es, (f e.1).hash = e.1.hash ∧ (f e.2).hash = e.2.hash) :
    hashEntries Value.hash (es.map fun e => (f e.1, f e.2)) =
      hashEntries Value.hash es := by
  rw [hashEntries, hashEntries, List.foldl_map]
  exact List.foldl_ext _ _ _ fun _ e he => by rw [(h e he).1, (h e he).2]

theorem hash_toData {a : Value} (ha : Built a) : a.toData.hash = a.hash := by
  induction hd : a.depth using Nat.strongRecOn generalizing a with
  | ind d ih =>
      subst hd
      have hpart {x : Value} (hx : Built x) (hlt : x.depth < a.depth) :
          x.toData.hash = x.hash :=
        ih x.depth hlt hx rfl
      rcases items_or_entries_or_leaf a with ⟨xs, hxs⟩ | ⟨es, hes⟩ | ⟨hi, he⟩
      · rw [hash_of_items (items?_toData hxs), hash_of_items hxs]
        exact hashItems_map fun x hx =>
          hpart (ha.of_mem_items hxs hx) (depth_lt_of_mem_items hxs hx)
      · cases a with
        | mapForm ps s =>
            have hperm :=
              perm_entries_toData (fun p hp => (ha.of_mem_pairs hp).1)
                fun p hp q hq => beq_toData_toData (ha.of_mem_pairs hp).1
                  (ha.of_mem_pairs hq).1
            have hkeyed := ha.keyed rfl
            rw [hash_of_entries (v := (mapForm ps s).toData) rfl,
              hash_of_entries hes, hashEntries_perm hperm]
            obtain rfl := Option.some.inj hes
            refine hashEntries_map fun e he => ?_
            obtain ⟨hk, hv⟩ :=
              depth_lt_of_mem_entries (v := mapForm ps s) rfl he
            exact ⟨hpart (hkeyed.keys e he) hk, hpart (hkeyed.values e he) hv⟩
        | map m s => rfl
        | _ => cases hes
      · rw [toData_of_leaf hi he]

/-! ## Data of data -/

theorem toData_toData (a : Value) : a.toData.toData = a.toData := by
  induction hd : a.depth using Nat.strongRecOn generalizing a with
  | ind d ih =>
      subst hd
      have hall {xs : List Value} (h : ∀ x ∈ xs, x.depth < a.depth) :
          toDataAll (toDataAll xs) = toDataAll xs := by
        rw [toDataAll_eq_map, toDataAll_eq_map, List.map_map]
        exact List.map_congr_left fun x hx => ih x.depth (h x hx) x rfl
      cases a with
      | list xs s =>
          rw [toData, toData, hall fun x hx => depth_lt_of_mem_items rfl hx]
      | vector xs s =>
          obtain ⟨front, added⟩ := xs
          have hitems (x : Value) (h : x ∈ front ∨ x ∈ added) :
              x.depth < (vector ⟨front, added⟩ s).depth := by
            refine depth_lt_of_mem_items rfl ?_
            rw [Items.toList_eq]
            exact List.mem_append.mpr (h.imp_right List.mem_reverse.mpr)
          rw [toData, toData, toDataItems, toDataItems,
            hall fun x hx => hitems x (.inl hx), hall fun x hx =>
              hitems x (.inr hx)]
      | _ => rfl

/-! ## Forms and data -/

/-- Comparing and hashing cannot tell a form from its data. The answer for
two values is the same whichever of them stands first and whichever is taken
as data before; a form has the hash of its data; and data taken as data stays
as it is. -/
theorem form_or_data {a b : Value} (ha : a.Built) (hb : b.Built) :
    (b == a) = (a == b) ∧ (a.toData == b.toData) = (a == b) ∧
      (a == b.toData) = (a == b) ∧
      trieHash a = trieHash a.toData ∧ a.toData.toData = a.toData := by
  refine ⟨beq_comm hb ha, beq_toData_toData ha hb, ?_, (hash_toData ha).symm,
    toData_toData a⟩
  rw [beq_comm ha hb.toData, beq_toData hb ha, beq_comm hb ha]

/-- The keys of `a` are two literals that have the same data, once the first
pair of the first one is hidden; so the second pair of `a` hides the first, and
what is left equals the map in `b`. The literal `c` differs from its data, as it
holds not-a-number, but it has the same hash. -/
theorem form_or_data_hidden :
    let k := keyword "k"
    let a := vectorOf
      [mapForm [(mapForm [(k, .bool true), (k, .nil)] none, .string "x"),
      (mapForm [(k, .nil)] none, vectorOf [.number 0.0])] none]
    let b := list [.map (.ofList [(.map (.ofList [(k, .nil)]) none,
      .list [.number (-0.0)] none)]) none] none
    let c := mapForm [(k, .number Number.nan)] none
    (a == b) = true ∧ (b == a) = true ∧ (a.toData == b.toData) = true ∧
      (a == b.toData) = true ∧ (c == c.toData) = false ∧ trieHash c = trieHash c.toData := by
  intro k a b c
  have hk : Built k := .leaf rfl rfl
  have hleaf : Built nil ∧ Built (.bool true) ∧ Built (.string "x") ∧
      ∀ x, Built (.number x) :=
    ⟨.leaf rfl rfl, .leaf rfl rfl, .leaf rfl rfl, fun _ => .leaf rfl rfl⟩
  have hkeys : Built (mapForm [(k, .bool true), (k, .nil)] none) ∧
      Built (mapForm [(k, .nil)] none) ∧ Built (.map (.ofList [(k, .nil)]) none) :=
    ⟨.mapForm none (by simp [hk]) (by simp [hleaf]),
      .mapForm none (by simp [hk]) (by simp [hleaf]),
      .map none (HashTrie.builtFrom_ofList (by simp [hk, hleaf]))⟩
  have hvalues : Built (vectorOf [.number 0.0]) ∧
      Built (.list [.number (-0.0)] none) :=
    ⟨.items rfl (by simp [hleaf]), .items rfl (by simp [hleaf])⟩
  have ha : Built a :=
    .items rfl (by
      simpa using .mapForm none (by simp [hkeys]) (by simp [hleaf, hvalues]))
  have hb : Built b :=
    .items rfl (by
      simpa using .map none
        (HashTrie.builtFrom_ofList (by simp [hkeys, hvalues])))
  have hc : Built c := .mapForm none (by simp [hk]) (by simp [hleaf])
  have heq : (a == b) = true := by decide
  obtain ⟨hba, hdata, hmixed, -, -⟩ := form_or_data ha hb
  obtain ⟨-, -, hself, hhash, -⟩ := form_or_data hc hc
  exact ⟨heq, hba.trans heq, hdata.trans heq, hmixed.trans heq,
    hself.trans (by decide), hhash⟩

end Value

end TinyLisp
