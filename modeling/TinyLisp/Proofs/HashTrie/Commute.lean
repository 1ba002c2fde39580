import TinyLisp.Proofs.HashTrie.Refinement

/-!
# Inserts with different hashes commute

A trie remembers something of its history: a branch that has lost entries may be
left with a single child. Still, of two keys with different hashes it does not
remember which came first, and the trie is then the same node for node.

Two inserts meet in many ways. One may split a leaf on which the other comes to
stand, add a child next to that of the other, or go down the same chain of
branches. All of these are one once a node is told by its rows: what stands in
which slot. A leaf or a collision counts as alone in its slot, and nothing as
having no rows. Seen this way an insert does one thing, to `place` a node in a
row, and the fork of two leaves is no special case. Then there is one argument.
Different slots do not interfere, and in the same slot the matter comes up again
a level further down, where the two hashes follow a longer way; they part before
the levels end.
-/

namespace TinyLisp.HashTrie

variable {K V α : Type}

/-! ## Rows -/

/-- Change what stands in a slot, in rows that are in the order of their
slots. -/
def place (s : Nat) (f : Option α → α) : List (Nat × α) → List (Nat × α)
  | [] => [(s, f none)]
  | (t, a) :: rows =>
    if s < t then (s, f none) :: (t, a) :: rows
    else if s = t then (s, f (some a)) :: rows
    else (t, a) :: place s f rows

section

variable {s t : Nat} {f g : Option α → α} {rows before after : List (Nat × α)}

theorem place_of_used (h : ∀ p ∈ before, p.1 < s) (a : α) :
    place s f (before ++ (s, a) :: after) =
      before ++ (s, f (some a)) :: after := by
  induction before with
  | nil =>
      rw [List.nil_append, place, if_neg (Nat.lt_irrefl s), if_pos rfl,
        List.nil_append]
  | cons p before ih =>
      obtain ⟨hp, hbefore⟩ := List.forall_mem_cons.mp h
      rw [List.cons_append, place, if_neg (by omega), if_neg (by omega),
        ih hbefore, List.cons_append]

theorem place_of_unused (h : ∀ p ∈ before, p.1 < s)
    (h' : ∀ p ∈ after, s < p.1) :
    place s f (before ++ after) = before ++ (s, f none) :: after := by
  induction before with
  | nil =>
      cases after with
      | nil => rfl
      | cons p after =>
          rw [List.nil_append, place, if_pos (h' p List.mem_cons_self),
            List.nil_append]
  | cons p before ih =>
      obtain ⟨hp, hbefore⟩ := List.forall_mem_cons.mp h
      rw [List.cons_append, place, if_neg (by omega), if_neg (by omega),
        ih hbefore, List.cons_append]

theorem place_comm (h : s ≠ t) (rows : List (Nat × α)) :
    place s f (place t g rows) = place t g (place s f rows) := by
  induction rows with
  | nil =>
      rcases Nat.lt_or_gt_of_ne h with hlt | hlt
      · simp [place, hlt, Nat.lt_asymm hlt, Ne.symm h]
      · simp [place, hlt, Nat.lt_asymm hlt, h]
  | cons p rows ih =>
      -- Each of the two slots is before, at or behind that of the first row.
      grind [place]

theorem place_place (rows : List (Nat × α)) :
    place s f (place s g rows) = place s (fun a? => f (some (g a?))) rows := by
  induction rows with
  | nil => simp [place]
  | cons p rows ih =>
      rcases Nat.lt_trichotomy s p.1 with hs | hs | hs
      · simp [place, hs]
      · simp [place, hs]
      · simp [place, Nat.lt_asymm hs, Ne.symm (Nat.ne_of_lt hs), ih]

theorem place_congr (hnone : f none = g none)
    (hsome : ∀ a, (s, a) ∈ rows → f (some a) = g (some a)) :
    place s f rows = place s g rows := by
  induction rows with
  | nil => rw [place, place, hnone]
  | cons p rows ih =>
      rw [place, place, hnone, ih fun a ha => hsome a (List.mem_cons_of_mem p ha)]
      split
      · rfl
      · split
        · next heq => rw [hsome p.2 (heq ▸ List.mem_cons_self)]
        · rfl

end

/-! ## Nodes by their rows -/

theorem mem_usedSlots {b : BitVec 32} {s : Nat} :
    s ∈ usedSlots b ↔ s < 32 ∧ b.getLsbD s = true := by
  rw [usedSlots, List.mem_filter, List.mem_range]

theorem usedSlots_inj {b b' : BitVec 32} (h : usedSlots b = usedSlots b') :
    b = b' := by
  refine BitVec.eq_of_getLsbD_eq fun i hi => ?_
  have hmem : i ∈ usedSlots b ↔ i ∈ usedSlots b' := by rw [h]
  rw [mem_usedSlots, mem_usedSlots, and_iff_right hi, and_iff_right hi] at hmem
  exact Bool.eq_iff_iff.mpr hmem

namespace Node

/-- What stands in which slot at a level. A leaf or a collision stands in the
slot that its hash chooses. -/
def rowsAt (level : Nat) : Option (Node K V) → List (Nat × Node K V)
  | none => []
  | some (.leaf h k v) => [(slot h level, .leaf h k v)]
  | some (.collision h es) => [(slot h level, .collision h es)]
  | some (.branch b cs) => (usedSlots b).zip cs

/-- A fork is what a row becomes when another node is placed with it. -/
theorem rowsAt_fork (a : Node K V) (ha : UInt32) (b : Node K V) (hb : UInt32)
    (depth level : Nat) :
    rowsAt level (some (fork a ha b hb (depth + 1) level)) =
      place (slot hb level)
        (fun | none => b | some a => fork a ha b hb depth (level + 1))
        [(slot ha level, a)] := by
  have hsa := slot_lt ha level
  have hsb := slot_lt hb level
  rw [fork, place, place]
  rcases Nat.lt_trichotomy (slot ha level) (slot hb level) with hlt | heq | hlt
  · have hne := Nat.ne_of_lt hlt
    have hnlt := Nat.lt_asymm hlt
    simp only [if_neg hne, if_neg hne.symm, if_pos hlt, if_neg hnlt]
    rw [rowsAt, usedSlots_pair hsa hsb hne, if_pos hlt]
    rfl
  · simp only [heq, if_true, Nat.lt_irrefl, if_false]
    rw [rowsAt, usedSlots_twoPow hsb]
    rfl
  · have hne := Nat.ne_of_gt hlt
    have hnlt := Nat.lt_asymm hlt
    simp only [if_neg hne, if_neg hne.symm, if_pos hlt, if_neg hnlt]
    rw [rowsAt, usedSlots_pair hsa hsb hne, if_neg hnlt]
    rfl

theorem exists_branch_fork (a : Node K V) (ha : UInt32) (b : Node K V)
    (hb : UInt32) (depth level : Nat) :
    ∃ bm cs, fork a ha b hb depth level = .branch bm cs := by
  cases depth with
  | zero => exact ⟨_, _, rfl⟩
  | succ depth =>
      rw [fork]
      split <;> exact ⟨_, _, rfl⟩

variable [TrieHash K] {way : List Nat} {n : Node K V} {o : Option (Node K V)}

theorem Terminal.rowsAt_eq {h : UInt32} (ht : Terminal h n) (level : Nat) :
    rowsAt level (some n) = [(slot h level, n)] := by
  cases ht <;> rfl

/-- What holds of what is at the end of a way, where there may be nothing. -/
def MayStand (way : List Nat) (o : Option (Node K V)) : Prop :=
  ∀ n, o = some n → WellFormed way n

theorem WellFormed.mayStand (h : WellFormed way n) : MayStand way (some n) := by
  intro m hm
  rwa [← Option.some.inj hm]

theorem MayStand.of_mem_rowsAt (ho : MayStand way o) {s : Nat}
    (hmem : (s, n) ∈ rowsAt way.length o) : WellFormed (way ++ [s]) n := by
  cases o with
  | none => cases hmem
  | some m =>
      cases ho m rfl with
      | terminal ht hf =>
          rw [ht.rowsAt_eq, List.mem_singleton, Prod.mk.injEq] at hmem
          obtain ⟨rfl, rfl⟩ := hmem
          exact .terminal ht (follows_snoc.mpr ⟨hf, rfl⟩)
      | branch _ _ _ hall => exact hall _ hmem

/-- A branch is known by its rows. -/
theorem WellFormed.branch_ext {b b' : BitVec 32} {cs cs' : List (Node K V)}
    (h : WellFormed way (.branch b cs)) (h' : WellFormed way (.branch b' cs'))
    (hrows : (usedSlots b).zip cs = (usedSlots b').zip cs') :
    (.branch b cs : Node K V) = .branch b' cs' := by
  have hlen := h.length_usedSlots
  have hlen' := h'.length_usedSlots
  have hslots := congrArg (List.map Prod.fst) hrows
  have hcs := congrArg (List.map Prod.snd) hrows
  rw [List.map_fst_zip (Nat.le_of_eq hlen),
    List.map_fst_zip (Nat.le_of_eq hlen')] at hslots
  rw [List.map_snd_zip (Nat.le_of_eq hlen.symm),
    List.map_snd_zip (Nat.le_of_eq hlen'.symm)] at hcs
  rw [usedSlots_inj hslots, hcs]

/-! ## Growth -/

variable [BEq K]

/-- What stands at a level once a key is set there. -/
def grow (key : K) (value : V) (level : Nat) : Option (Node K V) → Node K V
  | none => .leaf (trieHash key) key value
  | some n => (insert (trieHash key) key value n level).1

variable {key : K} {value : V}

theorem MayStand.wellFormed_grow (ho : MayStand way o)
    (hkey : Follows (trieHash key) way) (value : V) :
    WellFormed way (grow key value way.length o) := by
  cases o with
  | none => exact .terminal (.leaf rfl) hkey
  | some n => exact (insert_spec (ho n rfl) hkey value).wellFormed

/-- If a leaf or a collision has grown by a key, its hash is that of the key. -/
theorem MayStand.hash_of_grow (ho : MayStand way o)
    (hkey : Follows (trieHash key) way) {h : UInt32}
    (ht : Terminal h (grow key value way.length o)) : h = trieHash key := by
  cases o with
  | none => cases ht with
    | leaf hk => exact hk.symm
  | some n =>
      have hbucket := (insert_spec (ho n rfl) hkey value).edits (trieHash key)
      rw [if_pos rfl] at hbucket
      have hmem :
          (key, value) ∈ bucket (trieHash key)
            (grow key value way.length (some n)).entries :=
        hbucket ▸ AssocList.mem_insert_self key value _
      exact (ht.hash_eq _ (List.mem_filter.mp hmem).1).symm

theorem Terminal.insert_of_ne {h : UInt32} (ht : Terminal h n)
    (hne : h ≠ trieHash key) (value : V) (level : Nat) :
    (insert (trieHash key) key value n level).1 =
      fork n h (.leaf (trieHash key) key value) (trieHash key) (levels - level)
        level := by
  cases ht with
  | leaf _ => rw [insert, if_pos hne]
  | collision _ _ => rw [insert, if_pos hne]

/-- Where all keys have the hash of the new one, a leaf or a collision is left,
and it does not matter on which level this happens. -/
theorem Terminal.insert_of_eq (ht : Terminal (trieHash key) n) (value : V) :
    ∃ n', Terminal (trieHash key) n' ∧
      ∀ level, (insert (trieHash key) key value n level).1 = n' := by
  cases ht with
  | @leaf k v hk =>
      simp only [insert, if_neg (not_not_intro (Eq.refl (trieHash key)))]
      split
      · exact ⟨_, .leaf rfl, fun _ => rfl⟩
      · exact ⟨_, .collision (by simp) (by simp [hk]), fun _ => rfl⟩
  | @collision es hlen hes =>
      simp only [insert, if_neg (not_not_intro (Eq.refl (trieHash key)))]
      refine ⟨_, .collision ?_ (hash_insert value hes), fun _ => rfl⟩
      have := AssocList.length_insert (· == ·) key value es
      split at this <;> omega

/-- Seen by its rows, growth at a level is growth one level further in the slot
of the key. -/
theorem MayStand.rowsAt_grow (ho : MayStand way o)
    (hkey : Follows (trieHash key) way) (value : V) :
    rowsAt way.length (some (grow key value way.length o)) =
      place (slot (trieHash key) way.length) (grow key value (way.length + 1))
        (rowsAt way.length o) := by
  cases o with
  | none => rfl
  | some n =>
      cases ho n rfl with
      | @terminal _ h _ ht hf =>
          rw [ht.rowsAt_eq]
          by_cases hh : h = trieHash key
          · subst hh
            obtain ⟨n', ht', hn'⟩ := ht.insert_of_eq value
            rw [grow, hn', ht'.rowsAt_eq, place, if_neg (Nat.lt_irrefl _),
              if_pos rfl, grow, hn']
          · have hway := way_lt_of_ne hf hkey hh
            obtain ⟨depth, hdepth⟩ : ∃ depth, levels - way.length = depth + 1 :=
              ⟨levels - way.length - 1, by omega⟩
            rw [grow, ht.insert_of_ne hh, hdepth, rowsAt_fork]
            refine place_congr rfl fun a ha => ?_
            rw [List.mem_singleton, Prod.mk.injEq] at ha
            obtain ⟨-, rfl⟩ := ha
            rw [grow, ht.insert_of_ne hh,
              show levels - (way.length + 1) = depth by omega]
      | @branch _ b cs hway hne hlen hall =>
          have h := WellFormed.branch hway hne hlen hall
          have hs := slot_lt (trieHash key) way.length
          rw [grow, insert, rowsAt]
          generalize slot (trieHash key) way.length = s at hs
          have hbelow (l : List (Node K V)) :
              ∀ p ∈ (slotsBelow b s).zip l, p.1 < s :=
            fun p hp => lt_of_mem_slotsBelow (List.of_mem_zip hp).1
          have habove (r : List (Node K V)) :
              ∀ p ∈ (slotsAbove b s).zip r, s < p.1 :=
            fun p hp => lt_of_mem_slotsAbove (List.of_mem_zip hp).1
          cases hb : b.getLsbD s with
          | true =>
              obtain ⟨l, c, r, rfl, hrank, hl, -, -⟩ := h.used hs hb
              rw [if_pos rfl, ← hrank, insertAt_append, rowsAt,
                usedSlots_of_used hs hb, List.zip_append hl.1,
                List.zip_append hl.1, List.zip_cons_cons, List.zip_cons_cons,
                place_of_used (hbelow l), grow]
          | false =>
              obtain ⟨l, r, rfl, hrank, hl, -⟩ := h.unused hs hb
              rw [if_neg (by decide), ← hrank, insertIdx_length, rowsAt,
                usedSlots_set _ hs, usedSlots_of_unused hs hb,
                List.zip_append hl.1, List.zip_append hl.1,
                List.zip_cons_cons, place_of_unused (hbelow l) (habove r), grow]

/-- Where nothing has the hash of a key, setting the key makes a branch. -/
theorem WellFormed.exists_branch_of_grow (h : WellFormed way n)
    (hne : ∀ hash, Terminal hash n → hash ≠ trieHash key) (value : V)
    (level : Nat) : ∃ b cs, grow key value level (some n) = .branch b cs := by
  cases h with
  | @terminal _ hash _ ht _ =>
      rw [grow, ht.insert_of_ne (hne hash ht)]
      exact exists_branch_fork ..
  | branch _ _ _ _ =>
      rw [grow, insert]
      split <;> exact ⟨_, _, rfl⟩

/-- Two keys with different hashes make a branch, and each does its part
to the rows. -/
theorem MayStand.exists_rows_of_grow {key key' : K} (ho : MayStand way o)
    (hkey : Follows (trieHash key) way) (hkey' : Follows (trieHash key') way)
    (hne : trieHash key ≠ trieHash key') (value value' : V) :
    ∃ b cs, grow key' value' way.length (some (grow key value way.length o)) =
        .branch b cs ∧
      WellFormed way (.branch b cs) ∧
      (usedSlots b).zip cs =
        place (slot (trieHash key') way.length)
          (grow key' value' (way.length + 1))
          (place (slot (trieHash key) way.length)
            (grow key value (way.length + 1)) (rowsAt way.length o)) := by
  have hfirst := (ho.wellFormed_grow hkey value).mayStand
  obtain ⟨b, cs, heq⟩ := (ho.wellFormed_grow hkey value).exists_branch_of_grow
    (fun hash ht => ho.hash_of_grow hkey ht ▸ hne) value' way.length
  have hwf := hfirst.wellFormed_grow hkey' value'
  have hrows := hfirst.rowsAt_grow hkey' value'
  rw [heq] at hwf hrows
  rw [ho.rowsAt_grow hkey] at hrows
  exact ⟨b, cs, heq, hwf, hrows⟩

theorem MayStand.grow_comm {key key' : K} (ho : MayStand way o)
    (hkey : Follows (trieHash key) way) (hkey' : Follows (trieHash key') way)
    (hne : trieHash key ≠ trieHash key') (value value' : V) :
    grow key' value' way.length (some (grow key value way.length o)) =
      grow key value way.length (some (grow key' value' way.length o)) := by
  -- On the last level the hashes are the same, so it is the number of levels
  -- left that the induction is on.
  obtain ⟨left, hleft⟩ : ∃ left, left + way.length = levels :=
    ⟨levels - way.length,
      Nat.sub_add_cancel (Nat.le_of_lt (way_lt_of_ne hkey hkey' hne))⟩
  induction left generalizing way o with
  | zero => exact absurd (way_lt_of_ne hkey hkey' hne) (by omega)
  | succ left ih =>
      obtain ⟨b, cs, heq, hwf, hrows⟩ :=
        ho.exists_rows_of_grow hkey hkey' hne value value'
      obtain ⟨b', cs', heq', hwf', hrows'⟩ :=
        ho.exists_rows_of_grow hkey' hkey hne.symm value' value
      rw [heq, heq']
      refine hwf.branch_ext hwf' ?_
      rw [hrows, hrows']
      by_cases hslot : slot (trieHash key) way.length =
        slot (trieHash key') way.length
      · -- What the two keys make of what is in their slot, they make of it
        -- one level further.
        have hnext (o : Option (Node K V))
            (ho : MayStand (way ++ [slot (trieHash key) way.length]) o) :=
          ih ho (follows_snoc.mpr ⟨hkey, rfl⟩)
            (follows_snoc.mpr ⟨hkey', hslot.symm⟩)
            (by rw [List.length_append, List.length_singleton]; omega)
        simp only [List.length_append, List.length_singleton] at hnext
        rw [← hslot, place_place, place_place]
        exact place_congr (hnext none nofun) fun a ha =>
          hnext _ (ho.of_mem_rowsAt ha).mayStand
      · exact place_comm (Ne.symm hslot) _

end Node

/-! ## Maps -/

variable [TrieHash K]

theorem WellFormed.ext_root {m m' : HashTrie K V} (h : m.WellFormed)
    (h' : m'.WellFormed) (hroot : m.root = m'.root) : m = m' := by
  have hsize : m.size = m'.size := by
    rw [h.size, h'.size, entries, entries, hroot]
  exact (mk.injEq ..).mpr ⟨hroot, hsize⟩

variable [BEq K] {m : HashTrie K V}

theorem root_insert (m : HashTrie K V) (key : K) (value : V) :
    (m.insert key value).root = some (Node.grow key value 0 m.root) := by
  rw [insert]
  split
  · next hroot => rw [hroot]; rfl
  · next n hroot => rw [hroot]; rfl

theorem WellFormed.insert_comm (h : m.WellFormed) {key key' : K}
    (hne : trieHash key ≠ trieHash key') (value value' : V) :
    (m.insert key value).insert key' value' =
      (m.insert key' value').insert key value := by
  have hstart : Node.MayStand [] m.root := h.root
  have hgrow :=
    hstart.grow_comm (follows_nil _) (follows_nil _) hne value value'
  refine ((h.insert key value).1.insert key' value').1.ext_root
    ((h.insert key' value').1.insert key value).1 ?_
  rw [root_insert, root_insert, root_insert, root_insert]
  exact congrArg some hgrow

/-- Setting one entry after the other is independent of their order if
all hashes differ. -/
theorem WellFormed.foldl_insert_perm (h : m.WellFormed) {es es' : List (K × V)}
    (hperm : List.Perm es es')
    (hes : es.Pairwise fun a b => trieHash a.1 ≠ trieHash b.1) :
    es.foldl (fun m e => m.insert e.1 e.2) m =
      es'.foldl (fun m e => m.insert e.1 e.2) m := by
  induction hperm generalizing m with
  | nil => rfl
  | cons e _ ih => exact ih (h.insert e.1 e.2).1 hes.of_cons
  | swap a b _ =>
      have hne := List.rel_of_pairwise_cons hes List.mem_cons_self
      rw [List.foldl_cons, List.foldl_cons, List.foldl_cons, List.foldl_cons,
        h.insert_comm hne]
  | trans hperm _ ih ih' =>
      exact (ih h hes).trans (ih' h (hperm.pairwise hes fun hne => hne.symm))

namespace History

variable [LawfulTrieHash K]

/-- Of two keys with different hashes either may be set first: the tries are the
same node for node. So a trie that is built from entries whose hashes all differ
does not show their order. -/
theorem inserts_commute :
    (∀ m : HashTrie K V, Reached m → ∀ k k' v v', trieHash k ≠ trieHash k' →
      (m.insert k v).insert k' v' = (m.insert k' v').insert k v) ∧
      ∀ es es' : List (K × V), List.Perm es es' →
        (es.Pairwise fun a b => trieHash a.1 ≠ trieHash b.1) →
          (ofList es : HashTrie K V) = ofList es' :=
  ⟨fun _ hm _ _ v v' hne => hm.represents.wellFormed.insert_comm hne v v',
    fun _ _ hperm hes => wellFormed_empty.foldl_insert_perm hperm hes⟩

/-- A removal has left a chain of two branches in front of a leaf. One key comes
to stand next to the lower branch's only child, the other goes on behind it. -/
theorem inserts_commute_labelled :
    let edits : List (Edit Labelled Nat) :=
      [.insert 0 ⟨0, 0x0001⟩ 10, .insert 1 ⟨1, 0x0021⟩ 11, .erase 2 ⟨1, 0x0021⟩]
    let m := ((start.run edits : History Labelled Nat).version 3).map
    let k : Labelled := ⟨2, 0x0041⟩
    let k' : Labelled := ⟨3, 0x0401⟩
    (m.insert k 12).insert k' 13 = (m.insert k' 13).insert k 12 ∧
      (ofList [(k, 12), (k', 13), (⟨0, 0x0001⟩, 10)] : HashTrie Labelled Nat) =
        ofList [(⟨0, 0x0001⟩, 10), (k, 12), (k', 13)] := by
  intro edits m k k'
  have hm : Reached m := ⟨edits, 3, rfl⟩
  exact ⟨inserts_commute.1 m hm k k' 12 13 (by decide),
    inserts_commute.2 _ _ (by decide) (by decide)⟩

end History

end TinyLisp.HashTrie
