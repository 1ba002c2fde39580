import TinyLisp.Proofs.HashTrie.Checked

/-!
# No check fails

Every map that edits lead to keeps the invariant of tries, and so the checked
operations agree with the unchecked ones on it. `Stands` says where the nodes of
a trie are without saying anything else about them; `Invariant` is then the
invariant read node by node.
-/

namespace TinyLisp.HashTrie

variable {K V : Type}

/-! ## Digits that are left -/

theorem slot_add (hash : UInt32) (n i : Nat) :
    slot hash (n + i) = hash.toNat >>> (5 * n) >>> (5 * i) % 32 := by
  rw [slot, ← Nat.shiftRight_add, Nat.mul_add]

/-- Two hashes that follow one way and agree in all bits behind it
are the same. -/
theorem eq_of_shiftRight_eq {h h' : UInt32} {way : List Nat}
    (hf : Follows h way) (hf' : Follows h' way)
    (heq : h.toNat >>> (5 * way.length) = h'.toNat >>> (5 * way.length)) :
    h = h' := by
  refine eq_of_digits_eq (List.map_congr_left fun i _ => ?_)
  by_cases hi : i < way.length
  · exact slot_eq_of_digits_eq (hf.trans hf'.symm) hi
  · obtain ⟨j, rfl⟩ : ∃ j, i = way.length + j := ⟨i - way.length, by omega⟩
    rw [slot_add, slot_add, heq]

theorem rank_eq_length (bitmap : BitVec 32) :
    rank bitmap 32 = (usedSlots bitmap).length :=
  (length_slotsBelow bitmap 32).symm

theorem Node.collidesAt_append (hash : UInt32) (l : List (Node K V))
    (c : Node K V) (r : List (Node K V)) (level : Nat) :
    collidesAt hash (l ++ c :: r) l.length level = collides hash c level := by
  induction l with
  | nil => rfl
  | cons x l ih => rw [List.cons_append, List.length_cons, collidesAt, ih]

namespace Checked

theorem digit_eq {n : Nat} (hash : UInt32) (h : n < Node.levels) :
    digit hash (5 * n) = some (slot hash n) := by
  rw [Node.levels] at h
  rw [digit, if_pos (by omega), slot]

theorem fork_eq {a b : Node K V} {ha hb : UInt32} (hne : ha ≠ hb) {depth : Nat}
    {way : List Nat} (fa : Follows ha way) (fb : Follows hb way)
    (hdepth : depth + way.length = Node.levels) :
    fork a ha b hb (5 * way.length) =
      some (Node.fork a ha b hb depth way.length) := by
  induction depth generalizing way with
  | zero => exact absurd (Node.way_lt_of_ne fa fb hne) (by omega)
  | succ depth ih =>
      have hpart : ¬ ha.toNat >>> (5 * way.length) =
          hb.toNat >>> (5 * way.length) :=
        fun heq => hne (eq_of_shiftRight_eq fa fb heq)
      have hway := Node.way_lt_of_ne fa fb hne
      rw [fork, dif_neg hpart, digit_eq ha hway, digit_eq hb hway, Node.fork]
      simp only [Option.bind_eq_bind, Option.bind_some]
      by_cases hslot : slot ha way.length = slot hb way.length
      · have hchild :=
          @ih (way ++ [slot ha way.length]) (follows_snoc.mpr ⟨fa, rfl⟩)
            (follows_snoc.mpr ⟨fb, hslot.symm⟩) (by simp; omega)
        rw [List.length_append, List.length_singleton, Nat.mul_add] at hchild
        rw [if_pos hslot, if_pos hslot, hchild]
        rfl
      · rw [if_neg hslot, if_neg hslot]
        rfl

theorem insertNodeAt_append [BEq K] (hash : UInt32) (key : K) (value : V)
    (l : List (Node K V)) (c : Node K V) (r : List (Node K V)) (shift : Nat) :
    insertNodeAt hash key value (l ++ c :: r) l.length shift =
      (insertNode hash key value c shift).map fun p =>
        (l ++ p.1 :: r, p.2) := by
  induction l with
  | nil =>
      rw [List.nil_append, List.length_nil, insertNodeAt]
      cases insertNode hash key value c shift <;> rfl
  | cons x l ih =>
      rw [List.cons_append, List.length_cons, insertNodeAt, ih]
      cases insertNode hash key value c shift <;> rfl

theorem eraseNodeAt_append [BEq K] (hash : UInt32) (key : K)
    (l : List (Node K V)) (c : Node K V) (r : List (Node K V)) (shift : Nat) :
    eraseNodeAt hash key (l ++ c :: r) l.length shift =
      (eraseNode hash key c shift).map fun x => (x, Node.regrown l c r x) := by
  induction l with
  | nil =>
      rw [List.nil_append, List.length_nil, eraseNodeAt]
      rcases eraseNode hash key c shift with _ | (_ | _ | _) <;> rfl
  | cons x l ih =>
      rw [List.cons_append, List.length_cons, eraseNodeAt, ih]
      rcases eraseNode hash key c shift with _ | (_ | _ | _) <;> rfl

theorem reachAt_append (hash : UInt32) (l : List (Node K V)) (c : Node K V)
    (r : List (Node K V)) (shift : Nat) :
    reachAt hash (l ++ c :: r) l.length shift = reach hash c shift := by
  induction l with
  | nil => rfl
  | cons x l ih => rw [List.cons_append, List.length_cons, reachAt, ih]

/-! ## Nodes -/

section Nodes

variable [BEq K] [TrieHash K]

omit [BEq K] in
theorem insertNode_fork {way : List Nat} {h : UInt32} {n : Node K V} {key : K}
    (value : V) (hf : Follows h way) (hkey : Follows (trieHash key) way)
    (hne : h ≠ trieHash key) :
    fork n h (.leaf (trieHash key) key value) (trieHash key) (5 * way.length) =
      some (Node.fork n h (.leaf (trieHash key) key value) (trieHash key)
        (Node.levels - way.length) way.length) := by
  have hway := Node.way_lt_of_ne hf hkey hne
  exact fork_eq hne hf hkey (by omega)

theorem insertNode_eq {way : List Nat} {n : Node K V} (h : n.WellFormed way)
    {key : K} (hkey : Follows (trieHash key) way) (value : V) :
    insertNode (trieHash key) key value n (5 * way.length) =
      some (n.insert (trieHash key) key value way.length) := by
  induction n using Node.induct generalizing way with
  | leaf hash k v =>
      obtain ⟨-, hf⟩ := h.leaf_inv
      rw [insertNode, Node.insert]
      by_cases hh : hash = trieHash key
      · rw [if_neg (not_not_intro hh), if_neg (not_not_intro hh)]
        split <;> rfl
      · rw [if_pos hh, if_pos hh, insertNode_fork value hf hkey hh]
        rfl
  | collision hash es =>
      obtain ⟨-, -, hf⟩ := h.collision_inv
      rw [insertNode, Node.insert]
      by_cases hh : hash = trieHash key
      · rw [if_neg (not_not_intro hh), if_neg (not_not_intro hh)]
        split
        · next i hi =>
            obtain ⟨hlt, hcontains, hinsert, -⟩ := AssocList.of_position? hi
            rw [replaceAt, if_pos hlt, hcontains, hinsert]
            rfl
        · next hnone =>
            have habsent := AssocList.contains_eq_false_of_position? hnone
            rw [AssocList.insert_of_not_contains habsent, habsent]
            rfl
      · rw [if_pos hh, if_pos hh, insertNode_fork value hf hkey hh]
        rfl
  | branch b cs ih =>
      have hs := slot_lt (trieHash key) way.length
      have hlen (s : Nat) : 5 * (way ++ [s]).length = 5 * way.length + 5 := by
        simp; omega
      rw [insertNode, Node.insert, digit_eq _ h.way_lt]
      simp only [Option.bind_eq_bind, Option.bind_some]
      cases hb : b.getLsbD (slot (trieHash key) way.length) with
      | true =>
          obtain ⟨l, c, r, rfl, hrank, -, hc, -⟩ := h.used hs hb
          have hchild := ih c (by simp) hc (follows_snoc.mpr ⟨hkey, rfl⟩)
          rw [hlen, List.length_append, List.length_singleton] at hchild
          rw [if_pos rfl, if_pos rfl, ← hrank, insertNodeAt_append,
            Node.insertAt_append, hchild]
          rfl
      | false =>
          obtain ⟨l, r, rfl, hrank, -, -⟩ := h.unused hs hb
          rw [if_neg (by decide), if_neg (by decide), ← hrank, addAt,
            if_pos (by simp)]
          rfl

theorem eraseNode_collision {key : K} {h : UInt32} {es : List (K × V)}
    (hlen : 2 ≤ es.length) (level shift : Nat) :
    eraseNode (trieHash key) key (.collision h es) shift =
      some ((Node.collision h es).erase (trieHash key) key level) := by
  rw [eraseNode, Node.erase]
  by_cases hh : h = trieHash key
  · subst hh
    rw [if_neg (by simp), beq_self_eq_true, Bool.true_and]
    split
    · next hnone =>
        rw [AssocList.contains_eq_false_of_position? hnone]
        rfl
    · next i hi =>
        obtain ⟨hlt, hcontains, -, herase⟩ := AssocList.of_position? hi
        rw [if_pos hcontains, herase]
        rcases es with _ | ⟨a, _ | ⟨b, _ | ⟨c, es⟩⟩⟩
        · cases hlt
        · simp at hlen
        · -- One of two entries is removed, so the other one becomes a leaf.
          rw [List.length_cons, List.length_singleton] at hlt
          obtain rfl | rfl : i = 0 ∨ i = 1 := by omega
          · rfl
          · rfl
        · rw [if_neg (by simp), removeAt, if_pos hlt]
          rcases i with _ | _ | i
          · rfl
          · rfl
          · rfl
  · rw [if_pos hh, beq_false_of_ne hh, Bool.false_and]
    rfl

theorem eraseNode_eq {way : List Nat} {n : Node K V} (h : n.WellFormed way)
    (key : K) :
    eraseNode (trieHash key) key n (5 * way.length) =
      some (n.erase (trieHash key) key way.length) := by
  induction n using Node.induct generalizing way with
  | leaf hash k v => rfl
  | collision hash es => exact eraseNode_collision h.collision_inv.1 _ _
  | branch b cs ih =>
      have hs := slot_lt (trieHash key) way.length
      have hlen (s : Nat) : 5 * (way ++ [s]).length = 5 * way.length + 5 := by
        simp; omega
      rw [eraseNode, Node.erase, digit_eq _ h.way_lt]
      simp only [Option.bind_eq_bind, Option.bind_some]
      cases hb : b.getLsbD (slot (trieHash key) way.length) with
      | true =>
          obtain ⟨l, c, r, rfl, hrank, -, hc, -⟩ := h.used hs hb
          have hchild := ih c (by simp) hc
          rw [hlen, List.length_append, List.length_singleton] at hchild
          rw [if_pos rfl, if_pos rfl, ← hrank, eraseNodeAt_append,
            Node.eraseAt_append, hchild]
          simp only [Option.map_some, Option.bind_some]
          generalize c.erase (trieHash key) key (way.length + 1) = removal
          generalize Node.regrown l c r removal = rest
          cases removal with
          | absent => rfl
          | emptied => cases rest <;> rfl
          | left c' => rfl
      | false => rfl

/-- The way of a hash can be gone to its end, and what is there answers both a
look-up and whether the hash collides. -/
theorem exists_reach {way : List Nat} {n : Node K V} (h : n.WellFormed way)
    (key : K) :
    ∃ n?, reach (trieHash key) n (5 * way.length) = some n? ∧
      n.get? (trieHash key) key way.length = found key n? ∧
      n.collides (trieHash key) way.length = collides (trieHash key) n? := by
  induction n using Node.induct generalizing way with
  | leaf hash k v => exact ⟨_, rfl, rfl, rfl⟩
  | collision hash es => exact ⟨_, rfl, rfl, rfl⟩
  | branch b cs ih =>
      have hs := slot_lt (trieHash key) way.length
      have hlen (s : Nat) : 5 * (way ++ [s]).length = 5 * way.length + 5 := by
        simp; omega
      rw [reach, Node.get?, Node.collides, digit_eq _ h.way_lt]
      simp only [Option.bind_eq_bind, Option.bind_some]
      cases hb : b.getLsbD (slot (trieHash key) way.length) with
      | true =>
          obtain ⟨l, c, r, rfl, hrank, -, hc, -⟩ := h.used hs hb
          have hchild := ih c (by simp) hc
          rw [hlen, List.length_append, List.length_singleton] at hchild
          rw [if_pos rfl, if_pos rfl, Bool.true_and, ← hrank, reachAt_append,
            Node.getAt?_append, Node.collidesAt_append]
          exact hchild
      | false => exact ⟨none, rfl, rfl, rfl⟩

end Nodes

/-! ## Maps -/

section Maps

variable [BEq K] [TrieHash K] {m : HashTrie K V}

theorem insert_eq (h : m.WellFormed) (key : K) (value : V) :
    insert m key value = some (m.insert key value) := by
  rw [insert, HashTrie.insert]
  cases hroot : m.root with
  | none => rfl
  | some node =>
      have hnode :=
        insertNode_eq (h.root node hroot) (follows_nil (trieHash key)) value
      rw [List.length_nil] at hnode
      simp only [hnode]
      rfl

theorem erase_eq (h : m.WellFormed) (key : K) :
    erase m key = some (m.erase key) := by
  rw [erase, HashTrie.erase, erase?]
  cases hroot : m.root with
  | none => rfl
  | some node =>
      have hnode := eraseNode_eq (h.root node hroot) key
      have hspec := Node.erase_spec (h.root node hroot) key
      have hsize := h.size
      rw [List.length_nil] at hnode hspec
      simp only [entries, hroot] at hsize
      simp only [hnode, Option.bind_eq_bind, Option.bind_some]
      generalize node.erase (trieHash key) key 0 = removal at hspec
      cases removal with
      | absent => rfl
      | emptied => rfl
      | left rest =>
          -- There is one entry more than are left, so the size is not zero.
          have hpos : 0 < m.size := by
            have := hspec.2.2.2
            omega
          simp only [pred, if_pos hpos]
          rfl

theorem get?_eq (h : m.WellFormed) (key : K) :
    get? m key = some (m.get? key) := by
  rw [get?, HashTrie.get?]
  cases hroot : m.root with
  | none => rfl
  | some node =>
      obtain ⟨n?, hreach, hget, -⟩ := exists_reach (h.root node hroot) key
      rw [List.length_nil] at hreach hget
      simp only [hreach, hget]
      rfl

theorem isCollision_eq (h : m.WellFormed) (key : K) :
    isCollision m key = some (m.isCollision key) := by
  rw [isCollision, HashTrie.isCollision]
  cases hroot : m.root with
  | none => rfl
  | some node =>
      obtain ⟨n?, hreach, -, hcollides⟩ := exists_reach (h.root node hroot) key
      rw [List.length_nil] at hreach hcollides
      simp only [hreach, hcollides]
      rfl

theorem ofList_eq (es : List (K × V)) :
    ofList es = some (HashTrie.ofList es) := by
  suffices ∀ m : HashTrie K V, m.WellFormed →
      es.foldlM (fun m e => insert m e.1 e.2) m =
        some (es.foldl (fun m e => m.insert e.1 e.2) m)
          from this empty wellFormed_empty
  induction es with
  | nil => exact fun _ _ => rfl
  | cons e es ih =>
      intro m hm
      rw [List.foldlM_cons, insert_eq hm]
      exact ih _ (hm.insert e.1 e.2).1

end Maps

end Checked

/-! ## The invariant, node by node -/

/-- The node that a way through the slots of branches leads to from another
node. -/
inductive Node.Stands : Node K V → List Nat → Node K V → Prop where
  | here {n : Node K V} : Stands n [] n
  | child {b : BitVec 32} {cs : List (Node K V)} {s : Nat} {c n : Node K V}
      {way : List Nat} :
      (s, c) ∈ (usedSlots b).zip cs → Stands c way n →
        Stands (.branch b cs) (s :: way) n

theorem Node.Stands.entries_sublist {root n : Node K V} {way : List Nat}
    (h : Stands root way n) : List.Sublist n.entries root.entries := by
  induction h with
  | here => exact List.Sublist.refl _
  | @child b cs s c n way hmem _ ih =>
      obtain ⟨l, r, rfl⟩ := List.append_of_mem (List.of_mem_zip hmem).2
      simp only [entries, entriesAll_append, entriesAll]
      exact (ih.trans (List.sublist_append_left _ _)).trans
        (List.sublist_append_right _ _)

theorem Node.heightAll_le {cs : List (Node K V)} {n : Nat}
    (h : ∀ c ∈ cs, c.height ≤ n) : heightAll cs ≤ n := by
  induction cs with
  | nil => exact Nat.zero_le n
  | cons c cs ih =>
      rw [heightAll]
      have hc := h c List.mem_cons_self
      have hcs := ih fun d hd => h d (List.mem_cons_of_mem c hd)
      omega

variable [TrieHash K]

theorem Node.WellFormed.stands {root n : Node K V} {before way : List Nat}
    (hroot : root.WellFormed before) (h : Stands root way n) :
    n.WellFormed (before ++ way) := by
  induction h generalizing before with
  | here => rwa [List.append_nil]
  | @child b cs s c n way hmem _ ih =>
      cases hroot with
      | terminal ht _ => cases ht
      | branch _ _ _ hall =>
          have := ih (hall (s, c) hmem)
          rwa [List.append_assoc] at this

/-- Below a way of some slots there are at most the levels that are left,
and a leaf. -/
theorem Node.WellFormed.height_le {n : Node K V} {way : List Nat}
    (h : n.WellFormed way) (hway : way.length ≤ levels) :
    way.length + n.height ≤ levels + 1 := by
  induction h with
  | terminal ht _ => cases ht <;> simp [height] <;> omega
  | @branch way b cs hlt _ hlen _ ih =>
      have hcs : heightAll cs ≤ levels - way.length := by
        refine heightAll_le fun c hc => ?_
        obtain ⟨s, hs⟩ := exists_mem_zip hlen hc
        have := ih (s, c) hs (by simp; omega)
        simp only [List.length_append, List.length_singleton] at this
        omega
      rw [height]
      omega

theorem WellFormed.depth_le {m : HashTrie K V} (h : m.WellFormed) :
    m.depth ≤ 8 := by
  rw [depth]
  cases hroot : m.root with
  | none => simp
  | some node =>
      have := (h.root node hroot).height_le (by simp)
      simpa [Node.levels] using this

variable [BEq K]

/-- A node of a map, at the end of a way from the root. -/
def Holds (m : HashTrie K V) (way : List Nat) (n : Node K V) : Prop :=
  ∃ root, m.root = some root ∧ root.Stands way n

/-- What holds of the nodes of a map, each at the end of its way. -/
structure Invariant (m : HashTrie K V) : Prop where
  branch : ∀ way b cs, m.Holds way (.branch b cs) →
    cs ≠ [] ∧ cs.length = rank b 32
  leaf : ∀ way h k v, m.Holds way (.leaf h k v) → Follows h way ∧ h = trieHash k
  collision : ∀ way h es, m.Holds way (.collision h es) →
    Follows h way ∧ 2 ≤ es.length ∧ AssocList.Distinct (· == ·) es ∧
    ∀ e ∈ es, trieHash e.1 = h
  size : m.size = m.entries.length

theorem Represents.invariant {P : K → Prop} (law : LawfulOn P)
    {m : HashTrie K V} {es : List (K × V)} (h : Represents P m es) :
    m.Invariant where
  branch := by
    rintro way b cs ⟨root, hroot, hstands⟩
    have hwf := (h.wellFormed.root root hroot).stands hstands
    cases hwf with
    | terminal ht _ => cases ht
    | branch _ hne hlen _ => exact ⟨hne, by rw [rank_eq_length, hlen]⟩
  leaf := by
    rintro way hash k v ⟨root, hroot, hstands⟩
    obtain ⟨hk, hf⟩ := ((h.wellFormed.root root hroot).stands hstands).leaf_inv
    exact ⟨hf, hk.symm⟩
  collision := by
    rintro way hash entries ⟨root, hroot, hstands⟩
    obtain ⟨hlen, hes, hf⟩ :=
      ((h.wellFormed.root root hroot).stands hstands).collision_inv
    refine ⟨hf, hlen, ?_, hes⟩
    have hsub : List.Sublist entries m.entries := by
      have := hstands.entries_sublist
      rw [HashTrie.entries, hroot]
      exact this
    exact (h.entries law).distinct.sublist hsub
  size := h.wellFormed.size

namespace History

variable [LawfulTrieHash K]

/-- After any edits every version keeps the invariant of tries and is at most
eight nodes deep, and no operation on it fails a check: each checked operation
gives what the unchecked one gives. -/
theorem version_passes_checks (edits : List (Edit K V)) (n : Nat) :
    let m := ((start.run edits : History K V).version n).map
    m.Invariant ∧ m.depth ≤ 8 ∧
      (∀ key value, Checked.insert m key value = some (m.insert key value)) ∧
      (∀ key, Checked.erase m key = some (m.erase key)) ∧
      (∀ key, Checked.get? m key = some (m.get? key)) ∧
      (∀ key, Checked.isCollision m key = some (m.isCollision key)) ∧
      ∀ es : List (K × V), Checked.ofList es = some (ofList es) := by
  intro m
  have hrep : Represents (fun _ => True) m _ := (parallel_run edits).2 n
  have hwf := hrep.wellFormed
  exact ⟨hrep.invariant LawfulTrieHash.lawfulOn, hwf.depth_le,
    Checked.insert_eq hwf, Checked.erase_eq hwf, Checked.get?_eq hwf,
    Checked.isCollision_eq hwf, Checked.ofList_eq⟩

/-- Two hashes that part only in the two bits of the last digit, and a third key
that collides with one of them on the lowest level of all. -/
theorem version_passes_checks_labelled :
    let edits : List (Edit Labelled Nat) :=
      [.insert 0 ⟨0, 0⟩ 10, .insert 1 ⟨1, 0x40000000⟩ 11, .insert 2 ⟨2, 0⟩ 12]
    let m := ((start.run edits : History Labelled Nat).version 3).map
    m.Invariant ∧ m.depth = 8 ∧ Checked.erase m ⟨0, 0⟩ = some (m.erase ⟨0, 0⟩) ∧
      Checked.isCollision m ⟨2, 0⟩ = some true := by
  intro edits m
  obtain ⟨hinv, -, -, herase, -, hcollision, -⟩ := version_passes_checks edits 3
  exact ⟨hinv, by decide, herase _, (hcollision _).trans (by decide)⟩

end History

end TinyLisp.HashTrie
