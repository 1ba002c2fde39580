import TinyLisp.Proofs.HashTrie.Safety

/-!
# Keys that collide stand together

Asking whether a key collides goes one way down the trie and looks at the node
where the way ends. It says nothing of the rest of the trie, and it need not:
whatever has the hash of the key is in that node, since the way is spelled by
the hash. So the answer is a count of the entries with this hash, and how edits
change it can be read off the bucket.
-/

namespace TinyLisp.HashTrie

variable {K V : Type} [TrieHash K]

/-- The way of a hash ends at a collision if at least two entries
have this hash. -/
theorem Node.collides_iff {way : List Nat} {n : Node K V} (h : n.WellFormed way)
    (hash : UInt32) :
    n.collides hash way.length = true ↔ 2 ≤ (bucket hash n.entries).length := by
  induction n using Node.induct generalizing way with
  | leaf hash' k v =>
      have hle : (bucket hash (Node.leaf hash' k v).entries).length ≤ 1 :=
        List.length_filter_le ..
      rw [collides]
      exact iff_of_false Bool.false_ne_true (by omega)
  | collision hash' es =>
      obtain ⟨hlen, hes, -⟩ := h.collision_inv
      rw [collides, entries, beq_iff_eq]
      by_cases hh : hash' = hash
      · subst hh
        rw [bucket_eq_self hes]
        exact iff_of_true rfl hlen
      · rw [bucket_eq_nil_of_ne hes (Ne.symm hh)]
        exact iff_of_false hh (by simp)
  | branch b cs ih =>
      have hs := slot_lt hash way.length
      rw [collides, entries]
      cases hb : b.getLsbD (slot hash way.length) with
      | true =>
          obtain ⟨l, c, r, rfl, hlen, hl, hc, hr⟩ := h.used hs hb
          have ih := ih c (by simp) hc
          rw [List.length_append, List.length_singleton] at ih
          rw [Bool.true_and, ← hlen, collidesAt_append, ih, bucket_branch hl hr]
      | false =>
          obtain ⟨l, r, rfl, -, hl, hr⟩ := h.unused hs hb
          rw [Bool.false_and, entriesAll_append, bucket_append,
            bucket_eq_nil hl.below_hash_ne, bucket_eq_nil hr.above_hash_ne]
          exact iff_of_false Bool.false_ne_true (by simp)

theorem WellFormed.isCollision_iff [BEq K] {m : HashTrie K V} (h : m.WellFormed)
    (key : K) :
    m.isCollision key = true ↔
      2 ≤ (bucket (trieHash key) m.entries).length := by
  rw [isCollision, entries]
  split
  · exact iff_of_false Bool.false_ne_true (by simp [bucket])
  · next n hn => exact Node.collides_iff (h.root n hn) _

variable [BEq K] [LawfulTrieHash K] {m : HashTrie K V} {es : List (K × V)}

/-- Setting a key adds to its bucket if the key was not there. -/
theorem Represents.length_bucket_insert (h : Represents (fun _ => True) m es)
    (key : K) (value : V) :
    (bucket (trieHash key) (m.insert key value).entries).length =
      if m.contains key then (bucket (trieHash key) m.entries).length
      else (bucket (trieHash key) m.entries).length + 1 := by
  have law := @LawfulTrieHash.lawfulOn K _ _ _
  rw [(h.wellFormed.insert key value).2 (trieHash key), if_pos rfl,
    AssocList.length_insert, h.contains_bucket law trivial,
    h.contains_eq law trivial]

/-- Removing a key takes it from its bucket if it was there. -/
theorem Represents.length_bucket_erase (h : Represents (fun _ => True) m es)
    (key : K) :
    (bucket (trieHash key) (m.erase key).entries).length =
      if m.contains key then (bucket (trieHash key) m.entries).length - 1
      else (bucket (trieHash key) m.entries).length := by
  have law := @LawfulTrieHash.lawfulOn K _ _ _
  have hedits : Edits key (AssocList.erase (· == ·) key) es
      (AssocList.erase (· == ·) key es) :=
    edits_erase fun e _ heq => LawfulTrieHash.hash_eq heq
  rw [(h.erase law trivial).buckets, hedits, if_pos rfl, AssocList.length_erase,
    ← h.buckets, h.contains_bucket law trivial, h.contains_eq law trivial]

namespace History

/-- A key collides exactly if at least two entries have its hash. So when one of
two colliding keys is removed neither collides any more, and when a second key
with the hash of another comes in both do, whatever else is in the map. -/
theorem isCollision_iff_shared_hash (h : Reached m) :
    (∀ k, m.isCollision k = true ↔ 2 ≤ (bucket (trieHash k) m.entries).length) ∧
      (∀ k k', m.contains k = true → (bucket (trieHash k) m.entries).length = 2 →
        trieHash k' = trieHash k →
        m.isCollision k' = true ∧ (m.erase k).isCollision k' = false) ∧
      ∀ k k' v, m.contains k = false →
        (bucket (trieHash k) m.entries).length = 1 →
        trieHash k' = trieHash k →
          m.isCollision k' = false ∧ (m.insert k v).isCollision k' = true := by
  have hrep := h.represents
  have hwf := hrep.wellFormed
  refine ⟨hwf.isCollision_iff, fun k k' hk hcount hhash => ?_,
    fun k k' v hk hcount hhash => ?_⟩
  · have herase : (m.erase k).WellFormed :=
      (hrep.erase LawfulTrieHash.lawfulOn trivial).wellFormed
    rw [← Bool.not_eq_true, hwf.isCollision_iff, herase.isCollision_iff, hhash,
      hrep.length_bucket_erase, if_pos hk, hcount]
    decide
  · have hinsert := (hwf.insert k v).1
    rw [← Bool.not_eq_true, hwf.isCollision_iff, hinsert.isCollision_iff, hhash,
      hrep.length_bucket_insert, if_neg (by rw [hk]; decide), hcount]
    decide

/-- Two keys collide, and a third shares all their digits but the last. -/
theorem isCollision_iff_shared_hash_labelled :
    let edits : List (Edit Labelled Nat) :=
      [.insert 0 ⟨0, 1⟩ 10, .insert 1 ⟨1, 1⟩ 11, .insert 2 ⟨2, 0x40000001⟩ 12]
    let m := ((start.run edits : History Labelled Nat).version 3).map
    (m.isCollision ⟨0, 1⟩ = true ∧ (m.erase ⟨1, 1⟩).isCollision ⟨0, 1⟩ = false) ∧
      m.isCollision ⟨2, 0x40000001⟩ = false ∧
      (m.insert ⟨3, 0x40000001⟩ 13).isCollision ⟨2, 0x40000001⟩ = true := by
  intro edits m
  have hm : Reached m := ⟨edits, 3, rfl⟩
  obtain ⟨-, herase, hinsert⟩ := isCollision_iff_shared_hash hm
  exact ⟨herase ⟨1, 1⟩ ⟨0, 1⟩ (by decide) (by decide) rfl,
    hinsert ⟨3, 0x40000001⟩ ⟨2, 0x40000001⟩ 13 (by decide) (by decide) rfl⟩

end History

end TinyLisp.HashTrie
