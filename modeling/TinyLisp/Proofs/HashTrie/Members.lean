import Mathlib.Data.List.InsertIdx
import TinyLisp.Proofs.HashTrie.Invariant

/-!
# Where entries come from

Setting a key adds one entry at most, removing one adds none, and looking a key
up gives the value of an entry. All of this holds of every trie, well formed or
not, and whatever is known of the equality of keys: the operations may lose an
entry or miss it, but they make none up.
-/

namespace TinyLisp.HashTrie

variable {K V : Type}

namespace Node

theorem mem_entries_fork {a b : Node K V} {ha hb : UInt32} {depth level : Nat}
    {e : K × V} (h : e ∈ (fork a ha b hb depth level).entries) :
    e ∈ a.entries ∨ e ∈ b.entries := by
  induction depth generalizing level with
  | zero => cases h
  | succ depth ih =>
      simp only [fork] at h
      split at h
      · exact ih (by simpa [entries, entriesAll] using h)
      · split at h
        · simpa [entries, entriesAll] using h
        · simpa [entries, entriesAll, or_comm] using h

variable [BEq K] {hash : UInt32} {key : K} {value : V} {e : K × V}

theorem mem_entriesAll_insertAt {cs : List (Node K V)} {index level : Nat}
    (ih : ∀ c ∈ cs, ∀ level, e ∈ (insert hash key value c level).1.entries →
      e = (key, value) ∨ e ∈ c.entries)
    (h : e ∈ entriesAll (insertAt hash key value cs index level).1) :
    e = (key, value) ∨ e ∈ entriesAll cs := by
  induction cs generalizing index with
  | nil => cases h
  | cons c cs ihcs =>
      cases index with
      | zero =>
          simp only [insertAt, entriesAll, List.mem_append] at h ⊢
          rcases h with h | h
          · rcases ih c List.mem_cons_self level h with h | h
            · exact .inl h
            · exact .inr (.inl h)
          · exact .inr (.inr h)
      | succ index =>
          simp only [insertAt, entriesAll, List.mem_append] at h ⊢
          rcases h with h | h
          · exact .inr (.inl h)
          · rcases ihcs (fun c hc => ih c (List.mem_cons_of_mem _ hc)) h with h
              | h
            · exact .inl h
            · exact .inr (.inr h)

theorem mem_entries_insert {n : Node K V} {level : Nat}
    (h : e ∈ (insert hash key value n level).1.entries) :
    e = (key, value) ∨ e ∈ n.entries := by
  induction n using Node.induct generalizing level with
  | leaf hash' k v =>
      simp only [insert] at h
      split at h
      · rcases mem_entries_fork h with h | h
        · exact .inr h
        · exact .inl (List.mem_singleton.mp h)
      · split at h
        · exact .inl (List.mem_singleton.mp h)
        · rcases List.mem_cons.mp h with h | h
          · exact .inr (List.mem_singleton.mpr h)
          · exact .inl (List.mem_singleton.mp h)
  | collision hash' es =>
      simp only [insert] at h
      split at h
      · rcases mem_entries_fork h with h | h
        · exact .inr h
        · exact .inl (List.mem_singleton.mp h)
      · exact AssocList.mem_insert h
  | branch bitmap cs ih =>
      simp only [insert] at h
      split at h
      · exact mem_entriesAll_insertAt (fun c hc level => ih c hc) h
      · obtain ⟨c, hc, he⟩ := mem_entriesAll.mp h
        rcases List.eq_or_mem_of_mem_insertIdx hc with rfl | hc
        · exact .inl (List.mem_singleton.mp he)
        · exact .inr (mem_entriesAll.mpr ⟨c, hc, he⟩)

theorem exists_get?_of_getAt? {cs : List (Node K V)} {index level : Nat}
    (h : getAt? hash key cs index level = some value) :
    ∃ c ∈ cs, get? hash key c level = some value := by
  induction cs generalizing index with
  | nil => cases h
  | cons c cs ih =>
      cases index with
      | zero => exact ⟨c, List.mem_cons_self, h⟩
      | succ index =>
          obtain ⟨d, hd, hget⟩ := ih h
          exact ⟨d, List.mem_cons_of_mem c hd, hget⟩

theorem mem_entries_of_get? {n : Node K V} {level : Nat}
    (h : get? hash key n level = some value) :
    ∃ e ∈ n.entries, (e.1 == key) = true ∧ e.2 = value := by
  induction n using Node.induct generalizing level with
  | leaf hash' k v =>
      simp only [get?] at h
      split at h
      · next hk =>
          rw [Bool.and_eq_true] at hk
          exact ⟨(k, v), List.mem_singleton_self _, hk.2, Option.some.inj h⟩
      · cases h
  | collision hash' es =>
      simp only [get?] at h
      split at h
      · exact AssocList.mem_of_find?_eq_some h
      · cases h
  | branch bitmap cs ih =>
      simp only [get?] at h
      split at h
      · obtain ⟨c, hc, hget⟩ := exists_get?_of_getAt? h
        obtain ⟨e, he, heq⟩ := ih c hc hget
        exact ⟨e, mem_entriesAll.mpr ⟨c, hc, he⟩, heq⟩
      · cases h

/-- The entries that a removal leaves in place of a node. -/
def remaining (n : Node K V) : Removal K V → List (K × V)
  | .absent => n.entries
  | .emptied => []
  | .left rest => rest.entries

theorem mem_entriesAll_eraseAt {cs : List (Node K V)} {index level : Nat}
    (ih : ∀ c ∈ cs, ∀ level, e ∈ remaining c (erase hash key c level) →
      e ∈ c.entries)
    (h : e ∈ entriesAll (eraseAt hash key cs index level).2) :
    e ∈ entriesAll cs := by
  induction cs generalizing index with
  | nil => cases h
  | cons c cs ihcs =>
      cases index with
      | zero =>
          have hc := ih c List.mem_cons_self level
          simp only [eraseAt] at h
          cases hr : erase hash key c level with
          | absent => rw [hr] at h; exact h
          | emptied => rw [hr] at h; exact List.mem_append_right _ h
          | left rest =>
              rw [hr] at h hc
              rcases List.mem_append.mp h with h | h
              · exact List.mem_append_left _ (hc h)
              · exact List.mem_append_right _ h
      | succ index =>
          rcases List.mem_append.mp h with h | h
          · exact List.mem_append_left _ h
          · exact List.mem_append_right _
              (ihcs (fun d hd => ih d (List.mem_cons_of_mem c hd)) h)

theorem mem_entries_erase {n : Node K V} {level : Nat}
    (h : e ∈ remaining n (erase hash key n level)) : e ∈ n.entries := by
  induction n using Node.induct generalizing level with
  | leaf hash' k v =>
      simp only [erase] at h
      split at h
      · cases h
      · exact h
  | collision hash' es =>
      simp only [erase] at h
      split at h
      · have hsub : AssocList.erase (· == ·) key es ⊆ es :=
          (AssocList.erase_sublist key es).subset
        -- Every way a bucket can shrink lists what is left of it.
        split at h
        · cases h
        · next k v heq => exact hsub (by rw [heq]; exact h)
        · exact hsub h
      · exact h
  | branch bitmap cs ih =>
      simp only [erase] at h
      split at h
      · have hrest : ∀ rest,
            (eraseAt hash key cs (rank bitmap (slot hash level)) (level + 1)).2 =
              rest → e ∈ entriesAll rest → e ∈ entriesAll cs := by
          rintro _ rfl
          exact mem_entriesAll_eraseAt fun c hc level => ih c hc
        split at h
        · exact h
        · cases h
        · next rest _ heq => exact hrest rest (by rw [heq]) h
        · next rest heq => exact hrest rest (by rw [heq]) h
      · exact h

end Node

variable [BEq K] [TrieHash K] {m : HashTrie K V} {key : K} {value : V}
  {e : K × V}

theorem mem_entries_insert (h : e ∈ (m.insert key value).entries) :
    e = (key, value) ∨ e ∈ m.entries := by
  obtain ⟨root, size⟩ := m
  cases root with
  | none => exact .inl (List.mem_singleton.mp h)
  | some n => exact Node.mem_entries_insert h

theorem mem_entries_ofList {ps : List (K × V)} (h : e ∈ (ofList ps).entries) :
    e ∈ ps := by
  suffices ∀ m : HashTrie K V,
      e ∈ (ps.foldl (fun m p => m.insert p.1 p.2) m).entries →
      e ∈ m.entries ∨ e ∈ ps from (this empty h).resolve_left List.not_mem_nil
  clear h
  induction ps with
  | nil => exact fun _ h => .inl h
  | cons p ps ih =>
      intro m h
      rcases ih _ h with h | h
      · rcases mem_entries_insert h with rfl | h
        · exact .inr List.mem_cons_self
        · exact .inl h
      · exact .inr (List.mem_cons_of_mem p h)

theorem mem_entries_erase (h : e ∈ (m.erase key).entries) : e ∈ m.entries := by
  obtain ⟨root, size⟩ := m
  cases root with
  | none => exact h
  | some n =>
      have hn : e ∈ Node.remaining n (Node.erase (trieHash key) key n 0) →
          e ∈ n.entries :=
        Node.mem_entries_erase
      simp only [erase, erase?] at h
      split at h <;> next hr => rw [hr] at hn; exact hn h

theorem mem_entries_of_get? (h : m.get? key = some value) :
    ∃ e ∈ m.entries, (e.1 == key) = true ∧ e.2 = value := by
  obtain ⟨root, size⟩ := m
  cases root with
  | none => cases h
  | some n => exact Node.mem_entries_of_get? h

end TinyLisp.HashTrie
