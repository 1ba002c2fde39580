import Mathlib.Data.List.Forall2
import TinyLisp.HashTrie.Cursor
import TinyLisp.Proofs.HashTrie.Refinement

/-!
# The order of the entries

How a map lists its entries is to be seen in what it prints, and it is settled
by the association list next to it. The walk goes by the digits of the hashes,
and where these are the same, by the time the keys came; so it lists the
association list sorted by hash, with a sort that is stable. Two lists in the
order of the hashes are equal if their buckets are, so all that has to be known
about the sort is that it keeps the buckets.

The walk itself is a loop over a stack of nodes. Whatever it has done so far,
what it has still to give are the entries at hand and those of the nodes on the
stack, from the top down.
-/

namespace TinyLisp.HashTrie

variable {K V : Type}

/-! ## Sorting by hash -/

theorem digitsLE_trans {as bs cs : List Nat} (h : digitsLE as bs = true)
    (h' : digitsLE bs cs = true) : digitsLE as cs = true := by
  induction as generalizing bs cs with
  | nil => rfl
  | cons a as ih =>
      cases bs with
      | nil => simp [digitsLE] at h
      | cons b bs =>
          cases cs with
          | nil => simp [digitsLE] at h'
          | cons c cs =>
              simp only [digitsLE, Bool.or_eq_true, Bool.and_eq_true,
                decide_eq_true_eq, beq_iff_eq] at h h' ⊢
              rcases h with hab | ⟨rfl, hab⟩
              · omega
              · rcases h' with hbc | ⟨rfl, hbc⟩
                · exact .inl hbc
                · exact .inr ⟨rfl, ih hab hbc⟩

section Sorting

variable [TrieHash K]

/-- Whether the hash of one entry may stand before that of another. -/
def entryLE (a b : K × V) : Bool :=
  hashLE (trieHash a.1) (trieHash b.1)

theorem entryLE_trans (a b c : K × V) (h : entryLE a b = true)
    (h' : entryLE b c = true) : entryLE a c = true :=
  digitsLE_trans h h'

theorem entryLE_total (a b : K × V) : (entryLE a b || entryLE b a) = true := by
  simp only [entryLE, Bool.or_eq_true]
  exact hashLE_total _ _

theorem sorted_mergeSort_entryLE (es : List (K × V)) :
    (es.mergeSort entryLE).Pairwise fun a b =>
      hashLE (trieHash a.1) (trieHash b.1) = true :=
  List.pairwise_mergeSort entryLE_trans entryLE_total es

/-- Sorting moves no entry past another one of the same hash. -/
theorem sameBuckets_mergeSort (es : List (K × V)) :
    SameBuckets (es.mergeSort entryLE) es := by
  intro hash
  have hsame : (bucket hash es).Pairwise fun a b => entryLE a b = true := by
    refine List.Pairwise.imp_of_mem (R := fun _ _ => True) ?_
      (List.pairwise_of_forall fun _ _ => trivial)
    intro a b ha hb _
    have hha : trieHash a.1 = hash := by
      simpa [bucket] using (List.mem_filter.mp ha).2
    have hhb : trieHash b.1 = hash := by
      simpa [bucket] using (List.mem_filter.mp hb).2
    rw [entryLE, hha, hhb]
    exact hashLE_refl hash
  -- A bucket is in order, so the sort leaves it as it stands, and adds nothing
  -- to it.
  have hsub : List.Sublist (bucket hash es) (es.mergeSort entryLE) :=
    List.sublist_mergeSort entryLE_trans entryLE_total hsame List.filter_sublist
  have hbucket :
      List.Sublist (bucket hash es) (bucket hash (es.mergeSort entryLE)) := by
    have := hsub.filter fun e => trieHash e.1 == hash
    rwa [bucket, List.filter_filter, funext fun e => Bool.and_self _] at this
  have hlen : (bucket hash (es.mergeSort entryLE)).length =
      (bucket hash es).length :=
    ((List.mergeSort_perm es entryLE).filter _).length_eq
  exact (hbucket.eq_of_length hlen.symm).symm

theorem Represents.entries_eq [BEq K] {P : K → Prop} {m : HashTrie K V}
    {es : List (K × V)} (h : Represents P m es) :
    m.entries = es.mergeSort entryLE := by
  refine SameBuckets.eq_of_sorted (fun hash => ?_) h.wellFormed.sorted
    (sorted_mergeSort_entryLE es)
  rw [h.buckets hash, sameBuckets_mergeSort es hash]

end Sorting

/-! ## The walk -/

namespace Cursor

/-- What a walk has still to give. -/
def rest (c : Cursor K V) : List (K × V) :=
  c.pending ++ Node.entriesAll c.nodes

theorem next?_rest (c : Cursor K V) :
    match c.next? with
    | none => c.rest = []
    | some (e, c') => c.rest = e :: c'.rest := by
  fun_induction next? c with
  | case1 e es nodes => simp [rest]
  | case2 => simp [rest, Node.entriesAll]
  | case3 h k v nodes => simp [rest, Node.entriesAll, Node.entries]
  | case4 h es nodes ih => simpa [rest, Node.entriesAll, Node.entries] using ih
  | case5 b cs nodes ih =>
      simpa [rest, Node.entriesAll, Node.entriesAll_append, Node.entries] using ih

theorem yields_iff {c : Cursor K V} {es : List (K × V)} :
    c.Yields es ↔ es = c.rest := by
  constructor
  · intro h
    induction h with
    | stop hnone =>
        rename_i c
        have := next?_rest c
        rw [hnone] at this
        exact this.symm
    | step hsome _ ih =>
        rename_i c _ _ _ _
        have := next?_rest c
        rw [hsome] at this
        rw [this, ih]
  · rintro rfl
    generalize hes : c.rest = es
    induction es generalizing c with
    | nil =>
        have := next?_rest c
        cases hnext : c.next? with
        | none => exact .stop hnext
        | some p => simp [hnext, hes] at this
    | cons e es ih =>
        have := next?_rest c
        cases hnext : c.next? with
        | none => simp [hnext, hes] at this
        | some p =>
            obtain ⟨e', c'⟩ := p
            simp only [hnext, hes, List.cons.injEq] at this
            obtain ⟨rfl, hrest⟩ := this
            exact .step hnext (ih hrest.symm)

end Cursor

theorem rest_cursor (m : HashTrie K V) : m.cursor.rest = m.entries := by
  rw [Cursor.rest, cursor, entries]
  cases m.root <;> simp [Node.entriesAll]

/-! ## Maps with the same keys -/

section Keys

variable [BEq K] [TrieHash K] [LawfulTrieHash K]

/-- Two lists of keys in the order of their hashes, each key of one equal to
some key of the other. If no two keys of the first have the same hash, the keys
are equal one by one. -/
theorem forall₂_of_sorted {xs ys : List K}
    (hxs : xs.Pairwise fun a b => hashLE (trieHash a) (trieHash b) = true)
    (hys : ys.Pairwise fun a b => hashLE (trieHash a) (trieHash b) = true)
    (hhash : xs.Pairwise fun a b => trieHash a ≠ trieHash b)
    (hdistinct : ys.Pairwise fun a b => (a == b) = false)
    (hxy : ∀ x ∈ xs, ∃ y ∈ ys, (x == y) = true)
    (hyx : ∀ y ∈ ys, ∃ x ∈ xs, (x == y) = true) :
    List.Forall₂ (fun x y => (x == y) = true) xs ys := by
  induction xs generalizing ys with
  | nil =>
      cases ys with
      | nil => exact .nil
      | cons y ys =>
          obtain ⟨x, hx, _⟩ := hyx y List.mem_cons_self
          cases hx
  | cons x xs ih =>
      cases ys with
      | nil =>
          obtain ⟨y, hy, _⟩ := hxy x List.mem_cons_self
          cases hy
      | cons y ys =>
          obtain ⟨hx, hxs⟩ := List.pairwise_cons.mp hxs
          obtain ⟨hy, hys⟩ := List.pairwise_cons.mp hys
          obtain ⟨hxhash, hhash⟩ := List.pairwise_cons.mp hhash
          obtain ⟨hyne, hdistinct⟩ := List.pairwise_cons.mp hdistinct
          obtain ⟨y', hy', hxy'⟩ := hxy x List.mem_cons_self
          obtain ⟨x', hx', hx'y⟩ := hyx y List.mem_cons_self
          -- The partner of either head comes no earlier than the other head.
          have hle : hashLE (trieHash x) (trieHash y) = true := by
            rw [← LawfulTrieHash.hash_eq hx'y]
            rcases List.mem_cons.mp hx' with rfl | hmem
            · exact hashLE_refl _
            · exact hx x' hmem
          have hge : hashLE (trieHash y) (trieHash x) = true := by
            rw [LawfulTrieHash.hash_eq hxy']
            rcases List.mem_cons.mp hy' with rfl | hmem
            · exact hashLE_refl _
            · exact hy y' hmem
          have hheads : trieHash x = trieHash y := hashLE_antisymm hle hge
          have hxeq : (x == y) = true := by
            rcases List.mem_cons.mp hx' with rfl | hmem
            · exact hx'y
            · exact absurd (hheads.trans (LawfulTrieHash.hash_eq hx'y).symm)
                (hxhash x' hmem)
          refine .cons hxeq (ih hxs hys hhash hdistinct ?_ ?_)
          · intro a ha
            obtain ⟨b, hb, hab⟩ := hxy a (List.mem_cons_of_mem x ha)
            rcases List.mem_cons.mp hb with rfl | hb
            · exact absurd (hheads.trans (LawfulTrieHash.hash_eq hab).symm)
                (hxhash a ha)
            · exact ⟨b, hb, hab⟩
          · intro b hb
            obtain ⟨a, ha, hab⟩ := hyx b (List.mem_cons_of_mem y hb)
            rcases List.mem_cons.mp ha with rfl | ha
            · have hyb : (y == b) = true :=
                PartialEquivBEq.trans (PartialEquivBEq.symm hxeq) hab
              rw [hyne b hb] at hyb
              cases hyb
            · exact ⟨a, ha, hab⟩

omit [LawfulTrieHash K] in
theorem Represents.sorted_keys {m : HashTrie K V} {es : List (K × V)}
    (h : Represents (fun _ => True) m es) :
    m.keys.Pairwise fun a b => hashLE (trieHash a) (trieHash b) = true :=
  List.pairwise_map.mpr h.wellFormed.sorted

theorem Represents.distinct_keys {m : HashTrie K V} {es : List (K × V)}
    (h : Represents (fun _ => True) m es) :
    m.keys.Pairwise fun a b => (a == b) = false :=
  List.pairwise_map.mpr (h.entries LawfulTrieHash.lawfulOn).distinct

theorem Represents.contains_iff {m : HashTrie K V} {es : List (K × V)}
    (h : Represents (fun _ => True) m es) (k : K) :
    m.contains k = true ↔ ∃ k' ∈ m.keys, (k' == k) = true := by
  rw [(h.entries LawfulTrieHash.lawfulOn).contains_eq
    LawfulTrieHash.lawfulOn trivial]
  simp [AssocList.contains, HashTrie.keys]

theorem Represents.same_order {V' : Type} {m : HashTrie K V}
    {m' : HashTrie K V'} {es : List (K × V)} {es' : List (K × V')}
    (h : Represents (fun _ => True) m es)
    (h' : Represents (fun _ => True) m' es')
    (hkeys : ∀ k, m'.contains k = m.contains k)
    (hhash : m.keys.Pairwise fun a b => trieHash a ≠ trieHash b) :
    List.Forall₂ (fun a b => (a == b) = true) m.keys m'.keys := by
  refine forall₂_of_sorted h.sorted_keys h'.sorted_keys hhash
    h'.distinct_keys ?_ ?_
  · intro k hk
    have hm : m.contains k = true := (h.contains_iff k).mpr ⟨k, hk, BEq.rfl⟩
    obtain ⟨k', hk', heq⟩ := (h'.contains_iff k).mp ((hkeys k).trans hm)
    exact ⟨k', hk', PartialEquivBEq.symm heq⟩
  · intro k' hk'
    have hm' : m'.contains k' = true :=
      (h'.contains_iff k').mpr ⟨k', hk', BEq.rfl⟩
    exact (h.contains_iff k').mp ((hkeys k').symm.trans hm')

end Keys

/-! ## Histories -/

namespace History

variable [BEq K] [TrieHash K] [LawfulTrieHash K]

/-- After any edits, walking a version gives the association list with its
number, stably sorted by the digits of the hashes, the lowest digit first. So
versions of any two histories that have the same keys, no two of them with the
same hash, list them in the same order. -/
theorem walk_yields_sorted (edits : List (Edit K V)) (n : Nat) :
    let m := ((start.run edits : History K V).version n).map
    let es := plainVersion (plainRun edits) n
    (∀ listed, m.cursor.Yields listed ↔ listed = es.mergeSort entryLE) ∧
      m.entries = es.mergeSort entryLE ∧
      ∀ {V' : Type} (edits' : List (Edit K V')) (n' : Nat),
        let m' := ((start.run edits' : History K V').version n').map
        (∀ k, m'.contains k = m.contains k) →
        (m.keys.Pairwise fun a b => trieHash a ≠ trieHash b) →
        List.Forall₂ (fun a b => (a == b) = true) m.keys m'.keys := by
  intro m es
  have hrep : Represents (fun _ => True) m es := (parallel_run edits).2 n
  have hentries : m.entries = es.mergeSort entryLE := hrep.entries_eq
  refine ⟨fun listed => ?_, hentries, fun {V'} edits' n' => ?_⟩
  · rw [Cursor.yields_iff, rest_cursor, hentries]
  · intro m' hkeys hhash
    exact hrep.same_order ((parallel_run edits').2 n') hkeys hhash

/-- One history lets two keys collide and removes the first of them, the other
never had it. Both are left with the keys of labels 1 and 2, whose hashes share
their lowest digit. -/
theorem walk_yields_sorted_labelled :
    let edits : List (Edit Labelled Nat) :=
      [.insert 0 ⟨0, 33⟩ 10, .insert 1 ⟨1, 33⟩ 11, .insert 2 ⟨2, 1⟩ 12,
        .erase 3 ⟨0, 33⟩]
    let m := ((start.run edits : History Labelled Nat).version 4).map
    let m' := ((start.run [.collect [(⟨2, 1⟩, ()), (⟨1, 33⟩, ())]] :
      History Labelled Unit).version 1).map
    (m.cursor.Yields [(⟨2, 1⟩, 12), (⟨1, 33⟩, 11)]) ∧
      List.Forall₂ (fun a b => (a == b) = true) m.keys m'.keys := by
  intro edits m m'
  obtain ⟨hyields, hentries, horder⟩ := walk_yields_sorted edits 4
  have hkeys : m'.keys = m.keys := by decide
  refine ⟨(hyields _).mpr ?_, horder _ 1 (fun k => ?_) (by decide)⟩
  · rw [← hentries]
    decide
  · rw [Bool.eq_iff_iff, ((parallel_run _).2 1).contains_iff,
      ((parallel_run _).2 4).contains_iff]
    exact iff_of_eq (congrArg (fun ks => ∃ k' ∈ ks, (k' == k) = true) hkeys)

end History

end TinyLisp.HashTrie
