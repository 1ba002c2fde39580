import TinyLisp.Proofs.HashTrie.Slots

/-!
# Buckets

A trie and an association list order the same entries differently: the trie by
the digits of their hashes, the list by the time their keys came. What they
share is the order among entries of one hash. A bucket is that part of a list,
and two lists with the same buckets are the same map.

An update of one key touches one bucket. `Edits` says so of any two lists, and
both sides of the comparison meet it: the association list because equal keys
have equal hashes, the trie because of where it keeps an entry. Nothing else has
to be known about `==`, and where something has to be, it is asked only of the
keys that satisfy a predicate; equality of values, for one, is well behaved on
some values and not on others.
-/

namespace TinyLisp

namespace AssocList

variable {K V : Type} {same : K → K → Bool}

/-- No two entries have the same key. -/
def Distinct (same : K → K → Bool) (es : List (K × V)) : Prop :=
  es.Pairwise fun a b => same a.1 b.1 = false

theorem contains_cons (k : K) (e : K × V) (es : List (K × V)) :
    contains same k (e :: es) = (same e.1 k || contains same k es) := rfl

theorem contains_eq_false_iff {k : K} {es : List (K × V)} :
    contains same k es = false ↔ ∀ e ∈ es, same e.1 k = false := by
  simp [contains]

theorem mem_of_find?_eq_some {k : K} {v : V} {es : List (K × V)}
    (h : find? same k es = some v) : ∃ e ∈ es, same e.1 k = true ∧ e.2 = v := by
  induction es with
  | nil => cases h
  | cons e es ih =>
      rw [find?] at h
      split at h
      · next hs => exact ⟨e, List.mem_cons_self, hs, Option.some.inj h⟩
      · obtain ⟨e', he', hs⟩ := ih h
        exact ⟨e', List.mem_cons_of_mem _ he', hs⟩

theorem mem_insert {k : K} {v : V} {e : K × V} {es : List (K × V)}
    (h : e ∈ insert same k v es) : e = (k, v) ∨ e ∈ es := by
  induction es with
  | nil => exact .inl (List.mem_singleton.mp h)
  | cons e' es ih =>
      rw [insert] at h
      split at h
      · rcases List.mem_cons.mp h with rfl | h
        · exact .inl rfl
        · exact .inr (List.mem_cons_of_mem _ h)
      · rcases List.mem_cons.mp h with rfl | h
        · exact .inr List.mem_cons_self
        · exact (ih h).imp_right (List.mem_cons_of_mem _)

theorem mem_insert_self (k : K) (v : V) (es : List (K × V)) :
    (k, v) ∈ insert same k v es := by
  induction es with
  | nil => exact List.mem_singleton_self _
  | cons e es ih =>
      rw [insert]
      split
      · exact List.mem_cons_self
      · exact List.mem_cons_of_mem e ih

theorem erase_sublist (k : K) (es : List (K × V)) :
    List.Sublist (erase same k es) es := by
  induction es with
  | nil => exact List.Sublist.refl _
  | cons e es ih =>
      rw [erase]
      split
      · exact List.sublist_cons_self e es
      · exact ih.cons_cons e

theorem insert_of_not_contains {k : K} {v : V} {es : List (K × V)}
    (h : contains same k es = false) : insert same k v es = es ++ [(k, v)] := by
  induction es with
  | nil => rfl
  | cons e es ih =>
      rw [contains_cons, Bool.or_eq_false_iff] at h
      rw [insert, if_neg (by rw [h.1]; decide), ih h.2, List.cons_append]

theorem erase_of_not_contains {k : K} {es : List (K × V)}
    (h : contains same k es = false) : erase same k es = es := by
  induction es with
  | nil => rfl
  | cons e es ih =>
      rw [contains_cons, Bool.or_eq_false_iff] at h
      rw [erase, if_neg (by rw [h.1]; decide), ih h.2]

theorem length_erase (k : K) (es : List (K × V)) :
    (erase same k es).length = if contains same k es then es.length - 1
    else es.length := by
  induction es with
  | nil => rfl
  | cons e es ih =>
      rw [erase, contains_cons]
      cases same e.1 k with
      | true => rfl
      | false =>
          rw [if_neg (by decide), List.length_cons, ih, Bool.false_or,
            List.length_cons]
          cases hc : contains same k es with
          | false => rfl
          | true =>
              -- A list that contains something is not empty.
              have : es ≠ [] := by rintro rfl; cases hc
              have := List.length_pos_iff.mpr this
              rw [if_pos rfl, if_pos rfl]
              omega

/-- Pairs whose keys are all different make a list of themselves. -/
theorem ofPairs_of_distinct {ps : List (K × V)} (h : Distinct same ps) :
    ofPairs same ps = ps := by
  suffices ∀ qs, Distinct same (qs ++ ps) →
      ps.foldl (fun es p => insert same p.1 p.2 es) qs = qs ++ ps from this [] h
  intro qs hd
  induction ps generalizing qs with
  | nil => rw [List.append_nil]; rfl
  | cons p ps ih =>
      have hnew : contains same p.1 qs = false := by
        rw [contains_eq_false_iff]
        intro e he
        exact (List.pairwise_append.mp hd).2.2 e he p List.mem_cons_self
      rw [List.foldl_cons, insert_of_not_contains hnew]
      have hassoc : qs ++ p :: ps = qs ++ [(p.1, p.2)] ++ ps := by
        rw [List.append_assoc, List.singleton_append]
      rw [hassoc] at hd ⊢
      exact ih (List.pairwise_cons.mp h).2 _ hd

end AssocList

namespace HashTrie

variable {K V : Type}

/-- On the keys that satisfy `P`, equality is symmetric and transitive, and
equal keys have equal hashes. A key need not be equal to itself. -/
structure LawfulOn [BEq K] [TrieHash K] (P : K → Prop) : Prop where
  symm : ∀ {a b : K}, P a → P b → (a == b) = true → (b == a) = true
  trans : ∀ {a b c : K}, P a → P b → P c → (a == b) = true → (b == c) = true →
    (a == c) = true
  hash_eq : ∀ {a b : K}, P a → P b → (a == b) = true → trieHash a = trieHash b

theorem distinct_insert [BEq K] [TrieHash K] {P : K → Prop} (law : LawfulOn P)
    {k : K} {v : V} (hk : P k) {es : List (K × V)} (hes : ∀ e ∈ es, P e.1)
    (h : AssocList.Distinct (· == ·) es) :
    AssocList.Distinct (· == ·) (AssocList.insert (· == ·) k v es) := by
  induction es with
  | nil => exact List.pairwise_singleton _ _
  | cons e es ih =>
      obtain ⟨hhead, htail⟩ := List.pairwise_cons.mp h
      have he := hes e List.mem_cons_self
      have hes' := fun x hx => hes x (List.mem_cons_of_mem e hx)
      rw [AssocList.insert]
      split
      · next heq =>
          -- The new key is equal to the one it replaces, so to no other.
          refine List.pairwise_cons.mpr ⟨fun x hx => ?_, htail⟩
          refine Bool.eq_false_iff.mpr fun hkx => ?_
          exact Bool.eq_false_iff.mp (hhead x hx)
            (law.trans he hk (hes' x hx) heq hkx)
      · next hne =>
          refine List.pairwise_cons.mpr ⟨fun x hx => ?_, ih hes' htail⟩
          rcases AssocList.mem_insert hx with rfl | hx
          · exact Bool.eq_false_iff.mpr hne
          · exact hhead x hx

/-- The entries whose keys have this hash. -/
def bucket [TrieHash K] (hash : UInt32) (es : List (K × V)) : List (K × V) :=
  es.filter fun e => trieHash e.1 == hash

section Buckets

variable [TrieHash K]

theorem bucket_nil (hash : UInt32) : bucket hash ([] : List (K × V)) = [] := rfl

theorem bucket_append (hash : UInt32) (xs ys : List (K × V)) :
    bucket hash (xs ++ ys) = bucket hash xs ++ bucket hash ys :=
  List.filter_append ..

theorem bucket_cons_of_eq {hash : UInt32} {e : K × V} (h : trieHash e.1 = hash)
    (es : List (K × V)) : bucket hash (e :: es) = e :: bucket hash es :=
  List.filter_cons_of_pos (beq_iff_eq.mpr h)

theorem bucket_cons_of_ne {hash : UInt32} {e : K × V} (h : trieHash e.1 ≠ hash)
    (es : List (K × V)) : bucket hash (e :: es) = bucket hash es :=
  List.filter_cons_of_neg (by rw [beq_iff_eq]; exact h)

theorem bucket_eq_nil {hash : UInt32} {es : List (K × V)}
    (h : ∀ e ∈ es, trieHash e.1 ≠ hash) : bucket hash es = [] :=
  List.filter_eq_nil_iff.mpr fun e he => by rw [beq_iff_eq]; exact h e he

theorem bucket_eq_self {hash : UInt32} {es : List (K × V)}
    (h : ∀ e ∈ es, trieHash e.1 = hash) : bucket hash es = es :=
  List.filter_eq_self.mpr fun e he => beq_iff_eq.mpr (h e he)

theorem bucket_eq_nil_of_ne {h hash : UInt32} {es : List (K × V)}
    (hes : ∀ e ∈ es, trieHash e.1 = h) (hne : hash ≠ h) : bucket hash es = [] :=
  bucket_eq_nil fun e he => by rw [hes e he]; exact hne.symm

/-- Two lists with the same entries in the same order, hash by hash. -/
def SameBuckets (xs ys : List (K × V)) : Prop :=
  ∀ hash, bucket hash xs = bucket hash ys

theorem SameBuckets.perm {xs ys : List (K × V)} (h : SameBuckets xs ys) :
    List.Perm xs ys := by
  classical
  refine List.perm_iff_count.mpr fun e => ?_
  let here (e' : K × V) : Bool := trieHash e'.1 == trieHash e.1
  have hself : here e = true := beq_self_eq_true _
  calc List.count e xs = List.count e (xs.filter here) :=
    (List.count_filter hself).symm
      _ = List.count e (ys.filter here) :=
        congrArg (List.count e) (h (trieHash e.1))
      _ = List.count e ys := List.count_filter hself

/-- Lists in the order of the hashes are equal if their buckets are: that order
leaves open only how entries of one hash are arranged. -/
theorem SameBuckets.eq_of_sorted {xs ys : List (K × V)} (h : SameBuckets xs ys)
    (hxs : xs.Pairwise fun a b => hashLE (trieHash a.1) (trieHash b.1) = true)
    (hys : ys.Pairwise fun a b => hashLE (trieHash a.1) (trieHash b.1) = true) :
    xs = ys := by
  induction xs generalizing ys with
  | nil => exact (h.perm.nil_eq)
  | cons x xs ih =>
      cases ys with
      | nil => exact h.perm.eq_nil
      | cons y ys =>
          obtain ⟨hx, hxs'⟩ := List.pairwise_cons.mp hxs
          obtain ⟨hy, hys'⟩ := List.pairwise_cons.mp hys
          -- Each head occurs in the other list, so neither hash comes before
          -- the other.
          have hxy : hashLE (trieHash x.1) (trieHash y.1) = true := by
            rcases List.mem_cons.mp
              (h.perm.mem_iff.mpr (List.mem_cons_self (a := y))) with rfl | hm
            · exact hashLE_refl _
            · exact hx y hm
          have hyx : hashLE (trieHash y.1) (trieHash x.1) = true := by
            rcases List.mem_cons.mp
              (h.perm.mem_iff.mp (List.mem_cons_self (a := x))) with rfl | hm
            · exact hashLE_refl _
            · exact hy x hm
          have heq := hashLE_antisymm hxy hyx
          have hhead := h (trieHash x.1)
          rw [bucket_cons_of_eq rfl, bucket_cons_of_eq heq.symm] at hhead
          obtain ⟨rfl, -⟩ := List.cons.inj hhead
          refine congrArg (x :: ·) (ih (fun hash => ?_) hxs' hys')
          by_cases hh : trieHash x.1 = hash
          · have := h hash
            rw [bucket_cons_of_eq hh, bucket_cons_of_eq hh] at this
            exact (List.cons.inj this).2
          · have := h hash
            rwa [bucket_cons_of_ne hh, bucket_cons_of_ne hh] at this

/-- `ys` is `xs` with the bucket of `key` changed by `f` and all other buckets
left as they are. -/
def Edits (key : K) (f : List (K × V) → List (K × V)) (xs ys : List (K × V)) :
    Prop :=
  ∀ hash, bucket hash ys = if hash = trieHash key then f (bucket hash xs)
  else bucket hash xs

/-- An edit stays an edit between other entries, none of which has the hash
of the key. -/
theorem Edits.between {key : K} {f : List (K × V) → List (K × V)}
    {xs ys : List (K × V)} (h : Edits key f xs ys) {before after : List (K × V)}
    (hb : ∀ e ∈ before, trieHash e.1 ≠ trieHash key)
    (ha : ∀ e ∈ after, trieHash e.1 ≠ trieHash key) :
    Edits key f (before ++ (xs ++ after)) (before ++ (ys ++ after)) := by
  intro hash
  have hh := h hash
  simp only [bucket_append]
  by_cases heq : hash = trieHash key
  · subst heq
    rw [if_pos rfl] at hh ⊢
    rw [bucket_eq_nil hb, bucket_eq_nil ha, hh, List.nil_append, List.append_nil,
      List.nil_append, List.append_nil]
  · rw [if_neg heq] at hh ⊢
    rw [hh]

/-- Two lists that come by one edit from lists with the same buckets have
the same buckets. -/
theorem SameBuckets.edits {key : K} {f : List (K × V) → List (K × V)}
    {xs ys xs' ys' : List (K × V)} (h : SameBuckets xs ys)
    (hx : Edits key f xs xs') (hy : Edits key f ys ys') :
    SameBuckets xs' ys' := by
  intro hash
  rw [hx hash, hy hash, h hash]

variable [BEq K]

/-- Looking a key up takes only the bucket of its hash. -/
theorem find?_bucket {key : K} {es : List (K × V)}
    (h : ∀ e ∈ es, (e.1 == key) = true → trieHash e.1 = trieHash key) :
    AssocList.find? (· == ·) key (bucket (trieHash key) es) =
      AssocList.find? (· == ·) key es := by
  induction es with
  | nil => rfl
  | cons e es ih =>
      have ih := ih fun x hx => h x (List.mem_cons_of_mem e hx)
      rw [AssocList.find?]
      by_cases hh : trieHash e.1 = trieHash key
      · rw [bucket_cons_of_eq hh, AssocList.find?, ih]
      · rw [bucket_cons_of_ne hh, ih, if_neg fun heq =>
          hh (h e List.mem_cons_self heq)]

theorem contains_bucket {key : K} {es : List (K × V)}
    (h : ∀ e ∈ es, (e.1 == key) = true → trieHash e.1 = trieHash key) :
    AssocList.contains (· == ·) key (bucket (trieHash key) es) =
      AssocList.contains (· == ·) key es := by
  rw [AssocList.contains_eq_isSome_find?, AssocList.contains_eq_isSome_find?,
    find?_bucket h]

/-- On an association list, setting a key edits its bucket. -/
theorem edits_insert {key : K} {value : V} {es : List (K × V)}
    (h : ∀ e ∈ es, (e.1 == key) = true → trieHash e.1 = trieHash key) :
    Edits key (AssocList.insert (· == ·) key value) es
      (AssocList.insert (· == ·) key value es) := by
  intro hash
  induction es with
  | nil =>
      rw [AssocList.insert, bucket_nil]
      split
      · next heq =>
          rw [bucket_cons_of_eq heq.symm, bucket_nil, AssocList.insert]
      · next hne => rw [bucket_cons_of_ne (Ne.symm hne), bucket_nil]
  | cons e es ih =>
      have ih := ih fun x hx => h x (List.mem_cons_of_mem e hx)
      have he := h e List.mem_cons_self
      rw [AssocList.insert]
      split
      · next heq =>
          split
          · next hh =>
              rw [bucket_cons_of_eq hh.symm,
                bucket_cons_of_eq ((he heq).trans hh.symm),
                AssocList.insert, if_pos heq]
          · next hh =>
              rw [bucket_cons_of_ne (Ne.symm hh),
                bucket_cons_of_ne (by rw [he heq]; exact Ne.symm hh)]
      · next hne =>
          by_cases hh : trieHash e.1 = hash
          · rw [bucket_cons_of_eq hh, bucket_cons_of_eq hh, ih]
            split
            · rw [AssocList.insert, if_neg hne]
            · rfl
          · rw [bucket_cons_of_ne hh, bucket_cons_of_ne hh, ih]

/-- On an association list, removing a key edits its bucket. -/
theorem edits_erase {key : K} {es : List (K × V)}
    (h : ∀ e ∈ es, (e.1 == key) = true → trieHash e.1 = trieHash key) :
    Edits key (AssocList.erase (· == ·) key) es
      (AssocList.erase (· == ·) key es) := by
  intro hash
  induction es with
  | nil => rw [AssocList.erase, bucket_nil, AssocList.erase, ite_self]
  | cons e es ih =>
      have ih := ih fun x hx => h x (List.mem_cons_of_mem e hx)
      have he := h e List.mem_cons_self
      rw [AssocList.erase]
      split
      · next heq =>
          split
          · next hh =>
              rw [bucket_cons_of_eq ((he heq).trans hh.symm), AssocList.erase,
                if_pos heq]
          · next hh => rw [bucket_cons_of_ne (by rw [he heq]; exact Ne.symm hh)]
      · next hne =>
          by_cases hh : trieHash e.1 = hash
          · rw [bucket_cons_of_eq hh, bucket_cons_of_eq hh, ih]
            split
            · rw [AssocList.erase, if_neg hne]
            · rfl
          · rw [bucket_cons_of_ne hh, bucket_cons_of_ne hh, ih]

end Buckets

end HashTrie

end TinyLisp
