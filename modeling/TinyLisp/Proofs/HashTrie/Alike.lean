import Mathlib.Data.List.Forall2
import TinyLisp.Proofs.HashTrie.Invariant

/-!
# Tries of the same shape

Two tries are alike if they have the same nodes in the same places, with the
same hashes, and what stands in one is related to what stands in its place in
the other: keys by `P`, values by `Q`.

Of a key the operations see its hash and which keys it is equal to. So if
related keys differ in neither, an operation goes the same way through two tries
that are alike, and leaves two tries that are alike. Nothing is asked of the
tries beyond this: they need not be well formed, and equality need obey no law.
-/

namespace TinyLisp

variable {K V : Type} {P : K → K → Prop} {Q : V → V → Prop}

/-! ## Association lists -/

namespace AssocList

/-- The keys of two entries are related, and so are the values. -/
inductive Paired (P : K → K → Prop) (Q : V → V → Prop) : K × V → K × V → Prop
  | mk {k k' : K} {v v' : V} (key : P k k') (value : Q v v') :
      Paired P Q (k, v) (k', v')

theorem Paired.key {e e' : K × V} (h : Paired P Q e e') : P e.1 e'.1 := by
  cases h with
  | mk key _ => exact key

theorem Paired.value {e e' : K × V} (h : Paired P Q e e') : Q e.2 e'.2 := by
  cases h with
  | mk _ value => exact value

/-- Whether two keys are the same can be asked of related keys instead. -/
def Respects (P : K → K → Prop) (same same' : K → K → Bool) : Prop :=
  ∀ ⦃a a' b b' : K⦄, P a a' → P b b' → same a b = same' a' b'

variable {same same' : K → K → Bool} {k k' : K} {v v' : V}
  {es es' : List (K × V)}

theorem Respects.find? (hsame : Respects P same same') (hk : P k k')
    (h : List.Forall₂ (Paired P Q) es es') :
    Option.Rel Q (AssocList.find? same k es) (AssocList.find? same' k' es') := by
  induction h with
  | nil => exact .none
  | cons he _ ih =>
      rw [AssocList.find?, AssocList.find?, hsame he.key hk]
      split
      · exact .some he.value
      · exact ih

theorem isSome_eq_of_rel {v? w? : Option V} (h : Option.Rel Q v? w?) :
    v?.isSome = w?.isSome := by
  cases h <;> rfl

theorem Respects.contains (hsame : Respects P same same') (hk : P k k')
    (h : List.Forall₂ (Paired P Q) es es') :
    AssocList.contains same k es = AssocList.contains same' k' es' := by
  rw [contains_eq_isSome_find?, contains_eq_isSome_find?]
  exact isSome_eq_of_rel (hsame.find? hk h)

theorem Respects.insert (hsame : Respects P same same') (hk : P k k')
    (hv : Q v v') (h : List.Forall₂ (Paired P Q) es es') :
    List.Forall₂ (Paired P Q) (AssocList.insert same k v es)
      (AssocList.insert same' k' v' es') := by
  induction h with
  | nil => exact .cons (.mk hk hv) .nil
  | cons he h ih =>
      rw [AssocList.insert, AssocList.insert, hsame he.key hk]
      split
      · exact .cons (.mk hk hv) h
      · exact .cons he ih

theorem Respects.erase (hsame : Respects P same same') (hk : P k k')
    (h : List.Forall₂ (Paired P Q) es es') :
    List.Forall₂ (Paired P Q) (AssocList.erase same k es)
      (AssocList.erase same' k' es') := by
  induction h with
  | nil => exact .nil
  | cons he h ih =>
      rw [AssocList.erase, AssocList.erase, hsame he.key hk]
      split
      · exact h
      · exact .cons he ih

theorem Respects.ofPairs (hsame : Respects P same same')
    (h : List.Forall₂ (Paired P Q) es es') :
    List.Forall₂ (Paired P Q) (AssocList.ofPairs same es)
      (AssocList.ofPairs same' es') := by
  suffices ∀ acc acc', List.Forall₂ (Paired P Q) acc acc' →
      List.Forall₂ (Paired P Q)
        (es.foldl (fun m e => AssocList.insert same e.1 e.2 m) acc)
        (es'.foldl (fun m e => AssocList.insert same' e.1 e.2 m) acc')
        from this _ _ .nil
  induction h with
  | nil => exact fun _ _ hacc => hacc
  | cons he _ ih =>
      exact fun acc acc' hacc => ih _ _ (hsame.insert he.key he.value hacc)

end AssocList

open AssocList (Paired)

namespace HashTrie

/-! ## Nodes -/

namespace Node

/-- The same node with related keys and values in it. -/
inductive Alike (P : K → K → Prop) (Q : V → V → Prop) :
    Node K V → Node K V → Prop
  | leaf {hash : UInt32} {k k' : K} {v v' : V} (key : P k k') (value : Q v v') :
      Alike P Q (.leaf hash k v) (.leaf hash k' v')
  | collision {hash : UInt32} {es es' : List (K × V)}
      (entries : List.Forall₂ (Paired P Q) es es') :
      Alike P Q (.collision hash es) (.collision hash es')
  | branch {bitmap : BitVec 32} {cs cs' : List (Node K V)}
      (children : List.Forall₂ (Alike P Q) cs cs') :
      Alike P Q (.branch bitmap cs) (.branch bitmap cs')

/-- The same kind of removal, with what is left alike. -/
inductive RemovalAlike (P : K → K → Prop) (Q : V → V → Prop) :
    Removal K V → Removal K V → Prop
  | absent : RemovalAlike P Q .absent .absent
  | emptied : RemovalAlike P Q .emptied .emptied
  | left {n n' : Node K V} (h : Alike P Q n n') :
      RemovalAlike P Q (.left n) (.left n')

/-- Removals, with the children that stand where they were made. -/
structure RemovalsAlike (P : K → K → Prop) (Q : V → V → Prop)
    (r r' : Removal K V × List (Node K V)) : Prop where
  removal : RemovalAlike P Q r.1 r'.1
  children : List.Forall₂ (Alike P Q) r.2 r'.2

variable {n n' : Node K V} {cs cs' : List (Node K V)}

theorem Alike.fork {a a' b b' : Node K V} (ha : Alike P Q a a')
    (hb : Alike P Q b b') (hashA hashB : UInt32) (depth level : Nat) :
    Alike P Q (fork a hashA b hashB depth level)
      (fork a' hashA b' hashB depth level) := by
  induction depth generalizing level with
  | zero => exact .branch .nil
  | succ depth ih =>
      simp only [Node.fork]
      split
      · exact .branch (.cons (ih (level + 1)) .nil)
      · refine .branch ?_
        split
        · exact .cons ha (.cons hb .nil)
        · exact .cons hb (.cons ha .nil)

theorem forall₂_insertIdx {a a' : Node K V} (ha : Alike P Q a a')
    (h : List.Forall₂ (Alike P Q) cs cs') (i : Nat) :
    List.Forall₂ (Alike P Q) (cs.insertIdx i a) (cs'.insertIdx i a') := by
  induction h generalizing i with
  | nil => cases i with
    | zero => exact .cons ha .nil
    | succ i => exact .nil
  | cons hc h ih => cases i with
    | zero => exact .cons ha (.cons hc h)
    | succ i => exact .cons hc (ih i)

theorem Alike.entries (h : Alike P Q n n') :
    List.Forall₂ (Paired P Q) n.entries n'.entries := by
  induction n using Node.induct generalizing n' with
  | leaf hash k v => cases h with
    | leaf hk hv => exact .cons (.mk hk hv) .nil
  | collision hash es => cases h with
    | collision hes => exact hes
  | branch bitmap cs ih => cases h with
    | branch hcs =>
        rw [Node.entries, Node.entries]
        induction hcs with
        | nil => exact .nil
        | cons hc _ ihcs =>
            rw [entriesAll, entriesAll]
            refine List.rel_append (ih _ List.mem_cons_self hc) ?_
            exact ihcs fun c hc => ih c (List.mem_cons_of_mem _ hc)

theorem eraseAt_alike [BEq K] (hash : UInt32) {key key' : K} (level : Nat)
    (ih : ∀ c ∈ cs, ∀ c', Alike P Q c c' →
      RemovalAlike P Q (erase hash key c level) (erase hash key' c' level))
    (h : List.Forall₂ (Alike P Q) cs cs') (i : Nat) :
    RemovalsAlike P Q (eraseAt hash key cs i level)
      (eraseAt hash key' cs' i level) := by
  induction h generalizing i with
  | nil => exact ⟨.absent, .nil⟩
  | cons hc hcs ihcs =>
      cases i with
      | zero =>
          have hr := ih _ List.mem_cons_self _ hc
          simp only [eraseAt]
          generalize erase hash key _ level = r at hr
          generalize erase hash key' _ level = r' at hr
          cases hr with
          | absent => exact ⟨.absent, .cons hc hcs⟩
          | emptied => exact ⟨.emptied, hcs⟩
          | left hrest => exact ⟨.left hrest, .cons hrest hcs⟩
      | succ i =>
          obtain ⟨hr, hrest⟩ :=
            ihcs (fun c hc => ih c (List.mem_cons_of_mem _ hc)) i
          exact ⟨hr, .cons hc hrest⟩

section

variable [BEq K] (hash : UInt32) {key key' : K} {value value' : V}
  (hsame : AssocList.Respects P (· == ·) (· == ·)) (hkey : P key key')
include hsame hkey

theorem Alike.get? (h : Alike P Q n n') (level : Nat) :
    Option.Rel Q (get? hash key n level) (get? hash key' n' level) := by
  induction n using Node.induct generalizing n' level with
  | leaf hash' k v => cases h with
    | @leaf _ _ k' _ v' hk hv =>
        have hsame' : (k == key) = (k' == key') := hsame hk hkey
        rw [Node.get?, Node.get?, hsame']
        split
        · exact .some hv
        · exact .none
  | collision hash' es => cases h with
    | collision hes =>
        rw [Node.get?, Node.get?]
        split
        · exact hsame.find? hkey hes
        · exact .none
  | branch bitmap cs ih => cases h with
    | branch hcs =>
        simp only [Node.get?]
        split
        · generalize rank bitmap (slot hash level) = i
          induction hcs generalizing i with
          | nil => exact .none
          | cons hc _ ihcs => cases i with
            | zero => exact ih _ List.mem_cons_self hc _
            | succ i =>
                exact ihcs (fun c hc => ih c (List.mem_cons_of_mem _ hc)) i
        · exact .none

theorem Alike.insert (hvalue : Q value value') (h : Alike P Q n n')
    (level : Nat) :
    Alike P Q (insert hash key value n level).1
      (insert hash key' value' n' level).1 ∧
      (insert hash key value n level).2 =
        (insert hash key' value' n' level).2 := by
  have hleaf : Alike P Q (.leaf hash key value) (.leaf hash key' value') :=
    .leaf hkey hvalue
  induction n using Node.induct generalizing n' level with
  | leaf hash' k v => cases h with
    | leaf hk hv =>
        simp only [Node.insert, hsame hk hkey]
        split
        · exact ⟨(Alike.leaf hk hv).fork hleaf _ _ _ _, rfl⟩
        · split
          · exact ⟨hleaf, rfl⟩
          · exact ⟨.collision (.cons (.mk hk hv)
              (.cons (.mk hkey hvalue) .nil)), rfl⟩
  | collision hash' es => cases h with
    | collision hes =>
        simp only [Node.insert]
        split
        · exact ⟨(Alike.collision hes).fork hleaf _ _ _ _, rfl⟩
        · exact ⟨.collision (hsame.insert hkey hvalue hes),
            congrArg (!·) (hsame.contains hkey hes)⟩
  | branch bitmap cs ih => cases h with
    | @branch _ _ cs' hcs =>
        simp only [Node.insert]
        split
        · suffices ∀ i, List.Forall₂ (Alike P Q)
              (insertAt hash key value cs i (level + 1)).1
              (insertAt hash key' value' cs' i (level + 1)).1 ∧
              (insertAt hash key value cs i (level + 1)).2 =
                (insertAt hash key' value' cs' i (level + 1)).2 from
            ⟨.branch (this _).1, (this _).2⟩
          induction hcs with
          | nil => exact fun i => ⟨.nil, rfl⟩
          | cons hc hcs ihcs =>
              rintro (_ | i)
              · obtain ⟨hins, hnew⟩ := ih _ List.mem_cons_self hc (level + 1)
                exact ⟨.cons hins hcs, hnew⟩
              · obtain ⟨hins, hnew⟩ :=
                  ihcs (fun c hc => ih c (List.mem_cons_of_mem _ hc)) i
                exact ⟨.cons hc hins, hnew⟩
        · exact ⟨.branch (forall₂_insertIdx hleaf hcs _), rfl⟩

theorem Alike.erase (h : Alike P Q n n') (level : Nat) :
    RemovalAlike P Q (erase hash key n level) (erase hash key' n' level) := by
  induction n using Node.induct generalizing n' level with
  | leaf hash' k v => cases h with
    | @leaf _ _ k' _ v' hk hv =>
        have hsame' : (k == key) = (k' == key') := hsame hk hkey
        rw [Node.erase, Node.erase, hsame']
        split
        · exact .emptied
        · exact .absent
  | collision hash' es => cases h with
    | collision hes =>
        rw [Node.erase, Node.erase, hsame.contains hkey hes]
        split
        · have hrest := hsame.erase hkey hes
          generalize AssocList.erase _ key es = rest at hrest
          generalize AssocList.erase _ key' _ = rest' at hrest
          cases hrest with
          | nil => exact .emptied
          | cons he hrest => cases he with
            | mk hk hv => cases hrest with
              | nil => exact .left (.leaf hk hv)
              | cons he' hrest =>
                  exact .left (.collision (.cons (.mk hk hv) (.cons he' hrest)))
        · exact .absent
  | branch bitmap cs ih => cases h with
    | branch hcs =>
        simp only [Node.erase]
        split
        · have hrest := eraseAt_alike hash (level + 1)
            (fun c hc c' hcc => ih c hc hcc (level + 1)) hcs
            (rank bitmap (slot hash level))
          generalize eraseAt hash key cs _ _ = r at hrest
          generalize eraseAt hash key' _ _ _ = r' at hrest
          obtain ⟨r, rest⟩ := r
          obtain ⟨r', rest'⟩ := r'
          obtain ⟨hr, hrest⟩ := hrest
          cases hr with
          | absent => exact .absent
          | emptied => cases hrest with
            | nil => exact .emptied
            | cons hc hrest => exact .left (.branch (.cons hc hrest))
          | left _ => exact .left (.branch hrest)
        · exact .absent

end

end Node

/-! ## Tries -/

/-- The same trie with related keys and values in it. -/
inductive Alike (P : K → K → Prop) (Q : V → V → Prop) :
    HashTrie K V → HashTrie K V → Prop
  | mk {root root' : Option (Node K V)} {size : Nat}
      (root_alike : Option.Rel (Node.Alike P Q) root root') :
      Alike P Q ⟨root, size⟩ ⟨root', size⟩

variable {m m' : HashTrie K V}

theorem alike_empty : Alike P Q (empty : HashTrie K V) empty := .mk .none

theorem Alike.size (h : Alike P Q m m') : m.size = m'.size := by
  cases h with
  | mk _ => rfl

theorem Alike.entries (h : Alike P Q m m') :
    List.Forall₂ (Paired P Q) m.entries m'.entries := by
  cases h with
  | mk hroot => cases hroot with
    | none => exact .nil
    | some hn => exact hn.entries

theorem Alike.keys (h : Alike P Q m m') : List.Forall₂ P m.keys m'.keys := by
  refine List.forall₂_map_left_iff.mpr (List.forall₂_map_right_iff.mpr ?_)
  exact h.entries.imp fun _ _ he => he.key

theorem Alike.values (h : Alike P Q m m') :
    List.Forall₂ Q m.values m'.values := by
  refine List.forall₂_map_left_iff.mpr (List.forall₂_map_right_iff.mpr ?_)
  exact h.entries.imp fun _ _ he => he.value

/-- Related keys have the same hash and are equal to the same keys. -/
structure KeysAlike [BEq K] [TrieHash K] (P : K → K → Prop) : Prop where
  hash : ∀ {k k' : K}, P k k' → trieHash k = trieHash k'
  same : AssocList.Respects P (· == ·) (· == ·)

variable [BEq K] [TrieHash K] (law : KeysAlike P) {k k' : K} {v v' : V}
include law

theorem Alike.get? (hk : P k k') (h : Alike P Q m m') :
    Option.Rel Q (m.get? k) (m'.get? k') := by
  cases h with
  | mk hroot => cases hroot with
    | none => exact .none
    | some hn =>
        simp only [HashTrie.get?, law.hash hk]
        exact hn.get? _ law.same hk 0

theorem Alike.insert (hk : P k k') (hv : Q v v') (h : Alike P Q m m') :
    Alike P Q (m.insert k v) (m'.insert k' v') := by
  cases h with
  | mk hroot => cases hroot with
    | none =>
        simp only [HashTrie.insert, law.hash hk]
        exact .mk (.some (.leaf hk hv))
    | some hn =>
        simp only [HashTrie.insert, law.hash hk]
        obtain ⟨hins, hnew⟩ := hn.insert (trieHash k') law.same hk hv 0
        rw [hnew]
        exact .mk (.some hins)

theorem Alike.erase (hk : P k k') (h : Alike P Q m m') :
    Alike P Q (m.erase k) (m'.erase k') := by
  cases h with
  | @mk root root' size hroot => cases hroot with
    | none => exact .mk .none
    | @some n n' hn =>
        have hr := hn.erase (trieHash k') law.same hk 0
        simp only [HashTrie.erase, HashTrie.erase?, law.hash hk]
        generalize Node.erase (trieHash k') k n 0 = r at hr
        generalize Node.erase (trieHash k') k' n' 0 = r' at hr
        cases hr with
        | absent => exact .mk (.some hn)
        | emptied => exact .mk .none
        | left hrest => exact .mk (.some hrest)

theorem Alike.ofList {es es' : List (K × V)}
    (h : List.Forall₂ (Paired P Q) es es') :
    Alike P Q (ofList es) (ofList es') := by
  suffices ∀ m m', Alike P Q m m' →
      Alike P Q (es.foldl (fun m e => m.insert e.1 e.2) m)
        (es'.foldl (fun m e => m.insert e.1 e.2) m') from this _ _ alike_empty
  induction h with
  | nil => exact fun _ _ hm => hm
  | cons he _ ih => exact fun m m' hm => ih _ _ (hm.insert law he.key he.value)

end HashTrie

end TinyLisp
