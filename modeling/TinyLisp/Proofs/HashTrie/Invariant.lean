import TinyLisp.Proofs.HashTrie.Buckets

/-!
# The invariant of tries

Insertion and removal index, fork and go down without a check, and all of it is
right because of where nodes stand. A node stands at the end of a way, the list
of the slots from the root to it. `WellFormed way` says what holds of a node
there: the hash in a leaf or a collision is that of its keys and follows the
way, a collision has at least two entries, and a branch has one child for each
used slot, standing one slot further along.

Each operation gets one specification, proved by one induction over the
invariant: what it does to the buckets of the entries, what it answers, and
that it keeps the invariant. The induction is the same every time. At a
branch the slot of the key cuts the children in two; neither part has an
entry with the hash of the key, so whatever happens to the child at the cut
happens to the whole.
-/

namespace TinyLisp.HashTrie.Node

variable {K V : Type}

/-- Induction over nodes. A branch may assume the statement of its children. -/
theorem induct {motive : Node K V → Prop} (leaf : ∀ h k v, motive (.leaf h k v))
    (collision : ∀ h es, motive (.collision h es))
    (branch : ∀ b cs, (∀ c ∈ cs, motive c) → motive (.branch b cs)) :
    ∀ n : Node K V, motive n
  | .leaf h k v => leaf h k v
  | .collision h es => collision h es
  | .branch b cs => branch b cs fun c _ => induct leaf collision branch c

/-! ## Children by index -/

theorem entriesAll_append (l r : List (Node K V)) :
    entriesAll (l ++ r) = entriesAll l ++ entriesAll r := by
  induction l with
  | nil => rfl
  | cons c l ih =>
      rw [List.cons_append, entriesAll, ih, entriesAll, List.append_assoc]

theorem mem_entriesAll {e : K × V} {cs : List (Node K V)} :
    e ∈ entriesAll cs ↔ ∃ c ∈ cs, e ∈ c.entries := by
  induction cs with
  | nil => simp [entriesAll]
  | cons c cs ih => simp [entriesAll, ih]

theorem insertIdx_length (l r : List (Node K V)) (c : Node K V) :
    (l ++ r).insertIdx l.length c = l ++ c :: r := by
  induction l with
  | nil => rfl
  | cons x l ih =>
      rw [List.cons_append, List.length_cons, List.insertIdx_succ_cons, ih,
        List.cons_append]

theorem insertAt_append [BEq K] (hash : UInt32) (key : K) (value : V)
    (l : List (Node K V)) (c : Node K V) (r : List (Node K V)) (level : Nat) :
    insertAt hash key value (l ++ c :: r) l.length level =
      (l ++ (insert hash key value c level).1 :: r,
        (insert hash key value c level).2) := by
  induction l with
  | nil => rfl
  | cons x l ih =>
      rw [List.cons_append, List.length_cons, insertAt, ih, List.cons_append]

theorem getAt?_append [BEq K] (hash : UInt32) (key : K) (l : List (Node K V))
    (c : Node K V) (r : List (Node K V)) (level : Nat) :
    getAt? hash key (l ++ c :: r) l.length level = get? hash key c level := by
  induction l with
  | nil => rfl
  | cons x l ih => rw [List.cons_append, List.length_cons, getAt?, ih]

/-- The children when the one between `l` and `r` is left as `x`. -/
def regrown (l : List (Node K V)) (c : Node K V) (r : List (Node K V)) :
    Removal K V → List (Node K V)
  | .absent => l ++ c :: r
  | .emptied => l ++ r
  | .left c' => l ++ c' :: r

theorem eraseAt_append [BEq K] (hash : UInt32) (key : K) (l : List (Node K V))
    (c : Node K V) (r : List (Node K V)) (level : Nat) :
    eraseAt hash key (l ++ c :: r) l.length level =
      (erase hash key c level, regrown l c r (erase hash key c level)) := by
  induction l with
  | nil =>
      rw [List.nil_append, List.length_nil, eraseAt]
      cases erase hash key c level <;> rfl
  | cons x l ih =>
      rw [List.cons_append, List.length_cons, eraseAt, ih]
      cases erase hash key c level <;> rfl

theorem exists_mem_zip {slots : List Nat} {cs : List (Node K V)}
    (hlen : slots.length = cs.length) {c : Node K V} (hc : c ∈ cs) :
    ∃ s, (s, c) ∈ slots.zip cs := by
  rw [← List.map_snd_zip (Nat.le_of_eq hlen.symm)] at hc
  obtain ⟨p, hp, rfl⟩ := List.mem_map.mp hc
  exact ⟨p.1, hp⟩

/-! ## The invariant -/

variable [TrieHash K]

/-- A leaf or a collision whose keys all have this hash. -/
inductive Terminal : UInt32 → Node K V → Prop where
  | leaf {h : UInt32} {k : K} {v : V} :
      trieHash k = h → Terminal h (.leaf h k v)
  | collision {h : UInt32} {es : List (K × V)} :
      2 ≤ es.length → (∀ e ∈ es, trieHash e.1 = h) →
        Terminal h (.collision h es)

/-- What holds of a node at the end of a way. -/
inductive WellFormed : List Nat → Node K V → Prop where
  | terminal {way : List Nat} {h : UInt32} {n : Node K V} :
      Terminal h n → Follows h way → WellFormed way n
  | branch {way : List Nat} {b : BitVec 32} {cs : List (Node K V)} :
      way.length < levels → cs ≠ [] → (usedSlots b).length = cs.length →
      (∀ p ∈ (usedSlots b).zip cs, WellFormed (way ++ [p.1]) p.2) →
      WellFormed way (.branch b cs)

/-- Children of a branch at the end of a way, and the slots they stand in. -/
def Rows (way : List Nat) (slots : List Nat) (cs : List (Node K V)) : Prop :=
  slots.length = cs.length ∧ ∀ p ∈ slots.zip cs, WellFormed (way ++ [p.1]) p.2

theorem Rows.append {way ss ts : List Nat} {l r : List (Node K V)}
    (hl : Rows way ss l) (hr : Rows way ts r) :
    Rows way (ss ++ ts) (l ++ r) := by
  refine ⟨by rw [List.length_append, List.length_append, hl.1, hr.1], ?_⟩
  rw [List.zip_append hl.1]
  intro p hp
  rcases List.mem_append.mp hp with hp | hp
  · exact hl.2 p hp
  · exact hr.2 p hp

theorem Rows.split {way ss ts : List Nat} {cs : List (Node K V)}
    (h : Rows way (ss ++ ts) cs) :
    ∃ l r, cs = l ++ r ∧ Rows way ss l ∧ Rows way ts r := by
  obtain ⟨hlen, hall⟩ := h
  rw [List.length_append] at hlen
  have hl : ss.length = (cs.take ss.length).length := by
    rw [List.length_take]; omega
  have hr : ts.length = (cs.drop ss.length).length := by
    rw [List.length_drop]; omega
  have hcs : cs.take ss.length ++ cs.drop ss.length = cs :=
    List.take_append_drop ..
  rw [← hcs, List.zip_append hl] at hall
  exact ⟨_, _, hcs.symm, ⟨hl, fun p hp => hall p (List.mem_append_left _ hp)⟩,
    ⟨hr, fun p hp => hall p (List.mem_append_right _ hp)⟩⟩

theorem Rows.cons {way ts : List Nat} {s : Nat} {c : Node K V}
    {r : List (Node K V)} (hc : WellFormed (way ++ [s]) c)
    (hr : Rows way ts r) : Rows way (s :: ts) (c :: r) := by
  refine ⟨congrArg (· + 1) hr.1, fun p hp => ?_⟩
  rcases List.mem_cons.mp hp with rfl | hp
  · exact hc
  · exact hr.2 p hp

theorem Rows.nil (way : List Nat) : Rows way [] ([] : List (Node K V)) :=
  ⟨rfl, fun _ hp => nomatch hp⟩

theorem Rows.uncons {way ts : List Nat} {s : Nat} {cs : List (Node K V)}
    (h : Rows way (s :: ts) cs) :
    ∃ c r, cs = c :: r ∧ WellFormed (way ++ [s]) c ∧ Rows way ts r := by
  cases cs with
  | nil => cases h.1
  | cons c r =>
      exact ⟨c, r, rfl, h.2 (s, c) List.mem_cons_self,
        Nat.succ.inj h.1, fun p hp => h.2 p (List.mem_cons_of_mem _ hp)⟩

theorem Terminal.hash_eq {h : UInt32} {n : Node K V} (ht : Terminal h n) :
    ∀ e ∈ n.entries, trieHash e.1 = h := by
  cases ht with
  | leaf hk => intro e he; rw [List.mem_singleton.mp he]; exact hk
  | collision _ hes => exact hes

/-- The hashes of all keys below the end of a way follow it. -/
theorem WellFormed.follows {way : List Nat} {n : Node K V}
    (h : WellFormed way n) : ∀ e ∈ n.entries, Follows (trieHash e.1) way := by
  induction h with
  | terminal ht hw => intro e he; rw [ht.hash_eq e he]; exact hw
  | branch _ _ hlen _ ih =>
      intro e he
      obtain ⟨c, hc, he⟩ := mem_entriesAll.mp he
      obtain ⟨s, hs⟩ := exists_mem_zip hlen hc
      exact (follows_snoc.mp (ih (s, c) hs e he)).1

theorem Rows.follows {way slots : List Nat} {cs : List (Node K V)}
    (h : Rows way slots cs) :
    ∀ e ∈ entriesAll cs, ∃ s ∈ slots, Follows (trieHash e.1) (way ++ [s]) := by
  intro e he
  obtain ⟨c, hc, he⟩ := mem_entriesAll.mp he
  obtain ⟨s, hs⟩ := exists_mem_zip h.1 hc
  exact ⟨s, (List.of_mem_zip hs).1, (h.2 (s, c) hs).follows e he⟩

/-- An entry in another slot than that of a hash has another hash. -/
theorem Rows.hash_ne {way slots : List Nat} {cs : List (Node K V)}
    (h : Rows way slots cs) {hash : UInt32}
    (hs : slot hash way.length ∉ slots) :
    ∀ e ∈ entriesAll cs, trieHash e.1 ≠ hash := by
  rintro e he rfl
  obtain ⟨s, hmem, hf⟩ := h.follows e he
  rw [(follows_snoc.mp hf).2] at hs
  exact hs hmem

/-- A branch with the slot of a hash in use: the child there, and the children
on either side. -/
theorem WellFormed.used {way : List Nat} {b : BitVec 32} {cs : List (Node K V)}
    (h : WellFormed way (.branch b cs)) {s : Nat} (hs : s < 32)
    (hb : b.getLsbD s = true) :
    ∃ l c r, cs = l ++ c :: r ∧ l.length = rank b s ∧
      Rows way (slotsBelow b s) l ∧
      WellFormed (way ++ [s]) c ∧ Rows way (slotsAbove b s) r := by
  cases h with
  | terminal ht _ => cases ht
  | branch _ _ hlen hall =>
      have hrows : Rows way (slotsBelow b s ++ s :: slotsAbove b s) cs := by
        rw [← usedSlots_of_used hs hb]
        exact ⟨hlen, hall⟩
      obtain ⟨l, r, rfl, hl, hr⟩ := hrows.split
      obtain ⟨c, r, rfl, hc, hr⟩ := hr.uncons
      exact ⟨l, c, r, rfl, by rw [← hl.1, length_slotsBelow], hl, hc, hr⟩

/-- A branch with the slot of a hash not in use: the children on either side. -/
theorem WellFormed.unused {way : List Nat} {b : BitVec 32}
    {cs : List (Node K V)} (h : WellFormed way (.branch b cs)) {s : Nat}
    (hs : s < 32) (hb : b.getLsbD s = false) :
    ∃ l r, cs = l ++ r ∧ l.length = rank b s ∧ Rows way (slotsBelow b s) l ∧
      Rows way (slotsAbove b s) r := by
  cases h with
  | terminal ht _ => cases ht
  | branch _ _ hlen hall =>
      have hrows : Rows way (slotsBelow b s ++ slotsAbove b s) cs := by
        rw [← usedSlots_of_unused hs hb]
        exact ⟨hlen, hall⟩
      obtain ⟨l, r, rfl, hl, hr⟩ := hrows.split
      exact ⟨l, r, rfl, by rw [← hl.1, length_slotsBelow], hl, hr⟩

theorem WellFormed.way_lt {way : List Nat} {b : BitVec 32}
    {cs : List (Node K V)} (h : WellFormed way (.branch b cs)) :
    way.length < levels := by
  cases h with
  | terminal ht _ => cases ht
  | branch hway _ _ _ => exact hway

theorem WellFormed.length_usedSlots {way : List Nat} {b : BitVec 32}
    {cs : List (Node K V)} (h : WellFormed way (.branch b cs)) :
    (usedSlots b).length = cs.length := by
  cases h with
  | terminal ht _ => cases ht
  | branch _ _ hlen _ => exact hlen

theorem Rows.branch {way : List Nat} {b : BitVec 32} {cs : List (Node K V)}
    (hway : way.length < levels) (hne : cs ≠ [])
    (h : Rows way (usedSlots b) cs) : WellFormed way (.branch b cs) :=
  .branch hway hne h.1 h.2

theorem Rows.below_hash_ne {way : List Nat} {b : BitVec 32} {hash : UInt32}
    {l : List (Node K V)}
    (h : Rows way (slotsBelow b (slot hash way.length)) l) :
    ∀ e ∈ entriesAll l, trieHash e.1 ≠ hash :=
  h.hash_ne fun hmem => Nat.lt_irrefl _ (lt_of_mem_slotsBelow hmem)

theorem Rows.above_hash_ne {way : List Nat} {b : BitVec 32} {hash : UInt32}
    {r : List (Node K V)}
    (h : Rows way (slotsAbove b (slot hash way.length)) r) :
    ∀ e ∈ entriesAll r, trieHash e.1 ≠ hash :=
  h.hash_ne fun hmem => Nat.lt_irrefl _ (lt_of_mem_slotsAbove hmem)

/-- Only the child in the slot of a hash has entries with that hash. -/
theorem bucket_branch {way : List Nat} {b : BitVec 32} {hash : UInt32}
    {l : List (Node K V)} {c : Node K V} {r : List (Node K V)}
    (hl : Rows way (slotsBelow b (slot hash way.length)) l)
    (hr : Rows way (slotsAbove b (slot hash way.length)) r) :
    bucket hash (entriesAll (l ++ c :: r)) = bucket hash c.entries := by
  rw [entriesAll_append, entriesAll, bucket_append, bucket_append,
    bucket_eq_nil hl.below_hash_ne, bucket_eq_nil hr.above_hash_ne,
    List.nil_append, List.append_nil]

theorem WellFormed.leaf_inv {way : List Nat} {h : UInt32} {k : K} {v : V}
    (hn : WellFormed way (.leaf h k v)) : trieHash k = h ∧ Follows h way := by
  cases hn with
  | terminal ht hw => cases ht with
    | leaf hk => exact ⟨hk, hw⟩

theorem WellFormed.collision_inv {way : List Nat} {h : UInt32}
    {es : List (K × V)} (hn : WellFormed way (.collision h es)) :
    2 ≤ es.length ∧ (∀ e ∈ es, trieHash e.1 = h) ∧ Follows h way := by
  cases hn with
  | terminal ht hw => cases ht with
    | collision hlen hes => exact ⟨hlen, hes, hw⟩

/-! ## Looking up -/

variable [BEq K]

/-- Looking a key up in a node is looking it up in the bucket of its hash. -/
theorem get?_eq {way : List Nat} {n : Node K V} (h : WellFormed way n)
    (key : K) :
    get? (trieHash key) key n way.length =
      AssocList.find? (· == ·) key (bucket (trieHash key) n.entries) := by
  induction n using Node.induct generalizing way with
  | leaf hash k v =>
      obtain ⟨rfl, _⟩ := h.leaf_inv
      rw [get?, entries]
      by_cases hh : trieHash k = trieHash key
      · rw [bucket_cons_of_eq hh, AssocList.find?, bucket_nil, AssocList.find?,
          beq_iff_eq.mpr hh, Bool.true_and]
      · rw [bucket_cons_of_ne hh, beq_false_of_ne hh, Bool.false_and]
        rfl
  | collision hash es =>
      obtain ⟨_, hes, _⟩ := h.collision_inv
      rw [get?, entries]
      by_cases hh : hash = trieHash key
      · subst hh
        rw [if_pos (beq_self_eq_true _), bucket_eq_self hes]
      · rw [if_neg (by rw [beq_iff_eq]; exact hh),
          bucket_eq_nil_of_ne hes (Ne.symm hh)]
        rfl
  | branch b cs ih =>
      have hs := slot_lt (trieHash key) way.length
      rw [get?, entries]
      cases hb : b.getLsbD (slot (trieHash key) way.length) with
      | true =>
          obtain ⟨l, c, r, rfl, hlen, hl, hc, hr⟩ := h.used hs hb
          have ih := ih c (by simp) hc
          rw [List.length_append, List.length_singleton] at ih
          rw [if_pos rfl, ← hlen, getAt?_append, ih, bucket_branch hl hr]
      | false =>
          obtain ⟨l, r, rfl, _, hl, hr⟩ := h.unused hs hb
          rw [if_neg (by decide), entriesAll_append, bucket_append,
            bucket_eq_nil hl.below_hash_ne, bucket_eq_nil hr.above_hash_ne]
          rfl

/-! ## Forking -/

omit [BEq K] in
/-- Two hashes that follow a way and differ part within the seven levels. -/
theorem way_lt_of_ne {way : List Nat} {h h' : UInt32} (hf : Follows h way)
    (hf' : Follows h' way) (hne : h ≠ h') : way.length < levels := by
  refine Nat.lt_of_not_le fun hlen => hne (eq_of_digits_eq ?_)
  exact digits_eq_of_le (hf.trans hf'.symm) hlen

omit [BEq K] in
/-- A fork of two nodes that part below a way stands there, and lists the
entries of one node and then those of the other. -/
theorem fork_spec {a b : Node K V} {ha hb : UInt32} (ta : Terminal ha a)
    (tb : Terminal hb b) (hne : ha ≠ hb) {depth : Nat} {way : List Nat}
    (fa : Follows ha way) (fb : Follows hb way)
    (hdepth : depth + way.length = levels) :
    WellFormed way (fork a ha b hb depth way.length) ∧
      ((fork a ha b hb depth way.length).entries = a.entries ++ b.entries ∨
        (fork a ha b hb depth way.length).entries = b.entries ++ a.entries) := by
  induction depth generalizing way with
  | zero => exact absurd (way_lt_of_ne fa fb hne) (by omega)
  | succ depth ih =>
      have hsa := slot_lt ha way.length
      have hsb := slot_lt hb way.length
      have ga := follows_snoc.mpr ⟨fa, rfl⟩
      have gb := follows_snoc.mpr ⟨fb, rfl⟩
      rw [fork]
      split
      · next heq =>
          rw [← heq] at gb
          have hlen : (way ++ [slot ha way.length]).length =
              way.length + 1 := by simp
          obtain ⟨hwf, hentries⟩ := ih ga gb (by omega)
          rw [hlen] at hwf hentries
          refine ⟨Rows.branch (by omega) (List.cons_ne_nil _ _) ?_, ?_⟩
          · rw [usedSlots_twoPow hsa]
            exact .cons hwf (.nil way)
          · simpa only [entries, entriesAll, List.append_nil] using hentries
      · next hslot =>
          split
          · next hlt =>
              refine ⟨Rows.branch (by omega) (List.cons_ne_nil _ _) ?_, .inl ?_⟩
              · rw [usedSlots_pair hsa hsb hslot, if_pos hlt]
                exact .cons (.terminal ta ga)
                  (.cons (.terminal tb gb) (.nil way))
              · simp only [entries, entriesAll, List.append_nil]
          · next hlt =>
              refine ⟨Rows.branch (by omega) (List.cons_ne_nil _ _) ?_, .inr ?_⟩
              · rw [usedSlots_pair hsa hsb hslot, if_neg hlt]
                exact .cons (.terminal tb gb)
                  (.cons (.terminal ta ga) (.nil way))
              · simp only [entries, entriesAll, List.append_nil]

/-! ## Insertion -/

/-- What an insertion at the end of a way has to give: a node that stands
there, whose entries have the bucket of the key changed, and whether there is
one entry more. -/
structure Inserted (way : List Nat) (key : K) (value : V) (n : Node K V)
    (r : Node K V × Bool) : Prop where
  wellFormed : WellFormed way r.1
  edits : Edits key (AssocList.insert (· == ·) key value) n.entries r.1.entries
  gained : r.2 =
    !AssocList.contains (· == ·) key (bucket (trieHash key) n.entries)
  length : r.1.entries.length = n.entries.length + r.2.toNat

/-- Insertion where a node with another hash stands. -/
theorem inserted_fork {way : List Nat} {h : UInt32} {n : Node K V}
    (ht : Terminal h n) (hf : Follows h way) {key : K}
    (hkey : Follows (trieHash key) way) (hne : h ≠ trieHash key) (value : V) :
    Inserted way key value n
      (fork n h (.leaf (trieHash key) key value) (trieHash key)
        (levels - way.length) way.length,
        true) := by
  have hway := way_lt_of_ne hf hkey hne
  obtain ⟨hwf, hentries⟩ := fork_spec ht (.leaf (v := value) rfl) hne hf hkey
    (Nat.sub_add_cancel (Nat.le_of_lt hway))
  have hother : ∀ e ∈ n.entries, trieHash e.1 ≠ trieHash key :=
    fun e he => by rw [ht.hash_eq e he]; exact hne
  refine ⟨hwf, fun hash => ?_, ?_, ?_⟩
  · have hbucket :
        bucket hash (fork n h (.leaf (trieHash key) key value) (trieHash key)
        (levels - way.length) way.length).entries =
          bucket hash n.entries ++ bucket hash [(key, value)] := by
      rcases hentries with hentries | hentries
      · rw [hentries, bucket_append, entries]
      · rw [hentries, bucket_append, entries]
        by_cases hh : hash = trieHash key
        · rw [hh, bucket_eq_nil hother, List.append_nil, List.nil_append]
        · rw [bucket_cons_of_ne (Ne.symm hh), bucket_nil, List.append_nil,
            List.nil_append]
    rw [hbucket]
    split
    · next hh =>
        rw [hh, bucket_eq_nil hother, bucket_eq_self (by simp), List.nil_append,
          AssocList.insert]
    · next hh =>
        rw [bucket_cons_of_ne (Ne.symm hh), bucket_nil, List.append_nil]
  · rw [bucket_eq_nil hother]
    rfl
  · rcases hentries with hentries | hentries
    · rw [hentries, List.length_append, entries]
      rfl
    · rw [hentries, List.length_append, entries, Nat.add_comm]
      rfl

theorem hash_insert {key : K} (value : V) {es : List (K × V)}
    (hes : ∀ e ∈ es, trieHash e.1 = trieHash key) :
    ∀ e ∈ AssocList.insert (· == ·) key value es,
      trieHash e.1 = trieHash key := by
  intro e he
  rcases AssocList.mem_insert he with rfl | he
  · rfl
  · exact hes e he

/-- Insertion where all keys have the hash of the new one. -/
theorem inserted_same {way : List Nat} {n n' : Node K V} {key : K} {value : V}
    (hn : ∀ e ∈ n.entries, trieHash e.1 = trieHash key)
    (hwf : WellFormed way n')
    (hentries : n'.entries = AssocList.insert (· == ·) key value n.entries) :
    Inserted way key value n
      (n', !AssocList.contains (· == ·) key n.entries) := by
  have hn' := hash_insert value hn
  refine ⟨hwf, fun hash => ?_, ?_, ?_⟩
  · rw [hentries]
    split
    · next hh => rw [hh, bucket_eq_self hn, bucket_eq_self hn']
    · next hne => rw [bucket_eq_nil_of_ne hn hne, bucket_eq_nil_of_ne hn' hne]
  · rw [bucket_eq_self hn]
  · rw [hentries, AssocList.length_insert]
    cases AssocList.contains (· == ·) key n.entries <;> rfl

theorem inserted_leaf {way : List Nat} {key k : K} {v : V}
    (hk : trieHash k = trieHash key) (hf : Follows (trieHash key) way)
    (value : V) :
    Inserted way key value (.leaf (trieHash key) k v)
      (if k == key then (.leaf (trieHash key) key value, false)
        else (.collision (trieHash key) [(k, v), (key, value)], true)) := by
  have hn : ∀ e ∈ (Node.leaf (trieHash key) k v).entries,
      trieHash e.1 = trieHash key := by
    simpa [entries]
  have hcontains :
      AssocList.contains (· == ·) key (Node.leaf (trieHash key) k v).entries =
        (k == key) := by
    rw [entries, AssocList.contains_cons]
    exact Bool.or_false _
  split
  · next heq =>
      have hwf : WellFormed way (.leaf (trieHash key) key value) :=
        .terminal (.leaf rfl) hf
      have hinsert := inserted_same hn hwf
        (by rw [entries, entries, AssocList.insert, if_pos heq])
      rwa [hcontains, heq] at hinsert
  · next hne =>
      have hwf :
          WellFormed way (.collision (trieHash key) [(k, v), (key, value)]) :=
        .terminal (.collision (Nat.le_refl 2) (by simpa)) hf
      have hinsert := inserted_same hn hwf
        (by rw [entries, entries, AssocList.insert, if_neg hne, AssocList.insert])
      rwa [hcontains, Bool.eq_false_iff.mpr hne] at hinsert

/-- Insertion at the end of a way that the hash of the key follows. -/
theorem insert_spec {way : List Nat} {n : Node K V} (h : WellFormed way n)
    {key : K} (hkey : Follows (trieHash key) way) (value : V) :
    Inserted way key value n (insert (trieHash key) key value n way.length) := by
  induction n using Node.induct generalizing way with
  | leaf hash k v =>
      obtain ⟨hk, hf⟩ := h.leaf_inv
      rw [insert]
      by_cases hh : hash = trieHash key
      · rw [if_neg (not_not_intro hh)]
        subst hh
        exact inserted_leaf hk hf value
      · rw [if_pos hh]
        exact inserted_fork (.leaf hk) hf hkey hh value
  | collision hash es =>
      obtain ⟨hlen, hes, hf⟩ := h.collision_inv
      rw [insert]
      by_cases hh : hash = trieHash key
      · rw [if_neg (not_not_intro hh)]
        subst hh
        have hlen' := AssocList.length_insert (· == ·) key value es
        refine inserted_same hes
          (.terminal (.collision ?_ (hash_insert value hes)) hf) rfl
        split at hlen' <;> omega
      · rw [if_pos hh]
        exact inserted_fork (.collision hlen hes) hf hkey hh value
  | branch b cs ih =>
      have hs := slot_lt (trieHash key) way.length
      have hfs := follows_snoc.mpr ⟨hkey, rfl⟩
      rw [insert]
      cases hb : b.getLsbD (slot (trieHash key) way.length) with
      | true =>
          obtain ⟨l, c, r, rfl, hlen, hl, hc, hr⟩ := h.used hs hb
          have ih := ih c (by simp) hc hfs
          rw [List.length_append, List.length_singleton] at ih
          rw [if_pos rfl, ← hlen, insertAt_append]
          generalize insert (trieHash key) key value c
            (way.length + 1) = c' at ih
          refine ⟨?_, ?_, ?_, ?_⟩
          · refine Rows.branch h.way_lt (by simp) ?_
            rw [usedSlots_of_used hs hb]
            exact hl.append (.cons ih.wellFormed hr)
          · simp only [entries, entriesAll_append, entriesAll]
            exact ih.edits.between hl.below_hash_ne hr.above_hash_ne
          · rw [entries, bucket_branch hl hr]
            exact ih.gained
          · simp only [entries, entriesAll_append, entriesAll,
              List.length_append, ih.length]
            omega
      | false =>
          obtain ⟨l, r, rfl, hlen, hl, hr⟩ := h.unused hs hb
          have hnil : bucket (trieHash key) (entriesAll (l ++ r)) = [] := by
            rw [entriesAll_append, bucket_append, bucket_eq_nil hl.below_hash_ne,
              bucket_eq_nil hr.above_hash_ne, List.append_nil]
          rw [if_neg (by decide), ← hlen, insertIdx_length]
          refine ⟨?_, fun hash => ?_, ?_, ?_⟩
          · refine Rows.branch h.way_lt (by simp) ?_
            rw [usedSlots_set _ hs]
            exact hl.append (.cons (.terminal (.leaf rfl) hfs) hr)
          · split
            · next hh =>
                subst hh
                rw [entries, entries, hnil, bucket_branch hl hr]
                exact bucket_eq_self (by simp [entries])
            · next hne =>
                simp only [entries, entriesAll_append, entriesAll, bucket_append]
                rw [bucket_cons_of_ne (Ne.symm hne), bucket_nil, List.nil_append]
          · rw [entries, hnil]
            rfl
          · simp only [entries, entriesAll_append, entriesAll, List.length_append,
              List.length_singleton, Bool.toNat_true]
            omega

/-! ## Removal -/

/-- What a removal at the end of a way has to give: nothing was there, or the
only entry was, or what is left stands at the end of the way with the bucket of
the key changed. -/
def Removed (way : List Nat) (key : K) (n : Node K V) : Removal K V → Prop
  | .absent =>
    AssocList.contains (· == ·) key (bucket (trieHash key) n.entries) = false
  | .emptied =>
    AssocList.contains (· == ·) key (bucket (trieHash key) n.entries) = true ∧
      Edits key (AssocList.erase (· == ·) key) n.entries [] ∧
      n.entries.length = 1
  | .left rest =>
    AssocList.contains (· == ·) key (bucket (trieHash key) n.entries) = true ∧
      WellFormed way rest ∧
      Edits key (AssocList.erase (· == ·) key) n.entries rest.entries ∧
      n.entries.length = rest.entries.length + 1

theorem removed_leaf {way : List Nat} {key k : K} {v : V} :
    Removed way key (.leaf (trieHash k) k v)
      (erase (trieHash key) key (.leaf (trieHash k) k v) way.length) := by
  rw [erase]
  by_cases hh : trieHash k = trieHash key
  · have hbucket : bucket (trieHash key) [(k, v)] = [(k, v)] :=
      bucket_eq_self (by simpa)
    cases heq : k == key with
    | false =>
        rw [Bool.and_false, if_neg (by decide), Removed, entries, hbucket,
          AssocList.contains_cons, heq]
        rfl
    | true =>
        rw [Bool.and_true, if_pos (beq_iff_eq.mpr hh), Removed, entries, hbucket,
          AssocList.contains_cons, heq]
        refine ⟨rfl, fun hash => ?_, rfl⟩
        split
        · next hh' => rw [hh', hbucket, AssocList.erase, if_pos heq, bucket_nil]
        · next hne => rw [bucket_nil, bucket_eq_nil_of_ne (by simpa) hne]
  · rw [beq_false_of_ne hh, Bool.false_and, if_neg (by decide), Removed, entries,
      bucket_cons_of_ne hh, bucket_nil]
    rfl

theorem removed_collision {way : List Nat} {key : K} {h : UInt32}
    {es : List (K × V)} (hlen : 2 ≤ es.length)
    (hes : ∀ e ∈ es, trieHash e.1 = h) (hf : Follows h way) :
    Removed way key (.collision h es)
      (erase (trieHash key) key (.collision h es) way.length) := by
  rw [erase]
  by_cases hh : h = trieHash key
  · subst hh
    rw [beq_self_eq_true, Bool.true_and]
    cases hc : AssocList.contains (· == ·) key es with
    | false =>
        rw [if_neg (by decide), Removed, entries, bucket_eq_self hes]
        exact hc
    | true =>
        rw [if_pos rfl]
        have hsub := @AssocList.erase_sublist K V (· == ·) key es
        have hlen' := @AssocList.length_erase K V (· == ·) key es
        rw [if_pos hc] at hlen'
        have hrest : ∀ e ∈ AssocList.erase (· == ·) key es,
            trieHash e.1 = trieHash key :=
          fun e he => hes e (hsub.subset he)
        have hedits : Edits key (AssocList.erase (· == ·) key) es
            (AssocList.erase (· == ·) key es) :=
          edits_erase fun e he _ => hes e he
        -- At least one entry is left, and a single one becomes a leaf.
        match hmatch : AssocList.erase (· == ·) key es with
        | [] => rw [hmatch, List.length_nil] at hlen'; omega
        | [(k, v)] =>
            rw [hmatch] at hrest hedits hlen'
            refine ⟨by rw [entries, bucket_eq_self hes]; exact hc,
              .terminal (.leaf (hrest (k, v) List.mem_cons_self)) hf, hedits, ?_⟩
            simp only [entries, List.length_singleton] at hlen' ⊢
            omega
        | a :: b :: rest =>
            rw [hmatch] at hrest hedits hlen'
            refine ⟨by rw [entries, bucket_eq_self hes]; exact hc,
              .terminal (.collision (by simp) hrest) hf, hedits, ?_⟩
            simp only [entries, List.length_cons] at hlen' ⊢
            omega
  · rw [beq_false_of_ne hh, Bool.false_and, if_neg (by decide), Removed, entries,
      bucket_eq_nil_of_ne hes (Ne.symm hh)]
    rfl

/-- Removal at the end of a way that the hash of the key follows. -/
theorem erase_spec {way : List Nat} {n : Node K V} (h : WellFormed way n)
    (key : K) : Removed way key n (erase (trieHash key) key n way.length) := by
  induction n using Node.induct generalizing way with
  | leaf hash k v =>
      obtain ⟨rfl, hf⟩ := h.leaf_inv
      exact removed_leaf
  | collision hash es =>
      obtain ⟨hlen, hes, hf⟩ := h.collision_inv
      exact removed_collision hlen hes hf
  | branch b cs ih =>
      have hs := slot_lt (trieHash key) way.length
      rw [erase]
      cases hb : b.getLsbD (slot (trieHash key) way.length) with
      | true =>
          obtain ⟨l, c, r, rfl, hlen, hl, hc, hr⟩ := h.used hs hb
          have ih := ih c (by simp) hc
          rw [List.length_append, List.length_singleton] at ih
          rw [if_pos rfl, ← hlen, eraseAt_append]
          have hbucket : ∀ d, bucket (trieHash key) (entriesAll (l ++ d :: r)) =
              bucket (trieHash key) d.entries := fun d => bucket_branch hl hr
          generalize erase (trieHash key) key c (way.length + 1) = removal at ih
          cases removal with
          | absent =>
              rw [Removed, entries, hbucket]
              exact ih
          | emptied =>
              obtain ⟨hcont, hedits, hone⟩ := ih
              have hedits' := hedits.between hl.below_hash_ne hr.above_hash_ne
              rw [List.nil_append, ← entriesAll, ← entriesAll_append,
                ← entriesAll_append] at hedits'
              have hcount :
                  (entriesAll (l ++ c :: r)).length =
                    (entriesAll (l ++ r)).length + 1 := by
                rw [entriesAll_append, entriesAll, entriesAll_append,
                  List.length_append, List.length_append,
                  List.length_append, hone]
                omega
              simp only [regrown]
              match hmatch : l ++ r with
              | [] =>
                  rw [hmatch] at hedits' hcount
                  exact ⟨by rw [entries, hbucket]; exact hcont, hedits', hcount⟩
              | d :: ds =>
                  refine ⟨by rw [entries, hbucket]; exact hcont, ?_, ?_, ?_⟩
                  · refine Rows.branch h.way_lt (List.cons_ne_nil _ _) ?_
                    rw [usedSlots_clear _ hs, ← hmatch]
                    exact hl.append hr
                  · rw [hmatch] at hedits'
                    exact hedits'
                  · rw [hmatch] at hcount
                    exact hcount
          | left c' =>
              obtain ⟨hcont, hwf, hedits, hone⟩ := ih
              refine ⟨by rw [entries, hbucket]; exact hcont, ?_, ?_, ?_⟩
              · refine Rows.branch h.way_lt (by simp [regrown]) ?_
                rw [usedSlots_of_used hs hb]
                exact hl.append (.cons hwf hr)
              · simp only [entries, regrown, entriesAll_append, entriesAll]
                exact hedits.between hl.below_hash_ne hr.above_hash_ne
              · simp only [entries, regrown, entriesAll_append, entriesAll,
                  List.length_append, hone]
                omega
      | false =>
          obtain ⟨l, r, rfl, hlen, hl, hr⟩ := h.unused hs hb
          rw [if_neg (by decide), Removed, entries, entriesAll_append,
            bucket_append, bucket_eq_nil hl.below_hash_ne,
            bucket_eq_nil hr.above_hash_ne]
          rfl

/-! ## The order of the entries -/

omit [BEq K] in
theorem Rows.sorted {way slots : List Nat} {cs : List (Node K V)}
    (hway : way.length < levels) (h : Rows way slots cs)
    (hslots : slots.Pairwise (· < ·))
    (hcs : ∀ c ∈ cs, c.entries.Pairwise fun a b =>
      hashLE (trieHash a.1) (trieHash b.1) = true) :
    (entriesAll cs).Pairwise fun a b =>
      hashLE (trieHash a.1) (trieHash b.1) = true := by
  induction slots generalizing cs with
  | nil =>
      rw [List.length_eq_zero_iff.mp h.1.symm]
      exact .nil
  | cons s slots ih =>
      obtain ⟨c, r, rfl, hc, hr⟩ := h.uncons
      obtain ⟨hlt, hslots⟩ := List.pairwise_cons.mp hslots
      refine List.pairwise_append.mpr ⟨hcs c List.mem_cons_self,
        ih hr hslots fun d hd => hcs d (List.mem_cons_of_mem c hd),
        fun a ha b hb => ?_⟩
      obtain ⟨t, ht, hft⟩ := hr.follows b hb
      exact hashLE_of_part (hc.follows a ha) hft (hlt t ht) hway

omit [BEq K] in
/-- The walk lists the entries in the order of the digits of their hashes. -/
theorem WellFormed.sorted {way : List Nat} {n : Node K V}
    (h : WellFormed way n) :
    n.entries.Pairwise fun a b =>
      hashLE (trieHash a.1) (trieHash b.1) = true := by
  induction h with
  | terminal ht _ =>
      refine List.Pairwise.imp_of_mem (R := fun _ _ => True) (fun ha hb _ => ?_)
        (List.pairwise_of_forall fun _ _ => trivial)
      rw [ht.hash_eq _ ha, ht.hash_eq _ hb]
      exact hashLE_refl _
  | branch hway _ hlen hall ih =>
      refine Rows.sorted hway ⟨hlen, hall⟩ (List.pairwise_lt_range.filter _)
        fun c hc => ?_
      obtain ⟨s, hs⟩ := exists_mem_zip hlen hc
      exact ih (s, c) hs

end TinyLisp.HashTrie.Node

namespace TinyLisp.HashTrie

variable {K V : Type} [TrieHash K]

/-- The invariant of a map: its root stands at the end of the empty way, and its
size is the number of its entries. -/
structure WellFormed (m : HashTrie K V) : Prop where
  root : ∀ n, m.root = some n → n.WellFormed []
  size : m.size = m.entries.length

theorem wellFormed_empty : WellFormed (empty : HashTrie K V) :=
  ⟨nofun, rfl⟩

theorem WellFormed.sorted {m : HashTrie K V} (h : m.WellFormed) :
    m.entries.Pairwise fun a b =>
      hashLE (trieHash a.1) (trieHash b.1) = true := by
  unfold entries
  split
  · exact .nil
  · next n hn => exact (h.root n hn).sorted

variable [BEq K]

theorem WellFormed.get?_eq {m : HashTrie K V} (h : m.WellFormed) (key : K) :
    m.get? key =
      AssocList.find? (· == ·) key (bucket (trieHash key) m.entries) := by
  unfold get? entries
  split
  · rfl
  · next n hn => exact Node.get?_eq (h.root n hn) key

theorem WellFormed.insert {m : HashTrie K V} (h : m.WellFormed) (key : K)
    (value : V) :
    (m.insert key value).WellFormed ∧
      Edits key (AssocList.insert (· == ·) key value) m.entries
        (m.insert key value).entries := by
  unfold HashTrie.insert
  split
  · next hn =>
      refine ⟨⟨fun n h => ?_, rfl⟩, fun hash => ?_⟩
      · obtain rfl := Option.some.inj h
        exact .terminal (.leaf rfl) (follows_nil _)
      · simp only [entries, Node.entries, hn]
        split
        · next hh =>
            rw [hh, bucket_eq_self (by simp), bucket_nil, AssocList.insert]
        · next hne => rw [bucket_eq_nil_of_ne (by simp) hne, bucket_nil]
  · next n hn =>
      have hs :=
        Node.insert_spec (h.root n hn) (follows_nil (trieHash key)) value
      have hsize := h.size
      rw [List.length_nil] at hs
      simp only [entries, hn] at hsize ⊢
      refine ⟨⟨fun n' h' => ?_, ?_⟩, hs.edits⟩
      · obtain rfl := Option.some.inj h'
        exact hs.wellFormed
      · rw [entries, hs.length, hsize]
        split
        · next hflag => rw [hflag]; rfl
        · next hflag => rw [Bool.eq_false_iff.mpr hflag]; rfl

/-- A removal gives nothing exactly if the key is not there. -/
theorem WellFormed.erase?_eq_none_iff {m : HashTrie K V} (h : m.WellFormed)
    (key : K) :
    m.erase? key = none ↔
      AssocList.contains (· == ·) key (bucket (trieHash key) m.entries) =
        false := by
  unfold erase? entries
  split
  · exact iff_of_true rfl rfl
  · next n hn =>
      have hs := Node.erase_spec (h.root n hn) key
      rw [List.length_nil] at hs
      generalize Node.erase (trieHash key) key n 0 = removal at hs
      cases removal with
      | absent => exact iff_of_true rfl hs
      | emptied => exact iff_of_false nofun (Bool.ne_false_iff.mpr hs.1)
      | left rest => exact iff_of_false nofun (Bool.ne_false_iff.mpr hs.1)

theorem WellFormed.erase? {m m' : HashTrie K V} (h : m.WellFormed) {key : K}
    (he : m.erase? key = some m') :
    m'.WellFormed ∧
      Edits key (AssocList.erase (· == ·) key) m.entries m'.entries := by
  unfold HashTrie.erase? at he
  split at he
  · cases he
  · next n hn =>
      have hs := Node.erase_spec (h.root n hn) key
      have hsize := h.size
      rw [List.length_nil] at hs
      generalize Node.erase (trieHash key) key n 0 = removal at hs he
      simp only [entries, hn] at hsize ⊢
      cases removal with
      | absent => cases he
      | emptied =>
          obtain rfl := Option.some.inj he
          exact ⟨wellFormed_empty, hs.2.1⟩
      | left rest =>
          obtain rfl := Option.some.inj he
          obtain ⟨_, hwf, hedits, hone⟩ := hs
          refine ⟨⟨fun n' h' => ?_, ?_⟩, hedits⟩
          · obtain rfl := Option.some.inj h'
            exact hwf
          · rw [entries, hsize, hone, Nat.add_sub_cancel]

end TinyLisp.HashTrie
