import TinyLisp.Proofs.HashTrie.Extensional
import TinyLisp.Proofs.Number.Equality
import TinyLisp.Proofs.Value.Depth

/-!
# Equal values have equal hashes

Equality of maps asks only that each entry of the first is found in the second.
That this is symmetric, and that the hashes agree, takes a pairing of the
entries, and a pairing needs keys that differ from one another. Whether keys
differ is again a question of equality, one level further down, so the laws of
equality are proved together, by induction on the depth, for values in which no
map has two equal keys: the `Sound` ones.

Equality is not reflexive, as not-a-number differs from itself, and nothing here
asks for that.
-/

namespace TinyLisp.Value

open HashTrie (LawfulOn)
open AssocList (Distinct)

/-! ## Entries, paired -/

/-- Keys and values satisfy `P`, and no two keys are equal. -/
structure Keyed (P : Value → Prop) (es : List (Value × Value)) : Prop where
  keys : ∀ e ∈ es, P e.1
  values : ∀ e ∈ es, P e.2
  distinct : Distinct Value.beq es

/-- Keys and values are equal, compared the way equality of maps does it. -/
def SameEntry (e f : Value × Value) : Prop :=
  (f.1 == e.1) = true ∧ (f.2 == e.2) = true

/-- Entries are mixed in by exclusive or, so their order does not matter. -/
theorem hashEntries_perm {es fs : List (Value × Value)} (h : List.Perm es fs) :
    hashEntries Value.hash es = hashEntries Value.hash fs := by
  refine h.foldl_eq' (fun x _ y _ z => ?_) 0
  rw [UInt32.xor_assoc z, UInt32.xor_assoc z,
    UInt32.xor_comm (y.1.hash ^^^ y.2.hash)]

section Pairing

variable {P : Value → Prop} (law : LawfulOn P) {es fs gs : List (Value × Value)}
include law

theorem sameEntries_iff (hes : Keyed P es) (hfs : Keyed P fs) :
    sameEntries Value.beq es fs = true ↔
      es.length = fs.length ∧ ∀ e ∈ es, ∃ f ∈ fs, SameEntry e f := by
  rw [sameEntries_eq_true_iff]
  refine and_congr_right fun _ => forall_congr' fun e =>
    forall_congr' fun he => ?_
  constructor
  · rintro ⟨v, hv, heq⟩
    obtain ⟨f, hf, hk, rfl⟩ := AssocList.mem_of_find?_eq_some hv
    exact ⟨f, hf, hk, heq⟩
  · rintro ⟨f, hf, hk, heq⟩
    exact ⟨f.2, HashTrie.find?_of_mem law hfs.keys hfs.distinct (hes.keys e he)
      hf hk, heq⟩

theorem exists_pairing_of_sameEntries (hes : Keyed P es) (hfs : Keyed P fs)
    (h : sameEntries Value.beq es fs = true) :
    ∃ gs, List.Perm gs fs ∧ List.Forall₂ SameEntry es gs := by
  obtain ⟨hlen, hall⟩ := (sameEntries_iff law hes hfs).mp h
  obtain ⟨gs, hgs, hpairs⟩ :=
    HashTrie.exists_pairing law (fun _ _ h => h.1) hes.keys hes.distinct
      hfs.keys hall
  have hlen' : gs.length = fs.length := hpairs.length_eq.symm.trans hlen
  exact ⟨gs, hgs.perm_of_length_le (Nat.le_of_eq hlen'.symm), hpairs⟩

theorem sameEntries_symm (hes : Keyed P es) (hfs : Keyed P fs)
    (h : sameEntries Value.beq es fs = true) :
    sameEntries Value.beq fs es = true := by
  obtain ⟨gs, hperm, hpairs⟩ := exists_pairing_of_sameEntries law hes hfs h
  have hlen : fs.length = es.length :=
    (hpairs.length_eq.trans hperm.length_eq).symm
  refine (sameEntries_iff law hfs hes).mpr ⟨hlen, fun f hf => ?_⟩
  obtain ⟨e, he, hk, hv⟩ := exists_of_mem_right hpairs (hperm.mem_iff.mpr hf)
  exact ⟨e, he, law.symm (hfs.keys f hf) (hes.keys e he) hk,
    law.symm (hfs.values f hf) (hes.values e he) hv⟩

theorem sameEntries_trans (hes : Keyed P es) (hfs : Keyed P fs)
    (hgs : Keyed P gs) (h : sameEntries Value.beq es fs = true)
    (h' : sameEntries Value.beq fs gs = true) :
    sameEntries Value.beq es gs = true := by
  obtain ⟨hlen, hall⟩ := (sameEntries_iff law hes hfs).mp h
  obtain ⟨hlen', hall'⟩ := (sameEntries_iff law hfs hgs).mp h'
  refine (sameEntries_iff law hes hgs).mpr ⟨hlen.trans hlen', fun e he => ?_⟩
  obtain ⟨f, hf, hk, hv⟩ := hall e he
  obtain ⟨g, hg, hk', hv'⟩ := hall' f hf
  exact ⟨g, hg, law.trans (hgs.keys g hg) (hfs.keys f hf) (hes.keys e he) hk' hk,
    law.trans (hgs.values g hg) (hfs.values f hf) (hes.values e he) hv' hv⟩

theorem hashEntries_pairs (hes : ∀ e ∈ es, P e.1 ∧ P e.2)
    (hfs : ∀ f ∈ fs, P f.1 ∧ P f.2) (h : List.Forall₂ SameEntry es fs) :
    hashEntries Value.hash es = hashEntries Value.hash fs := by
  suffices ∀ acc, es.foldl (fun h e => h ^^^ (e.1.hash ^^^ e.2.hash)) acc =
      fs.foldl (fun h e => h ^^^ (e.1.hash ^^^ e.2.hash)) acc from this 0
  induction h with
  | nil => exact fun _ => rfl
  | @cons e f es fs hef _ ih =>
      intro acc
      have he := hes e List.mem_cons_self
      have hf := hfs f List.mem_cons_self
      have hk : f.1.hash = e.1.hash := law.hash_eq hf.1 he.1 hef.1
      have hv : f.2.hash = e.2.hash := law.hash_eq hf.2 he.2 hef.2
      rw [List.foldl_cons, List.foldl_cons, hk, hv]
      exact ih (fun x hx => hes x (List.mem_cons_of_mem e hx))
        (fun x hx => hfs x (List.mem_cons_of_mem f hx)) _

theorem hashEntries_eq (hes : Keyed P es) (hfs : Keyed P fs)
    (h : sameEntries Value.beq es fs = true) :
    hashEntries Value.hash es = hashEntries Value.hash fs := by
  obtain ⟨gs, hperm, hpairs⟩ := exists_pairing_of_sameEntries law hes hfs h
  rw [← hashEntries_perm hperm]
  have hes' : ∀ e ∈ es, P e.1 ∧ P e.2 :=
    fun e he => ⟨hes.keys e he, hes.values e he⟩
  refine hashEntries_pairs law hes' (fun g hg => ?_) hpairs
  have hg := hperm.mem_iff.mp hg
  exact ⟨hfs.keys g hg, hfs.values g hg⟩

/-! ## Items -/

theorem isEqv_symm {xs ys : List Value} (hxs : ∀ x ∈ xs, P x)
    (hys : ∀ y ∈ ys, P y) (h : xs.isEqv ys Value.beq = true) :
    ys.isEqv xs Value.beq = true := by
  induction xs generalizing ys with
  | nil => cases ys with
    | nil => rfl
    | cons y ys => cases h
  | cons x xs ih => cases ys with
    | nil => cases h
    | cons y ys =>
        rw [List.isEqv_cons_cons, Bool.and_eq_true] at h ⊢
        rw [List.forall_mem_cons] at hxs hys
        exact ⟨law.symm hxs.1 hys.1 h.1, ih hxs.2 hys.2 h.2⟩

theorem isEqv_trans {xs ys zs : List Value} (hxs : ∀ x ∈ xs, P x)
    (hys : ∀ y ∈ ys, P y) (hzs : ∀ z ∈ zs, P z)
    (h : xs.isEqv ys Value.beq = true) (h' : ys.isEqv zs Value.beq = true) :
    xs.isEqv zs Value.beq = true := by
  induction xs generalizing ys zs with
  | nil => cases ys with
    | nil => exact h'
    | cons y ys => cases h
  | cons x xs ih => cases ys with
    | nil => cases h
    | cons y ys => cases zs with
      | nil => cases h'
      | cons z zs =>
          rw [List.isEqv_cons_cons, Bool.and_eq_true] at h h' ⊢
          rw [List.forall_mem_cons] at hxs hys hzs
          exact ⟨law.trans hxs.1 hys.1 hzs.1 h.1 h'.1,
            ih hxs.2 hys.2 hzs.2 h.2 h'.2⟩

theorem hashItems_eq {xs ys : List Value} (hxs : ∀ x ∈ xs, P x)
    (hys : ∀ y ∈ ys, P y) (h : xs.isEqv ys Value.beq = true) :
    hashItems Value.hash xs = hashItems Value.hash ys := by
  suffices ∀ acc, xs.foldl (fun h x => h * 31 + x.hash) acc =
      ys.foldl (fun h x => h * 31 + x.hash) acc from this 1
  induction xs generalizing ys with
  | nil => cases ys with
    | nil => exact fun _ => rfl
    | cons y ys => cases h
  | cons x xs ih => cases ys with
    | nil => cases h
    | cons y ys =>
        intro acc
        rw [List.isEqv_cons_cons, Bool.and_eq_true] at h
        rw [List.forall_mem_cons] at hxs hys
        have hxy : x.hash = y.hash := law.hash_eq hxs.1 hys.1 h.1
        rw [List.foldl_cons, List.foldl_cons, hxy]
        exact ih hxs.2 hys.2 h.2 _

end Pairing

/-! ## Values without parts -/

theorem sameLeaf_symm {a b : Value} (h : sameLeaf a b = true) :
    sameLeaf b a = true := by
  fun_cases sameLeaf a b
  case case3 x y => exact Number.beq_symm h
  all_goals simp_all [sameLeaf]

theorem sameLeaf_trans {a b c : Value} (h : sameLeaf a b = true)
    (h' : sameLeaf b c = true) : sameLeaf a c = true := by
  fun_cases sameLeaf a b
  case case3 x y =>
    cases c with
    | number z => exact Number.beq_trans h h'
    | _ => cases h'
  all_goals cases c <;> simp_all [sameLeaf]

theorem hashLeaf_eq {a b : Value} (h : sameLeaf a b = true) :
    hashLeaf a = hashLeaf b := by
  fun_cases sameLeaf a b
  case case3 x y => exact Number.hash_eq_of_beq h
  all_goals simp_all [sameLeaf, hashLeaf]

theorem parts_of_sameLeaf {a b : Value} (h : sameLeaf a b = true) :
    b.items? = none ∧ b.entriesBy? Value.beq = none := by
  fun_cases sameLeaf a b
  all_goals first | exact ⟨rfl, rfl⟩ | simp [sameLeaf] at h

/-! ## Sound values -/

/-- Every map inside the value keeps the invariant of a trie and has no
two equal keys. -/
inductive Sound : Value → Prop where
  | leaf {v : Value} (hi : v.items? = none)
      (he : v.entriesBy? Value.beq = none) : Sound v
  | items {v : Value} {xs : List Value} (h : v.items? = some xs)
      (hxs : ∀ x ∈ xs, Sound x) : Sound v
  | map {m : HashTrie Value Value} (s : Option Span) (hm : m.WellFormed)
      (hd : Distinct Value.beq m.entries) (hk : ∀ e ∈ m.entries, Sound e.1)
      (hv : ∀ e ∈ m.entries, Sound e.2) : Sound (.map m s)
  | mapForm {ps : List (Value × Value)} (s : Option Span)
      (hk : ∀ p ∈ ps, Sound p.1) (hv : ∀ p ∈ ps, Sound p.2) :
      Sound (.mapForm ps s)

theorem Sound.of_items {v : Value} (h : Sound v) {xs : List Value}
    (hi : v.items? = some xs) : ∀ x ∈ xs, Sound x := by
  cases h with
  | leaf hn _ => rw [hn] at hi; cases hi
  | items h hxs => rw [h] at hi; exact Option.some.inj hi ▸ hxs
  | map _ _ _ _ _ => cases hi
  | mapForm _ _ _ => cases hi

/-- Sound, and nested no deeper than this. -/
def SoundWithin (n : Nat) (v : Value) : Prop :=
  Sound v ∧ v.depth ≤ n

theorem SoundWithin.of_items {n : Nat} {v : Value} (h : SoundWithin (n + 1) v)
    {xs : List Value} (hi : v.items? = some xs) :
    ∀ x ∈ xs, SoundWithin n x := by
  intro x hx
  refine ⟨h.1.of_items hi x hx, ?_⟩
  have := depth_lt_of_mem_items hi hx
  have := h.2
  omega

/-- The pairs of a literal may repeat a key, and which of them do is decided by
equality of the keys, so this needs the laws one level down. -/
theorem SoundWithin.of_entries {n : Nat} (law : LawfulOn (SoundWithin n))
    {v : Value} (h : SoundWithin (n + 1) v) {es : List (Value × Value)}
    (he : v.entriesBy? Value.beq = some es) : Keyed (SoundWithin n) es := by
  obtain ⟨hs, hdepth⟩ := h
  have hparts : ∀ e ∈ es, e.1.depth ≤ n ∧ e.2.depth ≤ n := fun e hmem => by
    have := depth_lt_of_mem_entries he hmem
    omega
  cases hs with
  | leaf _ hn => rw [hn] at he; cases he
  | items hi _ => rw [items?_of_entries he] at hi; cases hi
  | map s hm hd hk hv =>
      obtain rfl := Option.some.inj he
      exact ⟨fun e h => ⟨hk e h, (hparts e h).1⟩,
        fun e h => ⟨hv e h, (hparts e h).2⟩, hd⟩
  | @mapForm ps s hk hv =>
      obtain rfl := Option.some.inj he
      have hps : ∀ p ∈ ps, SoundWithin n p.1 := fun p hp => by
        have := (depth_le_depthPairs hp).1
        refine ⟨hk p hp, ?_⟩
        rw [depth] at hdepth
        omega
      refine ⟨fun e h => ⟨hk e (AssocList.mem_ofPairs h), (hparts e h).1⟩,
        fun e h => ⟨hv e (AssocList.mem_ofPairs h), (hparts e h).2⟩, ?_⟩
      exact (HashTrie.represents_ofList law hps).distinct

/-! ## The laws -/

section Step

variable {n : Nat} (law : LawfulOn (SoundWithin n)) {a b c : Value}
include law

theorem beq_symm_step (ha : SoundWithin (n + 1) a) (hb : SoundWithin (n + 1) b)
    (h : (a == b) = true) : (b == a) = true := by
  rcases items_or_entries_or_leaf a with ⟨xs, hxs⟩ | ⟨es, hes⟩ | ⟨hi, he⟩
  · obtain ⟨ys, hys, heqv⟩ := (beq_of_items hxs).mp h
    exact (beq_of_items hys).mpr
      ⟨xs, hxs, isEqv_symm law (ha.of_items hxs) (hb.of_items hys) heqv⟩
  · obtain ⟨fs, hfs, hsame⟩ := (beq_of_entries hes).mp h
    exact (beq_of_entries hfs).mpr
      ⟨es, hes, sameEntries_symm law (ha.of_entries law hes)
        (hb.of_entries law hfs) hsame⟩
  · have hleaf := (beq_of_leaf hi he).mp h
    obtain ⟨hi', he'⟩ := parts_of_sameLeaf hleaf
    exact (beq_of_leaf hi' he').mpr (sameLeaf_symm hleaf)

theorem beq_trans_step (ha : SoundWithin (n + 1) a) (hb : SoundWithin (n + 1) b)
    (hc : SoundWithin (n + 1) c) (h : (a == b) = true) (h' : (b == c) = true) :
    (a == c) = true := by
  rcases items_or_entries_or_leaf a with ⟨xs, hxs⟩ | ⟨es, hes⟩ | ⟨hi, he⟩
  · obtain ⟨ys, hys, heqv⟩ := (beq_of_items hxs).mp h
    obtain ⟨zs, hzs, heqv'⟩ := (beq_of_items hys).mp h'
    exact (beq_of_items hxs).mpr
      ⟨zs, hzs, isEqv_trans law (ha.of_items hxs) (hb.of_items hys)
      (hc.of_items hzs) heqv heqv'⟩
  · obtain ⟨fs, hfs, hsame⟩ := (beq_of_entries hes).mp h
    obtain ⟨gs, hgs, hsame'⟩ := (beq_of_entries hfs).mp h'
    exact (beq_of_entries hes).mpr
      ⟨gs, hgs, sameEntries_trans law (ha.of_entries law hes)
      (hb.of_entries law hfs) (hc.of_entries law hgs) hsame hsame'⟩
  · have hleaf := (beq_of_leaf hi he).mp h
    obtain ⟨hi', he'⟩ := parts_of_sameLeaf hleaf
    exact (beq_of_leaf hi he).mpr
      (sameLeaf_trans hleaf ((beq_of_leaf hi' he').mp h'))

theorem hash_eq_step (ha : SoundWithin (n + 1) a) (hb : SoundWithin (n + 1) b)
    (h : (a == b) = true) : a.hash = b.hash := by
  rcases items_or_entries_or_leaf a with ⟨xs, hxs⟩ | ⟨es, hes⟩ | ⟨hi, he⟩
  · obtain ⟨ys, hys, heqv⟩ := (beq_of_items hxs).mp h
    rw [hash_of_items hxs, hash_of_items hys]
    exact hashItems_eq law (ha.of_items hxs) (hb.of_items hys) heqv
  · obtain ⟨fs, hfs, hsame⟩ := (beq_of_entries hes).mp h
    rw [hash_of_entries hes, hash_of_entries hfs]
    exact hashEntries_eq law (ha.of_entries law hes)
      (hb.of_entries law hfs) hsame
  · have hleaf := (beq_of_leaf hi he).mp h
    obtain ⟨hi', he'⟩ := parts_of_sameLeaf hleaf
    rw [hash_of_leaf hi he, hash_of_leaf hi' he', hashLeaf_eq hleaf]

end Step

theorem lawfulOn_soundWithin (n : Nat) : LawfulOn (SoundWithin n) := by
  induction n with
  | zero =>
      have hnone : ∀ {v : Value}, ¬ SoundWithin 0 v := fun {v} h => by
        have := depth_pos v
        have := h.2
        omega
      exact ⟨fun h => absurd h hnone, fun h => absurd h hnone,
        fun h => absurd h hnone⟩
  | succ n law =>
      exact ⟨beq_symm_step law, beq_trans_step law, hash_eq_step law⟩

/-- On sound values of any depth, equality is symmetric and transitive, and
equal values have equal hashes. -/
theorem lawfulOn_sound : LawfulOn Sound := by
  -- Two or three values have a depth in common that none of them exceeds.
  refine ⟨fun {a b} ha hb => ?_, fun {a b c} ha hb hc => ?_,
    fun {a b} ha hb => ?_⟩
  · have law := lawfulOn_soundWithin (max a.depth b.depth)
    exact law.symm ⟨ha, by omega⟩ ⟨hb, by omega⟩
  · have law := lawfulOn_soundWithin (max a.depth (max b.depth c.depth))
    exact law.trans ⟨ha, by omega⟩ ⟨hb, by omega⟩ ⟨hc, by omega⟩
  · have law := lawfulOn_soundWithin (max a.depth b.depth)
    exact law.hash_eq ⟨ha, by omega⟩ ⟨hb, by omega⟩

end TinyLisp.Value
