import TinyLisp.HashTrie.History
import TinyLisp.Proofs.HashTrie.Invariant

/-!
# Maps are finite maps

A trie is measured against the plain picture of a map, the association list.
`Represents` ties the two: the trie keeps its invariant, and the list has the
same buckets. It holds of the empty map and is kept by every edit, so a history
of maps runs beside a history of association lists, version by version, whatever
earlier versions the edits start from. What a map answers can then be read off
the list next to it.
-/

namespace TinyLisp.HashTrie

variable {K V : Type} [BEq K] [TrieHash K]

/-- Keys whose equality is an equivalence and whose hash respects it. -/
class LawfulTrieHash (K : Type) [BEq K] [TrieHash K] :
    Prop extends EquivBEq K where
  hash_eq : ∀ {a b : K}, (a == b) = true → trieHash a = trieHash b

theorem LawfulTrieHash.lawfulOn [LawfulTrieHash K] :
    LawfulOn fun _ : K => True where
  symm _ _ h := PartialEquivBEq.symm h
  trans _ _ _ h h' := PartialEquivBEq.trans h h'
  hash_eq _ _ h := LawfulTrieHash.hash_eq h

/-- The map and the association list have the same entries, and the keys in
them satisfy `P`. -/
structure Represents (P : K → Prop) (m : HashTrie K V) (es : List (K × V)) :
    Prop where
  wellFormed : m.WellFormed
  buckets : SameBuckets m.entries es
  keys : ∀ e ∈ es, P e.1
  distinct : AssocList.Distinct (· == ·) es

theorem represents_empty (P : K → Prop) :
    Represents P (empty : HashTrie K V) [] :=
  ⟨wellFormed_empty, fun _ => rfl, nofun, .nil⟩

section

variable {P : K → Prop} (law : LawfulOn P) {m : HashTrie K V}
  {es : List (K × V)} {key : K}
include law

theorem Represents.insert (h : Represents P m es) (hkey : P key) (value : V) :
    Represents P (m.insert key value)
      (AssocList.insert (· == ·) key value es) := by
  obtain ⟨hwf, hedits⟩ := h.wellFormed.insert key value
  refine ⟨hwf, h.buckets.edits hedits ?_, fun e he => ?_,
    distinct_insert law hkey h.keys h.distinct⟩
  · exact edits_insert fun e he heq => law.hash_eq (h.keys e he) hkey heq
  · rcases AssocList.mem_insert he with rfl | he
    · exact hkey
    · exact h.keys e he

theorem Represents.contains_bucket (h : Represents P m es) (hkey : P key) :
    AssocList.contains (· == ·) key (bucket (trieHash key) m.entries) =
      AssocList.contains (· == ·) key es := by
  rw [h.buckets (trieHash key)]
  exact HashTrie.contains_bucket fun e he heq =>
    law.hash_eq (h.keys e he) hkey heq

theorem Represents.erase?_eq_none_iff (h : Represents P m es) (hkey : P key) :
    m.erase? key = none ↔ AssocList.contains (· == ·) key es = false := by
  rw [h.wellFormed.erase?_eq_none_iff, h.contains_bucket law hkey]

theorem Represents.erase (h : Represents P m es) (hkey : P key) :
    Represents P (m.erase key) (AssocList.erase (· == ·) key es) := by
  have hlist : Edits key (AssocList.erase (· == ·) key) es
      (AssocList.erase (· == ·) key es) :=
    edits_erase fun e he heq => law.hash_eq (h.keys e he) hkey heq
  unfold HashTrie.erase
  cases he : m.erase? key with
  | none =>
      rw [AssocList.erase_of_not_contains ((h.erase?_eq_none_iff law hkey).mp he)]
      exact h
  | some m' =>
      obtain ⟨hwf, hedits⟩ := h.wellFormed.erase? he
      have hsub := @AssocList.erase_sublist K V (· == ·) key es
      exact ⟨hwf, h.buckets.edits hedits hlist, fun e he =>
        h.keys e (hsub.subset he),
          h.distinct.sublist hsub⟩

theorem represents_ofList {ps : List (K × V)} (hps : ∀ p ∈ ps, P p.1) :
    Represents P (ofList ps) (AssocList.ofPairs (· == ·) ps) := by
  -- Both sides fold over the pairs, from maps that represent each other.
  suffices ∀ (m : HashTrie K V) (es : List (K × V)), Represents P m es →
      Represents P (ps.foldl (fun m p => m.insert p.1 p.2) m)
        (ps.foldl (fun es p => AssocList.insert (· == ·) p.1 p.2 es) es) from
    this empty [] (represents_empty P)
  induction ps with
  | nil => exact fun _ _ h => h
  | cons p ps ih =>
      intro m es h
      exact ih (fun q hq => hps q (List.mem_cons_of_mem p hq)) _ _
        (h.insert law (hps p List.mem_cons_self) p.2)

theorem represents_ofList_of_distinct {ps : List (K × V)}
    (hps : ∀ p ∈ ps, P p.1) (hd : AssocList.Distinct (· == ·) ps) :
    Represents P (ofList ps) ps := by
  have hrep := represents_ofList law hps
  rwa [AssocList.ofPairs_of_distinct hd] at hrep

theorem Represents.get?_eq (h : Represents P m es) (hkey : P key) :
    m.get? key = AssocList.find? (· == ·) key es := by
  rw [h.wellFormed.get?_eq, h.buckets (trieHash key)]
  exact find?_bucket fun e he heq => law.hash_eq (h.keys e he) hkey heq

theorem Represents.contains_eq (h : Represents P m es) (hkey : P key) :
    m.contains key = AssocList.contains (· == ·) key es := by
  rw [HashTrie.contains, h.get?_eq law hkey, AssocList.contains_eq_isSome_find?]

end

theorem Represents.size_eq {P : K → Prop} {m : HashTrie K V} {es : List (K × V)}
    (h : Represents P m es) : m.size = es.length := by
  rw [h.wellFormed.size, h.buckets.perm.length_eq]

/-- A map that represents some list represents the list of its own entries. -/
theorem Represents.entries {P : K → Prop} (law : LawfulOn P) {m : HashTrie K V}
    {es : List (K × V)} (h : Represents P m es) : Represents P m m.entries := by
  have hperm := h.buckets.perm
  refine ⟨h.wellFormed, fun _ => rfl,
    fun e he => h.keys e (hperm.mem_iff.mp he), ?_⟩
  -- Being different is symmetric for keys that satisfy `P`, so that is carried
  -- along.
  let Differ (a b : K × V) : Prop := P a.1 ∧ P b.1 ∧ (a.1 == b.1) = false
  have hsymm : ∀ {a b : K × V}, Differ a b → Differ b a := fun ⟨ha, hb, hne⟩ =>
    ⟨hb, ha, Bool.eq_false_iff.mpr fun heq =>
      Bool.eq_false_iff.mp hne (law.symm hb ha heq)⟩
  have hdiffer : es.Pairwise Differ :=
    h.distinct.imp_of_mem fun ha hb hne => ⟨h.keys _ ha, h.keys _ hb, hne⟩
  exact (hperm.symm.pairwise hdiffer hsymm).imp fun hd => hd.2.2

/-! ## Histories -/

namespace History

/-- The association list with this number, the empty one if the number was
not given out. -/
def plainVersion (ls : List (List (K × V))) (n : Nat) : List (K × V) :=
  ls[n]?.getD []

/-- The association list that an edit makes of earlier ones. -/
def plainEdited (ls : List (List (K × V))) : Edit K V → List (K × V)
  | .insert n key value =>
    AssocList.insert (· == ·) key value (plainVersion ls n)
  | .erase n key => AssocList.erase (· == ·) key (plainVersion ls n)
  | .collect es => AssocList.ofPairs (· == ·) es

/-- The association lists that edits make one after the other, the
empty list first. -/
def plainRun (edits : List (Edit K V)) : List (List (K × V)) :=
  edits.foldl (fun ls e => ls ++ [plainEdited ls e]) [[]]

variable [LawfulTrieHash K]

/-- A history of maps beside a history of association lists. -/
def Parallel (h : History K V) (ls : List (List (K × V))) : Prop :=
  h.versions.size = ls.length ∧
    ∀ n, Represents (fun _ => True) (h.version n).map (plainVersion ls n)

omit [LawfulTrieHash K] in
theorem parallel_start : Parallel (start : History K V) [[]] := by
  refine ⟨rfl, fun n => ?_⟩
  cases n with
  | zero => exact represents_empty _
  | succ n => exact represents_empty _

/-- One edit on either side gives versions that represent each other. -/
theorem Parallel.edited {h : History K V} {ls : List (List (K × V))}
    (hp : Parallel h ls) (e : Edit K V) :
    Represents (fun _ => True) (h.edited e).map (plainEdited ls e) := by
  have law := @LawfulTrieHash.lawfulOn K _ _ _
  cases e with
  | insert n key value => exact (hp.2 n).insert law trivial value
  | erase n key =>
      have herase : Represents (fun _ => True) ((h.version n).map.erase key) _ :=
        (hp.2 n).erase law trivial
      rw [HashTrie.erase] at herase
      rw [History.edited]
      cases he : (h.version n).map.erase? key with
      | none => rw [he] at herase; exact herase
      | some m => rw [he] at herase; exact herase
  | collect es => exact represents_ofList law fun _ _ => trivial

theorem Parallel.apply {h : History K V} {ls : List (List (K × V))}
    (hp : Parallel h ls) (e : Edit K V) :
    Parallel (h.apply e) (ls ++ [plainEdited ls e]) := by
  have hsize := hp.1
  have hnew := hp.edited e
  refine ⟨by simp [History.apply, hsize], fun n => ?_⟩
  have hold := hp.2 n
  rw [version, plainVersion] at hold ⊢
  rw [History.apply, Array.getElem?_push, List.getElem?_append]
  rcases Nat.lt_trichotomy n ls.length with hlt | rfl | hgt
  · rw [if_neg (by omega), if_pos hlt]
    exact hold
  · rw [if_pos hsize.symm, if_neg (Nat.lt_irrefl _), Nat.sub_self]
    exact hnew
  · rw [if_neg (by omega), if_neg (by omega), Array.getElem?_eq_none (by omega),
      List.getElem?_eq_none (by simp; omega)]
    exact represents_empty _

theorem parallel_run (edits : List (Edit K V)) :
    Parallel (start.run edits : History K V) (plainRun edits) := by
  suffices ∀ (h : History K V) (ls : List (List (K × V))), Parallel h ls →
      Parallel (h.run edits)
        (edits.foldl (fun ls e => ls ++ [plainEdited ls e]) ls) from
    this _ _ parallel_start
  induction edits with
  | nil => exact fun _ _ hp => hp
  | cons e edits ih => exact fun h ls hp => ih _ _ (hp.apply e)

/-- A map that some edits lead to. -/
def Reached (m : HashTrie K V) : Prop :=
  ∃ (edits : List (Edit K V)) (n : Nat), ((start.run edits).version n).map = m

theorem Reached.represents {m : HashTrie K V} (h : Reached m) :
    Represents (fun _ => True) m m.entries := by
  obtain ⟨edits, n, rfl⟩ := h
  exact ((parallel_run edits).2 n).entries LawfulTrieHash.lawfulOn

omit [LawfulTrieHash K] in
/-- Edits add versions and leave those that are there as they are. -/
theorem version_run {h : History K V} {n : Nat} (hn : n < h.versions.size)
    (edits : List (Edit K V)) : (h.run edits).version n = h.version n := by
  induction edits generalizing h with
  | nil => rfl
  | cons e edits ih =>
      have hpush : (h.apply e).version n = h.version n := by
        rw [version, version, History.apply, Array.getElem?_push,
          if_neg (by omega)]
      have hsize : n < (h.apply e).versions.size := by
        rw [History.apply, Array.size_push]
        omega
      exact (ih hsize).trans hpush

/-- After any edits, each version answers as the association list with its
number: the same values, the same keys, as many entries as there are distinct
keys. Removing a key that a version does not have hands that very version on,
and no version changes under later edits. -/
theorem version_agrees_with_plain (edits : List (Edit K V)) (n : Nat) :
    let h : History K V := start.run edits
    let m := (h.version n).map
    let es := plainVersion (plainRun edits) n
    AssocList.Distinct (· == ·) es ∧
      (∀ k, m.get? k = AssocList.find? (· == ·) k es) ∧
      (∀ k, m.contains k = AssocList.contains (· == ·) k es) ∧
      m.size = es.length ∧
      (m.isEmpty = true ↔ ∀ k, AssocList.contains (· == ·) k es = false) ∧
      (∀ k, m.contains k = false →
        m.erase k = m ∧
        (h.apply (.erase n k)).version h.versions.size = h.version n) ∧
      (n < h.versions.size →
        ∀ later, (h.run later).version n = h.version n) := by
  intro h m es
  have law := @LawfulTrieHash.lawfulOn K _ _ _
  have hrep : Represents (fun _ => True) m es := (parallel_run edits).2 n
  refine ⟨hrep.distinct, fun k => hrep.get?_eq law trivial,
    fun k => hrep.contains_eq law trivial, hrep.size_eq, ?_, fun k hk => ?_,
    fun hn later => version_run hn later⟩
  · rw [isEmpty, hrep.size_eq, beq_iff_eq, List.length_eq_zero_iff]
    constructor
    · intro hnil k
      rw [hnil]
      rfl
    · intro hall
      cases hes : es with
      | nil => rfl
      | cons e rest =>
          have := hall e.1
          rw [hes, AssocList.contains_cons, BEq.rfl] at this
          cases this
  · rw [hrep.contains_eq law trivial] at hk
    have hnone : m.erase? k = none :=
      (hrep.erase?_eq_none_iff law trivial).mpr hk
    have hedited : h.edited (.erase n k) = h.version n := by
      rw [History.edited, show (h.version n).map.erase? k = none from hnone]
    refine ⟨by rw [HashTrie.erase, hnone]; rfl, ?_⟩
    rw [← hedited, version, History.apply, Array.getElem?_push, if_pos rfl]
    rfl

/-- Keys that bring their hash with them, so that any two can be
made to collide. -/
structure Labelled where
  label : Nat
  hash : UInt32
deriving DecidableEq

instance : TrieHash Labelled := ⟨Labelled.hash⟩

instance : LawfulTrieHash Labelled where
  hash_eq h := congrArg Labelled.hash (eq_of_beq h)

/-- Two keys collide in all digits and a third shares their lowest one. After
the first has been removed twice, the version before and the version after
are the same. -/
theorem version_agrees_with_plain_labelled :
    let edits : List (Edit Labelled Nat) :=
      [.insert 0 ⟨0, 1⟩ 10, .insert 1 ⟨1, 1⟩ 11, .insert 2 ⟨2, 33⟩ 12,
        .erase 3 ⟨0, 1⟩]
    let h : History Labelled Nat := start.run edits
    let m := (h.version 4).map
    m.size = 2 ∧ m.get? ⟨1, 1⟩ = some 11 ∧ m.contains ⟨0, 1⟩ = false ∧
      (h.apply (.erase 4 ⟨0, 1⟩)).version 5 = h.version 4 ∧
      (h.version 3).map.size = 3 := by
  intro edits h m
  obtain ⟨_, hget, hcontains, hsize, _, herase, _⟩ :=
    version_agrees_with_plain edits 4
  have habsent : m.contains ⟨0, 1⟩ = false := (hcontains _).trans (by decide)
  have h3 := (version_agrees_with_plain edits 3).2.2.2.1
  exact ⟨hsize.trans (by decide), (hget _).trans (by decide), habsent,
    (herase _ habsent).2, h3.trans (by decide)⟩

end History

end TinyLisp.HashTrie
