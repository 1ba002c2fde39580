import TinyLisp.Pattern.Bind
import TinyLisp.Builtin.Mapping
import TinyLisp.Proofs.HashTrie.Order
import TinyLisp.Proofs.Value.Built

/-!
# Looking a key up

A key is looked up along its hash, and if that finds nothing, by a search
through all entries. The search never finds anything: an entry with an equal key
has the hash of the key and stands where the hash leads. This holds of all maps
that can be built, whatever their keys, also of keys that are not equal to
themselves; such a key is not found, and there may be several entries for it.

So what is seen of a map by looking things up is what setting and removing keys
work on. The entry that is found is the one that is replaced, in its place, or
taken out, and all others stay as they are.
-/

namespace TinyLisp

/-! ## Lists of entries -/

namespace AssocList

variable {K V : Type} {same : K → K → Bool}

/-- `es` has an entry for `k`, the first, with value `v`, and stands
apart around it. -/
structure Splits (same : K → K → Bool) (k : K) (v : V)
    (es before after : List (K × V)) (key : K) : Prop where
  eq : es = before ++ (key, v) :: after
  same_key : same key k = true
  first : ∀ e ∈ before, same e.1 k = false

theorem find?_eq_some_iff {k : K} {v : V} {es : List (K × V)} :
    find? same k es = some v ↔
      ∃ before key after, Splits same k v es before after key := by
  induction es with
  | nil =>
      refine ⟨(fun h => by cases h), ?_⟩
      rintro ⟨before, key, after, h, -, -⟩
      simp at h
  | cons e es ih =>
      rw [find?]
      split
      · next hs =>
          constructor
          · intro h
            obtain rfl := Option.some.inj h
            exact ⟨[], e.1, es, rfl, hs, List.forall_mem_nil _⟩
          · rintro ⟨before, key, after, h, hkey, hfirst⟩
            cases before with
            | nil => obtain ⟨rfl, -⟩ := List.cons.inj h; rfl
            | cons b before =>
                obtain ⟨rfl, -⟩ := List.cons.inj h
                rw [hfirst e List.mem_cons_self] at hs
                cases hs
      · next hs =>
          rw [ih]
          constructor
          · rintro ⟨before, key, after, rfl, hkey, hfirst⟩
            exact ⟨e :: before, key, after, rfl, hkey,
              List.forall_mem_cons.mpr ⟨Bool.eq_false_iff.mpr hs, hfirst⟩⟩
          · rintro ⟨before, key, after, h, hkey, hfirst⟩
            cases before with
            | nil =>
                obtain ⟨rfl, -⟩ := List.cons.inj h
                exact absurd hkey hs
            | cons b before =>
                obtain ⟨rfl, rfl⟩ := List.cons.inj h
                exact ⟨before, key, after, rfl, hkey,
                  (List.forall_mem_cons.mp hfirst).2⟩

theorem find?_eq_none_iff {k : K} {es : List (K × V)} :
    find? same k es = none ↔ ∀ e ∈ es, same e.1 k = false := by
  rw [← contains_eq_false_iff, contains_eq_isSome_find?,
    Option.isSome_eq_false_iff, Option.isNone_iff_eq_none]

variable {k key : K} {v : V} {es before after : List (K × V)}

theorem Splits.insert_eq (h : Splits same k v es before after key) (w : V) :
    insert same k w es = before ++ (k, w) :: after := by
  obtain ⟨rfl, hkey, hfirst⟩ := h
  induction before with
  | nil => rw [List.nil_append, insert, if_pos hkey, List.nil_append]
  | cons e before ih =>
      obtain ⟨he, hfirst⟩ := List.forall_mem_cons.mp hfirst
      rw [List.cons_append, insert, if_neg (by rw [he]; decide), ih hfirst,
        List.cons_append]

theorem Splits.erase_eq (h : Splits same k v es before after key) :
    erase same k es = before ++ after := by
  obtain ⟨rfl, hkey, hfirst⟩ := h
  induction before with
  | nil => rw [List.nil_append, erase, if_pos hkey, List.nil_append]
  | cons e before ih =>
      obtain ⟨he, hfirst⟩ := List.forall_mem_cons.mp hfirst
      rw [List.cons_append, erase, if_neg (by rw [he]; decide), ih hfirst,
        List.cons_append]

end AssocList

/-! ## Entries after an edit -/

namespace HashTrie

variable {K V : Type} [BEq K] [TrieHash K] {P : K → Prop} (law : LawfulOn P)
  {m : HashTrie K V} {key : K}
include law

/-- Removing a key takes its entry out of the walk and leaves the others
in their order. -/
theorem Represents.entries_erase (h : Represents P m m.entries) (hkey : P key) :
    (m.erase key).entries = AssocList.erase (· == ·) key m.entries := by
  have herase := h.erase law hkey
  exact herase.buckets.eq_of_sorted herase.wellFormed.sorted
    (h.wellFormed.sorted.sublist (AssocList.erase_sublist key m.entries))

/-- Setting a key that is there puts the new entry in the place of
the old one. -/
theorem Represents.entries_insert (h : Represents P m m.entries) (hkey : P key)
    {v : V} {before after : List (K × V)} {key' : K}
    (hs : AssocList.Splits (· == ·) key v m.entries before after key') (w : V) :
    (m.insert key w).entries = before ++ (key, w) :: after := by
  have hinsert := h.insert law hkey w
  rw [hs.insert_eq] at hinsert
  refine hinsert.buckets.eq_of_sorted hinsert.wellFormed.sorted ?_
  -- The new key has the hash of the old one, so the hashes are still in order.
  have hmem : (key', v) ∈ m.entries := by
    rw [hs.eq]
    exact List.mem_append_right _ List.mem_cons_self
  have hhash : trieHash key' = trieHash key :=
    law.hash_eq (h.keys _ hmem) hkey hs.same_key
  have hsorted := List.pairwise_map (R := fun a b => hashLE a b = true).mpr
    h.wellFormed.sorted
  rw [hs.eq, List.map_append, List.map_cons, hhash] at hsorted
  refine List.pairwise_map (R := fun a b => hashLE a b = true).mp ?_
  rw [List.map_append, List.map_cons]
  exact hsorted

end HashTrie

/-! ## Maps of the language -/

namespace ValueMap

open HashTrie (BuiltFrom)
open Value (Built lawfulOn_built represents_of_builtFrom)
open Mapping

variable {m : ValueMap} {k : Value}

theorem get?_eq_find? (hm : BuiltFrom Built Built m) (hk : k.Built) :
    m.get? k = AssocList.find? Value.beq k m.entries :=
  (represents_of_builtFrom hm).get?_eq lawfulOn_built hk

/-- The search behind the look-up along the hash finds nothing that this
has not found. -/
theorem lookup_eq_get? (hm : BuiltFrom Built Built m) (hk : k.Built) :
    lookup m k = m.get? k := by
  rw [lookup, ← get?_eq_find? hm hk, Option.or_self]

/-- What is found under a key is what setting the key replaces and removing
it takes out. -/
theorem get?_eq_some_iff (hm : BuiltFrom Built Built m) (hk : k.Built)
    {v : Value} :
    m.get? k = some v ↔ ∃ before key after,
      AssocList.Splits Value.beq k v m.entries before after key ∧
      (∀ w, (m.insert k w).entries = before ++ (k, w) :: after) ∧
      (m.erase k).entries = before ++ after := by
  have hrep := represents_of_builtFrom hm
  rw [get?_eq_find? hm hk, AssocList.find?_eq_some_iff]
  refine exists_congr fun before => exists_congr fun key =>
    exists_congr fun after => ?_
  refine ⟨fun h => ⟨h, hrep.entries_insert lawfulOn_built hk h, ?_⟩, And.left⟩
  rw [← h.erase_eq]
  exact hrep.entries_erase lawfulOn_built hk

/-- Where nothing is found under a key, setting it adds an entry to the others
and removing it changes nothing. -/
theorem get?_eq_none_iff (hm : BuiltFrom Built Built m) (hk : k.Built) :
    m.get? k = none ↔ (∀ e ∈ m.entries, (e.1 == k) = false) ∧ m.erase k = m ∧
      ∀ w, List.Perm (m.insert k w).entries (m.entries ++ [(k, w)]) := by
  have hrep := represents_of_builtFrom hm
  rw [get?_eq_find? hm hk, AssocList.find?_eq_none_iff]
  refine ⟨fun h => ⟨h, ?_, fun w => ?_⟩, And.left⟩
  · have hnone := (hrep.erase?_eq_none_iff lawfulOn_built hk).mpr
      (AssocList.contains_eq_false_iff.mpr h)
    rw [HashTrie.erase, hnone]
    rfl
  · rw [← AssocList.insert_of_not_contains
      (AssocList.contains_eq_false_iff.mpr h)]
    exact (hrep.insert lawfulOn_built hk w).buckets.perm

theorem get?_erase_self (hm : BuiltFrom Built Built m) (hk : k.Built) :
    (m.erase k).get? k = none := by
  cases hget : m.get? k with
  | none => rw [((get?_eq_none_iff hm hk).mp hget).2.1, hget]
  | some v =>
      have hrep := represents_of_builtFrom hm
      obtain ⟨before, key, after, hsplits, -, herase⟩ :=
        (get?_eq_some_iff hm hk).mp hget
      rw [get?_eq_find? (.erase hm hk) hk, herase, AssocList.find?_eq_none_iff]
      have hdistinct := hrep.distinct
      have hkeys := hrep.keys
      rw [hsplits.eq] at hdistinct hkeys
      have hkey : key.Built :=
        hkeys (key, v) (List.mem_append_right _ List.mem_cons_self)
      intro e he
      rcases List.mem_append.mp he with he | he
      · exact hsplits.first e he
      · -- A later entry for the key would have a key equal to the one that was
        -- removed.
        refine Bool.eq_false_iff.mpr fun heq => ?_
        have hmem :=
          List.mem_append_right before (List.mem_cons_of_mem (key, v) he)
        have hke := lawfulOn_built.trans hkey hk (hkeys e hmem) hsplits.same_key
          (lawfulOn_built.symm (hkeys e hmem) hk heq)
        have hne :=
          (List.pairwise_cons.mp (List.pairwise_append.mp hdistinct).2.1).1 e he
        exact Bool.eq_false_iff.mp hne hke

theorem fetch_eq (hm : BuiltFrom Built Built m) (hk : k.Built)
    {defaults : Option ValueMap}
    (hd : ∀ ds, defaults = some ds → BuiltFrom Built Built ds)
    (eval : Pattern.Evaluate) (scope : Scope) (name? : Option String) :
    Pattern.fetch eval scope m defaults k name? =
      (m.get? k).elim
      ((name?.bind fun name => defaults.bind (·.get? (.symbol name none))).elim
        (pure .nil) (eval · scope)) pure := by
  unfold Pattern.fetch
  rw [lookup_eq_get? hm hk]
  cases m.get? k with
  | some v => rfl
  | none =>
      cases name? with
      | none => rfl
      | some name => cases defaults with
        | none => rfl
        | some ds =>
            have hname : (Value.symbol name none).Built := .leaf rfl rfl
            dsimp only [Option.elim, Option.bind]
            rw [lookup_eq_get? (hd ds rfl) hname]
            cases ds.get? (.symbol name none) <;> rfl

/-- Looking a key up finds what the hash leads to, which is the value of the
first entry with an equal key; the search behind it adds nothing. Setting the
key replaces this very entry in its place, and removing the key takes out this
entry and no other; if none is found, the one adds an entry and the other
changes nothing. `get`, `contains?`, calls of keywords and patterns see a map
only by this, so a key that has been removed is not there. -/
theorem lookup_along_hash (hm : BuiltFrom Built Built m) (hk : k.Built) :
    lookup m k = m.get? k ∧ m.get? k = AssocList.find? Value.beq k m.entries ∧
    (∀ v, m.get? k = some v ↔
      ∃ before key after, m.entries = before ++ (key, v) :: after ∧
      (key == k) = true ∧ (∀ e ∈ before, (e.1 == k) = false) ∧
      (∀ w, (m.insert k w).entries = before ++ (k, w) :: after) ∧
      (m.erase k).entries = before ++ after) ∧
    (m.get? k = none ↔ (∀ e ∈ m.entries, (e.1 == k) = false) ∧ m.erase k = m ∧
      ∀ w, List.Perm (m.insert k w).entries (m.entries ++ [(k, w)])) ∧
    (∀ s notFound, getOf [.map m s, k] = .ok ((m.get? k).getD .nil) ∧
      getOf [.map m s, k, notFound] = .ok ((m.get? k).getD notFound) ∧
      containsOf [.map m s, k] = .ok (.bool (m.get? k).isSome)) ∧
    (∀ name s notFound,
      keywordCall name [.map m s] = .ok ((m.get? (.keyword name)).getD .nil) ∧
      keywordCall name [.map m s, notFound] =
        .ok ((m.get? (.keyword name)).getD notFound)) ∧
    (∀ defaults, (∀ ds, defaults = some ds → BuiltFrom Built Built ds) →
      ∀ eval scope name?,
      Pattern.fetch eval scope m defaults k name? =
        (m.get? k).elim ((name?.bind fun name =>
          defaults.bind (·.get? (.symbol name none))).elim
          (pure .nil) (eval · scope)) pure) ∧
    ∀ coll, Arguments.mapping "dissoc" coll = .ok m →
      dissocOf [coll, k] = .ok (.map (m.erase k) none) ∧
      containsOf [.map (m.erase k) none, k] = .ok (.bool false) := by
  have hkeyword (name : String) : (Value.keyword name).Built := .leaf rfl rfl
  have hcontains {m : ValueMap} (hm : BuiltFrom Built Built m)
      (s : Option Span) :
      containsOf [.map m s, k] = .ok (.bool (m.get? k).isSome) := by
    rw [← lookup_eq_get? hm hk]
    rfl
  refine ⟨lookup_eq_get? hm hk, get?_eq_find? hm hk, fun v => ?_,
    get?_eq_none_iff hm hk, fun s notFound => ⟨?_, ?_, hcontains hm s⟩,
    fun name s notFound => ⟨?_, ?_⟩, fun defaults hd eval scope name? =>
      fetch_eq hm hk hd eval scope name?,
    fun coll hcoll => ⟨?_, ?_⟩⟩
  · rw [get?_eq_some_iff hm hk]
    refine exists_congr fun before => exists_congr fun key =>
      exists_congr fun after => ?_
    exact ⟨fun ⟨h, hedits⟩ => ⟨h.eq, h.same_key, h.first, hedits⟩,
      fun ⟨heq, hkey, hfirst, hedits⟩ => ⟨⟨heq, hkey, hfirst⟩, hedits⟩⟩
  · rw [← lookup_eq_get? hm hk]
    rfl
  · rw [← lookup_eq_get? hm hk]
    rfl
  · rw [← lookup_eq_get? hm (hkeyword name)]
    rfl
  · rw [← lookup_eq_get? hm (hkeyword name)]
    rfl
  · rw [dissocOf, hcoll]
    rfl
  · rw [hcontains (.erase hm hk), get?_erase_self hm hk]
    rfl

/-- A map with two entries under not-a-number and one under `[0.0]`. The list
`(-0.0)` is found, set and removed there; not-a-number is neither found nor
removed, so both its entries stay. -/
theorem lookup_along_hash_nan :
    let nan : Value := .number Number.nan
    let m : ValueMap := .ofList
      [(nan, .number 1), (.vectorOf [.number 0.0], .string "x"), (nan, .nil)]
    let k : Value := .list [.number (-0.0)] none
    lookup m k = some (.string "x") ∧ m.erase nan = m ∧ lookup m nan = none ∧
      containsOf [.map (m.erase k) none, k] = .ok (.bool false) ∧
      (m.erase k).entries.length = 2 := by
  intro nan m k
  have hleaf : nan.Built ∧ (Value.number 0.0).Built ∧
      (Value.number (-0.0)).Built ∧
      (Value.number 1).Built ∧ (Value.string "x").Built ∧ Value.nil.Built :=
    ⟨.leaf rfl rfl, .leaf rfl rfl, .leaf rfl rfl, .leaf rfl rfl, .leaf rfl rfl,
      .leaf rfl rfl⟩
  have hvector : (Value.vectorOf [.number 0.0]).Built :=
    .items rfl (by simp [hleaf])
  have hm : BuiltFrom Built Built m :=
    HashTrie.builtFrom_ofList (by simp [hleaf, hvector])
  have hk : k.Built := .items rfl (by simp [hleaf])
  obtain ⟨hlookup, hget, -, -, -, -, -, herase⟩ := lookup_along_hash hm hk
  obtain ⟨hlookup', hget', -, hnone, -, -, -, -⟩ := lookup_along_hash hm hleaf.1
  have hnan : m.get? nan = none := hget'.trans (by subst m nan; rfl)
  exact ⟨(hlookup.trans hget).trans (by subst m k nan; rfl), (hnone.mp hnan).2.1,
    hlookup'.trans hnan, (herase (.map m none) rfl).2, by decide⟩

end ValueMap

end TinyLisp
