import TinyLisp.Proofs.HashTrie.Extensional
import TinyLisp.Proofs.Store.Agreement
import TinyLisp.Proofs.Value.Lookup
import TinyLisp.Proofs.Value.Render
import TinyLisp.Proofs.Value.SelfEquality

/-!
# What a map lists and what it finds

A map can be walked and it can be asked for keys, and these go different ways
through the trie. They agree if every key is equal to itself, as it is where
not-a-number does not come in: then a key that is listed is found, with the
value that is listed beside it, and removing it takes out this entry.

So a map can be taken apart key by key until nothing is left, and what is left
then is the empty map itself, since a trie has no node without entries. And it
can be put together again: the entries come in the order of the walk, so that
each goes to the end of its bucket and the new map is walked in this order too.
-/

namespace TinyLisp

namespace HashTrie

variable {K V : Type}

theorem zip_keys_values (m : HashTrie K V) :
    m.keys.zip m.values = m.entries := by
  rw [keys, values, List.zip_map', List.map_id']

section

variable [TrieHash K]

theorem Node.WellFormed.entries_ne_nil {way : List Nat} {n : Node K V}
    (h : n.WellFormed way) : n.entries ≠ [] := by
  induction h with
  | terminal ht _ => cases ht with
    | leaf _ => exact List.cons_ne_nil _ _
    | collision htwo _ =>
        rintro rfl
        exact absurd htwo (Nat.not_succ_le_zero 1)
  | @branch way b cs _ hne hlength _ ih =>
      cases cs with
      | nil => exact absurd rfl hne
      | cons c cs => cases hslots : usedSlots b with
        | nil =>
            rw [hslots] at hlength
            cases hlength
        | cons slot slots =>
            have hc := ih (slot, c) (by rw [hslots]; exact List.mem_cons_self)
            exact List.append_ne_nil_of_left_ne_nil hc _

theorem WellFormed.eq_empty {m : HashTrie K V} (h : m.WellFormed)
    (hentries : m.entries = []) : m = empty := by
  obtain ⟨hroot, hsize⟩ := h
  obtain ⟨root, size⟩ := m
  cases root with
  | none =>
      obtain rfl : size = 0 := hsize
      rfl
  | some n => exact absurd hentries (hroot n rfl).entries_ne_nil

end

section

variable [BEq K] [TrieHash K] {P : K → Prop} (law : LawfulOn P)
  {m : HashTrie K V}
include law

theorem Represents.entries_ofList (h : Represents P m m.entries) :
    (ofList m.entries).entries = m.entries := by
  have hrep := represents_ofList_of_distinct law h.keys h.distinct
  exact hrep.buckets.eq_of_sorted hrep.wellFormed.sorted h.wellFormed.sorted

theorem Represents.get?_of_listed (h : Represents P m m.entries) {e : K × V}
    (he : e ∈ m.entries) (hself : (e.1 == e.1) = true) :
    m.get? e.1 = some e.2 := by
  rw [h.get?_eq law (h.keys e he)]
  exact find?_of_mem law h.keys h.distinct (h.keys e he) he hself

/-- Removing the key that is listed first leaves the others. -/
theorem Represents.entries_erase_head (h : Represents P m m.entries) {e : K × V}
    {es : List (K × V)} (hes : m.entries = e :: es)
    (hself : (e.1 == e.1) = true) : (m.erase e.1).entries = es := by
  have hkey : P e.1 := h.keys e (by rw [hes]; exact List.mem_cons_self)
  rw [h.entries_erase law hkey, hes, AssocList.erase, if_pos hself]

end

end HashTrie

/-! ## Maps of the language -/

namespace ValueMap

open HashTrie (BuiltFrom)
open Value (Built lawfulOn_built represents_of_builtFrom)

variable {m : ValueMap}

theorem lookup_of_listed (hm : BuiltFrom Built Built m) {e : Value × Value}
    (he : e ∈ m.entries) (hself : (e.1 == e.1) = true) :
    lookup m e.1 = some e.2 := by
  have hrep := represents_of_builtFrom hm
  rw [lookup_eq_get? hm (hrep.keys e he)]
  exact hrep.get?_of_listed lawfulOn_built he hself

theorem isSome_lookup_iff (hm : BuiltFrom Built Built m) {k : Value}
    (hk : k.Built) :
    (lookup m k).isSome = true ↔ ∃ k' ∈ m.keys, (k' == k) = true := by
  rw [lookup_eq_get? hm hk, get?_eq_find? hm hk,
    ← AssocList.contains_eq_isSome_find?, AssocList.contains, List.any_eq_true,
    HashTrie.keys]
  simp only [List.mem_map, exists_exists_and_eq_and]
  exact Iff.rfl

/-- Put together again, a map is equal to what it was, since everything that is
listed is found. -/
theorem beq_ofList_entries (hm : BuiltFrom Built Built m) (place : Option Span)
    (hself : ∀ e ∈ m.entries, (e.1 == e.1) = true ∧ (e.2 == e.2) = true) :
    (Value.map (.ofList m.entries) none == .map m place) = true := by
  have hrep := represents_of_builtFrom hm
  have hkeyed := (Built.map place hm).keyed rfl
  have hbuilt : BuiltFrom Built Built (.ofList m.entries) :=
    HashTrie.builtFrom_ofList fun e he => ⟨hkeyed.keys e he, hkeyed.values e he⟩
  have hentries := hrep.entries_ofList lawfulOn_built
  rw [Value.beq_map hbuilt hm, hentries, Bool.and_eq_true, beq_iff_eq,
    List.all_eq_true]
  refine ⟨?_, fun e he => ?_⟩
  · rw [(represents_of_builtFrom hbuilt).size_eq, hrep.size_eq, hentries]
  · obtain ⟨hkey, hvalue⟩ := hself e he
    rw [lookup_of_listed hm he hkey]
    exact hvalue

/-- Removing all keys one after the other leaves the empty map. -/
theorem foldl_erase_keys (hm : BuiltFrom Built Built m)
    (hself : ∀ e ∈ m.entries, (e.1 == e.1) = true) :
    m.keys.foldl HashTrie.erase m = {} := by
  rw [HashTrie.keys]
  generalize hes : m.entries = es at hself
  induction es generalizing m with
  | nil => exact (represents_of_builtFrom hm).wellFormed.eq_empty hes
  | cons e es ih =>
      have hrep := represents_of_builtFrom hm
      obtain ⟨he, hself⟩ := List.forall_mem_cons.mp hself
      have hkey : e.1.Built :=
        hrep.keys e (by rw [hes]; exact List.mem_cons_self)
      exact ih (.erase hm hkey)
        (hrep.entries_erase_head lawfulOn_built hes he) hself

end ValueMap

/-! ## The functions on maps -/

/-- Called with these arguments, a function gives this value and
does nothing else. -/
def Primitive.Returns (p : Primitive) (args : List Value) (v : Value) : Prop :=
  ∀ apply s, (Builtin.primitive p).call apply args s = .result v s

theorem Primitive.returns_of_ok {p : Primitive} {args : List Value}
    {x : Except Fault Value} {v : Value} (hp : p.call args = .ofExcept x)
    (hx : x = .ok v) : p.Returns args v := by
  intro apply s
  show HeapAction.lift (p.call args) s = _
  rw [hp, hx]
  rfl

namespace Mapping

open HashTrie (BuiltFrom)
open Primitive (Returns)
open Value (Built HoldsNaN inRow lawfulOn_built represents_of_builtFrom)

theorem addPairs_inRow (name : String) (m : ValueMap)
    (es : List (Value × Value)) :
    addPairs name m (inRow es) =
      .ok (es.foldl (fun m e => m.insert e.1 e.2) m) := by
  induction es generalizing m with
  | nil => rfl
  | cons e es ih => rw [Value.inRow_cons, addPairs, ih, List.foldl_cons]

theorem get_returns {args : List Value} {v : Value} (h : getOf args = .ok v) :
    Returns .get args v :=
  Primitive.returns_of_ok (x := getOf args) rfl h

theorem hashMap_returns (es : List (Value × Value)) :
    Returns .hashMap (inRow es) (.map (.ofList es) none) := by
  refine Primitive.returns_of_ok rfl ?_
  rw [hashMapOf, addPairs_inRow]
  rfl

/-- Removing keys in as many calls comes to the same as removing them in one. -/
theorem foldlM_dissoc (keys : List Value) (m : ValueMap) (place : Option Span) :
    ∃ place', ∀ apply s, keys.foldlM
      (fun coll k => (Builtin.primitive .dissoc).call apply [coll, k])
      (Value.map m place) s =
        .result (.map (keys.foldl HashTrie.erase m) place') s := by
  induction keys generalizing m place with
  | nil => exact ⟨place, fun _ _ => rfl⟩
  | cons k keys ih =>
      obtain ⟨place', h⟩ := ih (m.erase k) none
      refine ⟨place', fun apply s => ?_⟩
      rw [List.foldlM_cons, List.foldl_cons, ← h apply s]
      rfl

/-- In a map without not-a-number, what `keys` and `vals` list side by side is
what `get` finds, and `contains?` finds no other key. The lists are as long as
`count` says and no key comes twice. From them `hash-map` makes an equal map
with the same text, and to remove all the keys is to get to the empty map. -/
theorem listed_iff_found {m : ValueMap} (hm : BuiltFrom Built Built m)
    (place : Option Span) (hnan : ¬ HoldsNaN (.map m place)) :
    Returns .keys [.map m place] (.vectorOf m.keys) ∧
    Returns .vals [.map m place] (.vectorOf m.values) ∧
    Returns .count [.map m place] (.number (Float.ofNat m.keys.length)) ∧
    m.values.length = m.keys.length ∧
    (m.keys.Pairwise fun k k' => (k == k') = false) ∧
    (∀ (i : Nat) k v, m.keys[i]? = some k → m.values[i]? = some v →
      ∀ notFound, Returns .get [.map m place, k, notFound] v) ∧
    (∀ k : Value, k.Built →
      ∃ found : Bool, Returns .contains [.map m place, k] (.bool found) ∧
      (found = true ↔ ∃ k' ∈ m.keys, (k' == k) = true) ∧
      (found = false →
        ∀ notFound, Returns .get [.map m place, k, notFound] notFound)) ∧
    (∃ m', Returns .hashMap (inRow (m.keys.zip m.values)) (.map m' none) ∧
      Returns .same [.map m' none, .map m place] (.bool true) ∧
      ∀ cells readable, (Value.map m' none).render cells readable =
        (Value.map m place).render cells readable) ∧
    Returns .dissoc (.map m place :: m.keys) (.map {} none) ∧
    ∃ place', ∀ apply s, m.keys.foldlM
      (fun coll k => (Builtin.primitive .dissoc).call apply [coll, k])
      (Value.map m place) s =
        .result (.map {} place') s := by
  have hrep := represents_of_builtFrom hm
  have hkeyed := (Built.map place hm).keyed rfl
  have hself : ∀ e ∈ m.entries, (e.1 == e.1) = true ∧ (e.2 == e.2) = true := by
    refine fun e he => ⟨?_, ?_⟩
    · exact (Value.beq_self_iff (hkeyed.keys e he)).mpr fun h =>
        hnan (.key place he h)
    · exact (Value.beq_self_iff (hkeyed.values e he)).mpr fun h =>
        hnan (.value place he h)
  have herase := ValueMap.foldl_erase_keys hm fun e he => (hself e he).1
  refine ⟨fun _ _ => rfl, fun _ _ => rfl, fun _ s => ?_, ?_, ?_, ?_, ?_,
    ?_, ?_, ?_⟩
  · have hsize : m.keys.length = m.size := by
      rw [HashTrie.keys, List.length_map, hrep.size_eq]
    rw [hsize]
    rfl
  · rw [HashTrie.keys, HashTrie.values, List.length_map, List.length_map]
  · exact List.pairwise_map.mpr hrep.distinct
  · intro i k v hk hv notFound
    have he : (k, v) ∈ m.entries := by
      rw [← m.zip_keys_values]
      exact List.mem_of_getElem? (List.getElem?_zip_eq_some.mpr ⟨hk, hv⟩)
    refine get_returns ?_
    rw [getOf, find?, ValueMap.lookup_of_listed hm he (hself _ he).1,
      Option.getD_some]
  · intro k hk
    refine ⟨(ValueMap.lookup m k).isSome, fun _ _ => rfl,
      ValueMap.isSome_lookup_iff hm hk, ?_⟩
    intro hfound notFound
    refine get_returns ?_
    rw [getOf, find?,
      Option.isNone_iff_eq_none.mp (Option.isSome_eq_false_iff.mp hfound),
      Option.getD_none]
  · rw [m.zip_keys_values]
    refine ⟨.ofList m.entries, hashMap_returns _, fun apply s => ?_,
      fun cells readable => ?_⟩
    · have hchained : Arithmetic.chained Value.beq
          [.map (.ofList m.entries) none, .map m place] = true :=
        Bool.and_eq_true_iff.mpr ⟨ValueMap.beq_ofList_entries hm place hself, rfl⟩
      rw [Value.call_same (List.cons_ne_nil _ _), hchained]
    · rw [Value.render_map, Value.render_map, hrep.entries_ofList lawfulOn_built]
  · intro apply s
    rw [← herase]
    rfl
  · obtain ⟨place', h⟩ := foldlM_dissoc m.keys m place
    rw [herase] at h
    exact ⟨place', h⟩

/-- The number `1` and the empty vector have the same hash, and a third key has
come and gone. -/
theorem listed_iff_found_collision :
    let m : ValueMap :=
      (((HashTrie.empty.insert (.vectorOf []) .nil).insert (.string "gone")
        .nil).insert (.number 1) (.string "x")).erase (.string "gone")
    let one : Value := .number 1
    m.isCollision one = true ∧
      Returns .keys [.map m none] (.vectorOf [.vectorOf [], one]) ∧
      (∀ notFound, Returns .get [.map m none, .vectorOf [], notFound] .nil) ∧
      (∀ notFound,
        Returns .get [.map m none, .string "gone", notFound] notFound) ∧
      Returns .dissoc [.map m none, .vectorOf [], one] (.map {} none) ∧
      ∃ m',
        Returns .hashMap [.vectorOf [], .nil, one, .string "x"] (.map m' none) ∧
        (Value.map m' none).render #[] true = "\x7b[] nil 1 \"x\"\x7d" := by
  intro m one
  have hleaf : one.Built ∧ Value.nil.Built ∧ ∀ s, (Value.string s).Built :=
    ⟨.leaf rfl rfl, .leaf rfl rfl, fun _ => .leaf rfl rfl⟩
  have hm : BuiltFrom Built Built m :=
    .erase (.insert (.insert (.insert .empty (.items rfl nofun) hleaf.2.1)
      (hleaf.2.2 _) hleaf.2.1)
      hleaf.1 (hleaf.2.2 _)) (hleaf.2.2 _)
  have hnone : m.keys.all (fun k => !(k == .string "gone")) = true := by decide
  have hnan : ¬ (Value.map m none).HoldsNaN :=
    (Value.beq_self_iff (.map none hm)).mp (by decide)
  obtain ⟨hlisted, -, -, -, -, hget, hcontains, ⟨m', hrebuilt, -, htext⟩,
      hdissoc, -⟩ :=
    listed_iff_found hm none hnan
  obtain ⟨found, -, hfound, habsent⟩ := hcontains (.string "gone") (hleaf.2.2 _)
  refine ⟨by decide, hlisted, hget 0 _ _ rfl rfl, habsent ?_, hdissoc, m',
    hrebuilt, ?_⟩
  · refine Bool.eq_false_iff.mpr fun h => ?_
    obtain ⟨k, hk, hequal⟩ := hfound.mp h
    have hdiffer := List.all_eq_true.mp hnone k hk
    rw [hequal] at hdiffer
    cases hdiffer
  · rw [htext]
    decide

end Mapping

end TinyLisp
