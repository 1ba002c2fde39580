import TinyLisp.Proofs.Value.Equality

/-!
# Values that programs can build

No program sees the inside of a trie. The maps it can get hold of come from
the empty one by setting and removing keys, with keys and values that were
made in the same way. Such values are sound, so everything proved of sound
values holds of them.

The induction is on how a value was made and not on its depth: a map may have
held keys that are nested deeper than all it holds now.
-/

namespace TinyLisp

namespace HashTrie

variable {K V : Type} [BEq K] [TrieHash K] {P : K → Prop} {Q : V → Prop}

/-- The maps that come from the empty one by setting and removing keys.
All keys that were ever used satisfy `P`, and all values that were ever
set satisfy `Q`. -/
inductive BuiltFrom (P : K → Prop) (Q : V → Prop) : HashTrie K V → Prop where
  | empty : BuiltFrom P Q empty
  | insert {m : HashTrie K V} {key : K} {value : V} (h : BuiltFrom P Q m)
      (hk : P key) (hv : Q value) : BuiltFrom P Q (m.insert key value)
  | erase {m : HashTrie K V} {key : K} (h : BuiltFrom P Q m) (hk : P key) :
      BuiltFrom P Q (m.erase key)

theorem builtFrom_ofList {ps : List (K × V)} (h : ∀ p ∈ ps, P p.1 ∧ Q p.2) :
    BuiltFrom P Q (ofList ps) := by
  suffices ∀ m : HashTrie K V, BuiltFrom P Q m →
      BuiltFrom P Q (ps.foldl (fun m p => m.insert p.1 p.2) m)
        from this empty .empty
  induction ps with
  | nil => exact fun _ hm => hm
  | cons p ps ih =>
      intro m hm
      obtain ⟨hk, hv⟩ := h p List.mem_cons_self
      exact ih (fun q hq => h q (List.mem_cons_of_mem p hq)) _ (hm.insert hk hv)

theorem BuiltFrom.represents (law : LawfulOn P) {m : HashTrie K V}
    (h : BuiltFrom P Q m) : ∃ es, Represents P m es ∧ ∀ e ∈ es, Q e.2 := by
  induction h with
  | empty => exact ⟨[], represents_empty P, nofun⟩
  | @insert m key value _ hk hv ih =>
      obtain ⟨es, hes, hq⟩ := ih
      refine ⟨_, hes.insert law hk value, fun e he => ?_⟩
      rcases AssocList.mem_insert he with rfl | he
      · exact hv
      · exact hq e he
  | erase _ hk ih =>
      obtain ⟨es, hes, hq⟩ := ih
      exact ⟨_, hes.erase law hk, fun e he =>
        hq e ((AssocList.erase_sublist _ es).subset he)⟩

end HashTrie

namespace Value

open HashTrie (BuiltFrom LawfulOn Represents)
open AssocList (Distinct)

/-- The values in which every map was built by setting and removing keys. -/
inductive Built : Value → Prop where
  | leaf {v : Value} (hi : v.items? = none)
      (he : v.entriesBy? Value.beq = none) : Built v
  | items {v : Value} {xs : List Value} (h : v.items? = some xs)
      (hxs : ∀ x ∈ xs, Built x) : Built v
  | map {m : HashTrie Value Value} (s : Option Span)
      (hm : BuiltFrom Built Built m) : Built (.map m s)
  | mapForm {ps : List (Value × Value)} (s : Option Span)
      (hk : ∀ p ∈ ps, Built p.1) (hv : ∀ p ∈ ps, Built p.2) :
      Built (.mapForm ps s)

theorem sound_map {m : HashTrie Value Value} (h : BuiltFrom Sound Sound m)
    (s : Option Span) : Sound (.map m s) := by
  obtain ⟨es, hes, hvalues⟩ := h.represents lawfulOn_sound
  have hself := hes.entries lawfulOn_sound
  exact .map s hself.wellFormed hself.distinct hself.keys fun e he =>
    hvalues e (hes.buckets.perm.mem_iff.mp he)

theorem Built.sound {v : Value} (h : Built v) : Sound v := by
  refine @Built.rec (fun v _ => Sound v) (fun m _ => BuiltFrom Sound Sound m)
    (fun hi he => .leaf hi he) (fun h _ ih => .items h ih)
    (fun s _ ih => sound_map ih s) (fun s _ _ ihk ihv => .mapForm s ihk ihv)
    .empty (fun _ _ _ ih ihk ihv => ih.insert ihk ihv)
    (fun _ _ ih ihk => ih.erase ihk) v h

theorem lawfulOn_built : LawfulOn Built where
  symm ha hb := lawfulOn_sound.symm ha.sound hb.sound
  trans ha hb hc := lawfulOn_sound.trans ha.sound hb.sound hc.sound
  hash_eq ha hb := lawfulOn_sound.hash_eq ha.sound hb.sound

theorem represents_of_builtFrom {m : HashTrie Value Value}
    (h : BuiltFrom Built Built m) : Represents Built m m.entries := by
  obtain ⟨es, hes, -⟩ := h.represents lawfulOn_built
  exact hes.entries lawfulOn_built

/-! ## Hashes -/

/-- Equal values have equal hashes. -/
theorem trieHash_eq_of_beq {a b : Value} (ha : a.Built) (hb : b.Built)
    (h : (a == b) = true) : trieHash a = trieHash b :=
  lawfulOn_built.hash_eq ha hb h

/-- A vector that holds a map and a list that holds a literal. A key is `0.0` in
a list on one side and `-0.0` in a vector on the other, and the literal has a
pair that a later one hides. -/
theorem trieHash_eq_of_beq_literal :
    let a := vectorOf [.map (.ofList [(.list [.number 0.0] none, .string "x"),
      (.keyword "k", .nil)]) none]
    let b := list [.mapForm [(.keyword "k", .bool true),
      (vectorOf [.number (-0.0)], .string "x"), (.keyword "k", .nil)] none] none
    (a == b) = true ∧ trieHash a = trieHash b := by
  intro a b
  have hleaf : Built nil ∧ Built (.keyword "k") ∧ Built (.string "x") ∧
      Built (.bool true) :=
    ⟨.leaf rfl rfl, .leaf rfl rfl, .leaf rfl rfl, .leaf rfl rfl⟩
  have hzero : Built (.list [.number 0.0] none) ∧
      Built (vectorOf [.number (-0.0)]) :=
    ⟨.items rfl (by simpa using .leaf rfl rfl),
      .items rfl (by simpa using .leaf rfl rfl)⟩
  have ha : Built a :=
    .items rfl (by
      simpa using .map none
        (HashTrie.builtFrom_ofList (by simp [hleaf, hzero])))
  have hb : Built b :=
    .items rfl (by
      simpa using .mapForm none (by simp [hleaf, hzero]) (by simp [hleaf]))
  have heq : (a == b) = true := by decide
  exact ⟨heq, trieHash_eq_of_beq ha hb heq⟩

end Value

end TinyLisp
