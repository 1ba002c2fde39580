import TinyLisp.Proofs.Value.Built
import TinyLisp.Proofs.Value.Render
import TinyLisp.Token.Lexer
import TinyLisp.Reader.Atom
import TinyLisp.Value.Data

/-!
# Literal data and its copies

Literal data is what can be written down: no functions, atoms or host objects,
no numbers that are not finite, and no names that would be read as something
else. Its maps may have been built in any way.

A copy of a literal differs from it in nothing that a program could see. It has
its own spans; a zero may have changed its sign; a map may be a literal again,
its pairs in the order of the walk, or another trie of whatever shape, as long
as the walk through it comes by the same entries in the same order. Reading,
taking as data and evaluating all lead from copies to copies, and a copy is
equal to its original and has the same text.

That the order of the walk survives is the point where hashing comes in. Copies
of keys have the hashes of the keys, the walk goes by hashes, and among equal
hashes it keeps the order of insertion; so inserting the entries of a map in
the order of its walk gives a map with the same walk, whatever the first one
had been through.
-/

namespace TinyLisp.Value

open HashTrie (BuiltFrom hashLE)
open AssocList (Distinct)

/-- The text is one atom, and the atom stands for this value. -/
def IsAtomOf (text : String) (v : Span → Value) : Prop :=
  ∃ place, tokenize text "" = .ok [⟨.atom, text, place⟩] ∧
    Reader.classify text place = v place

/-- Data that can be written down. -/
inductive Literal : Value → Prop where
  | nil : Literal .nil
  | bool (b : Bool) : Literal (.bool b)
  /-- A finite number. If it is not written as an integer, its plain
  text reads back. -/
  | number {x : Float} (hx : x.isFinite = true)
      (hread : Number.integer? x = none →
        ∃ y, Number.read (Number.display x) = some y ∧ (y == x) = true) :
      Literal (.number x)
  | string (s : String) : Literal (.string s)
  | symbol {name : String} (s : Option Span)
      (h : IsAtomOf name fun place => .symbol name (some place)) :
      Literal (.symbol name s)
  | keyword {name : String}
      (h : IsAtomOf (":" ++ name) fun _ => .keyword name) :
      Literal (.keyword name)
  | list {xs : List Value} (s : Option Span) (h : ∀ x ∈ xs, Literal x) :
      Literal (.list xs s)
  | vector {xs : Items Value} (s : Option Span)
      (h : ∀ x ∈ xs.toList, Literal x) : Literal (.vector xs s)
  | map {m : HashTrie Value Value} (s : Option Span)
      (hm : BuiltFrom Built Built m) (h : ∀ x ∈ inRow m.entries, Literal x) :
      Literal (.map m s)

/-- The second value is the first, up to what cannot be seen. -/
inductive Copy : Value → Value → Prop where
  | nil : Copy .nil .nil
  | bool (b : Bool) : Copy (.bool b) (.bool b)
  | number {x y : Float} (h : (y == x) = true) : Copy (.number x) (.number y)
  | string (s : String) : Copy (.string s) (.string s)
  | symbol (name : String) (s t : Option Span) :
      Copy (.symbol name s) (.symbol name t)
  | keyword (name : String) : Copy (.keyword name) (.keyword name)
  | list {xs ys : List Value} (s t : Option Span)
      (h : List.Forall₂ Copy xs ys) : Copy (.list xs s) (.list ys t)
  | vector {xs ys : Items Value} (s t : Option Span)
      (h : List.Forall₂ Copy xs.toList ys.toList) :
      Copy (.vector xs s) (.vector ys t)
  | map {m m' : HashTrie Value Value} (s t : Option Span) (hm : m'.WellFormed)
      (h : List.Forall₂ Copy (inRow m.entries) (inRow m'.entries)) :
      Copy (.map m s) (.map m' t)
  | mapForm {m : HashTrie Value Value} {ps : List (Value × Value)}
      (s t : Option Span) (h : List.Forall₂ Copy (inRow m.entries) (inRow ps)) :
      Copy (.map m s) (.mapForm ps t)

/-! ## Lists in parallel -/

section Parallel

variable {R S : Value → Value → Prop}

theorem forall₂_of_mem {xs ys : List Value} (h : List.Forall₂ R xs ys)
    (himp : ∀ x ∈ xs, ∀ y, R x y → S x y) : List.Forall₂ S xs ys := by
  induction h with
  | nil => exact .nil
  | @cons x y xs ys hxy _ ih =>
      exact .cons (himp x List.mem_cons_self y hxy)
        (ih fun z hz => himp z (List.mem_cons_of_mem x hz))

theorem forall₂_inRow {es fs : List (Value × Value)}
    (h : List.Forall₂ R (inRow es) (inRow fs)) :
    List.Forall₂ (fun e f => R e.1 f.1 ∧ R e.2 f.2) es fs := by
  induction es generalizing fs with
  | nil => cases fs with
    | nil => exact .nil
    | cons f fs => cases h
  | cons e es ih => cases fs with
    | nil => cases h
    | cons f fs =>
        rw [inRow_cons, inRow_cons] at h
        cases h with
        | cons hkey h => cases h with
          | cons hvalue h => exact .cons ⟨hkey, hvalue⟩ (ih h)

theorem exists_parallel {α β γ : Type} {R : α → β → Prop} {S : α → γ → Prop}
    {T : β → γ → Prop} {xs : List α} {ys : List β} (h : List.Forall₂ R xs ys)
    (hex : ∀ x ∈ xs, ∀ y, R x y → ∃ z, S x z ∧ T y z) :
    ∃ zs, List.Forall₂ S xs zs ∧ List.Forall₂ T ys zs := by
  induction h with
  | nil => exact ⟨[], .nil, .nil⟩
  | @cons x y xs ys hxy _ ih =>
      obtain ⟨z, hS, hT⟩ := hex x List.mem_cons_self y hxy
      obtain ⟨zs, hSs, hTs⟩ := ih fun a ha => hex a (List.mem_cons_of_mem x ha)
      exact ⟨z :: zs, .cons hS hSs, .cons hT hTs⟩

/-- A list beside keys and values in a row is one of keys and values again. -/
theorem exists_inRow {es : List (Value × Value)} {ws : List Value}
    (h : List.Forall₂ R (inRow es) ws) : ∃ ps, ws = inRow ps := by
  induction es generalizing ws with
  | nil =>
      cases h
      exact ⟨[], rfl⟩
  | cons e es ih =>
      rw [inRow_cons] at h
      cases h with
      | @cons _ k _ _ _ h => cases h with
        | @cons _ v _ _ _ h =>
            obtain ⟨ps, rfl⟩ := ih h
            exact ⟨(k, v) :: ps, rfl⟩

end Parallel

/-! ## Copies are equal to their originals -/

theorem Literal.sound {v : Value} (h : Literal v) : Sound v := by
  induction h with
  | list s _ ih => exact .items rfl ih
  | vector s _ ih => exact .items rfl ih
  | @map m s hm _ ih =>
      have hrep := represents_of_builtFrom hm
      exact .map s hrep.wellFormed hrep.distinct
        (fun e he => ih _ (mem_inRow.mpr ⟨e, he, .inl rfl⟩))
        (fun e he => ih _ (mem_inRow.mpr ⟨e, he, .inr rfl⟩))
  | _ => exact .leaf rfl rfl

/-- A sound value that is equal to the first one. -/
def Equals (v w : Value) : Prop :=
  Sound w ∧ (w == v) = true

theorem sound_of_equals {xs ys : List Value} (h : List.Forall₂ Equals xs ys) :
    ∀ y ∈ ys, Sound y := by
  induction h with
  | nil => exact nofun
  | cons hxy _ ih => exact List.forall_mem_cons.mpr ⟨hxy.1, ih⟩

theorem isEqv_of_equals {xs ys : List Value} (h : List.Forall₂ Equals xs ys) :
    ys.isEqv xs Value.beq = true := by
  induction h with
  | nil => rfl
  | cons hxy _ ih => exact Bool.and_eq_true_iff.mpr ⟨hxy.2, ih⟩

section Entries

variable {es fs : List (Value × Value)}
  (h : List.Forall₂ (fun e f => Equals e.1 f.1 ∧ Equals e.2 f.2) es fs)
  (hes : Keyed Sound es)
include h hes

theorem keyed_of_equals : Keyed Sound fs := by
  have law := lawfulOn_sound
  refine ⟨fun f hf => ?_, fun f hf => ?_, ?_⟩
  · obtain ⟨e, _, he, -⟩ := exists_of_mem_right h hf
    exact he.1
  · obtain ⟨e, _, -, he⟩ := exists_of_mem_right h hf
    exact he.1
  · obtain ⟨hkeys, -, hd⟩ := hes
    induction h with
    | nil => exact .nil
    | @cons e f es fs hef h ih =>
        obtain ⟨hhead, htail⟩ := List.pairwise_cons.mp hd
        obtain ⟨he, hkeys⟩ := List.forall_mem_cons.mp hkeys
        refine List.pairwise_cons.mpr ⟨fun f' hf' => ?_, ih hkeys htail⟩
        -- If two copies were equal, so were the originals.
        obtain ⟨e', he', hef', -⟩ := exists_of_mem_right h hf'
        obtain ⟨⟨hf, hfe⟩, -⟩ := hef
        obtain ⟨hf', hfe'⟩ := hef'
        refine Bool.eq_false_iff.mpr fun hff =>
          Bool.eq_false_iff.mp (hhead e' he') ?_
        have hef := law.symm hf he hfe
        exact law.trans he hf (hkeys e' he') hef
          (law.trans hf hf' (hkeys e' he') hff hfe')

theorem sameEntries_of_equals : sameEntries Value.beq fs es = true := by
  have law := lawfulOn_sound
  refine (sameEntries_iff law (keyed_of_equals h hes) hes).mpr
    ⟨h.length_eq.symm, fun f hf => ?_⟩
  obtain ⟨e, he, hk, hv⟩ := exists_of_mem_right h hf
  exact ⟨e, he, law.symm hk.1 (hes.keys e he) hk.2,
    law.symm hv.1 (hes.values e he) hv.2⟩

theorem map_hash_of_equals :
    fs.map (fun f => trieHash f.1) = es.map fun e => trieHash e.1 := by
  obtain ⟨hkeys, -, -⟩ := hes
  induction h with
  | nil => rfl
  | @cons e f es fs hef _ ih =>
      obtain ⟨he, hkeys⟩ := List.forall_mem_cons.mp hkeys
      rw [List.map_cons, List.map_cons, ih hkeys,
        lawfulOn_sound.hash_eq hef.1.1 he hef.1.2]

/-- Inserting copies of the entries of a map in the order of its walk gives a
map that has just these entries in just this order. -/
theorem entries_ofList_of_equals
    (hsorted : es.Pairwise fun a b =>
      hashLE (trieHash a.1) (trieHash b.1) = true) :
    (HashTrie.ofList fs).WellFormed ∧ (HashTrie.ofList fs).entries = fs := by
  have hkeyed := keyed_of_equals h hes
  have hrep :=
    HashTrie.represents_ofList_of_distinct lawfulOn_sound hkeyed.keys
      hkeyed.distinct
  have hsorted' : fs.Pairwise fun a b =>
      hashLE (trieHash a.1) (trieHash b.1) = true := by
        have hhashes : (es.map fun e => trieHash e.1).Pairwise fun a b =>
            hashLE a b = true :=
              List.pairwise_map.mpr hsorted
        rw [← map_hash_of_equals h hes] at hhashes
        exact List.pairwise_map.mp hhashes
  exact ⟨hrep.wellFormed,
    hrep.buckets.eq_of_sorted hrep.wellFormed.sorted hsorted'⟩

end Entries

theorem Literal.entries {m : HashTrie Value Value}
    (hm : BuiltFrom Built Built m) (h : ∀ x ∈ inRow m.entries, Literal x) :
    m.WellFormed ∧ Keyed Sound m.entries := by
  have hrep := represents_of_builtFrom hm
  refine ⟨hrep.wellFormed, fun e he => ?_, fun e he => ?_, hrep.distinct⟩
  · exact (h _ (mem_inRow.mpr ⟨e, he, .inl rfl⟩)).sound
  · exact (h _ (mem_inRow.mpr ⟨e, he, .inr rfl⟩)).sound

theorem Copy.equals {v w : Value} (hv : Literal v) (h : Copy v w) :
    Equals v w := by
  induction hv generalizing w with
  | nil =>
      cases h
      exact ⟨.leaf rfl rfl, rfl⟩
  | bool b =>
      cases h
      exact ⟨.leaf rfl rfl, (beq_of_leaf rfl rfl).mpr (beq_self_eq_true b)⟩
  | number _ _ =>
      cases h with
      | number h => exact ⟨.leaf rfl rfl, (beq_of_leaf rfl rfl).mpr h⟩
  | string s =>
      cases h
      exact ⟨.leaf rfl rfl, (beq_of_leaf rfl rfl).mpr (beq_self_eq_true s)⟩
  | @symbol name _ _ =>
      cases h
      exact ⟨.leaf rfl rfl, (beq_of_leaf rfl rfl).mpr (beq_self_eq_true name)⟩
  | @keyword name _ =>
      cases h
      exact ⟨.leaf rfl rfl, (beq_of_leaf rfl rfl).mpr (beq_self_eq_true name)⟩
  | list s _ ih =>
      cases h with
      | list _ t h =>
          have hequals := forall₂_of_mem h ih
          exact ⟨.items rfl (sound_of_equals hequals),
            (beq_of_items rfl).mpr ⟨_, rfl, isEqv_of_equals hequals⟩⟩
  | vector s _ ih =>
      cases h with
      | vector _ t h =>
          have hequals := forall₂_of_mem h ih
          exact ⟨.items rfl (sound_of_equals hequals),
            (beq_of_items rfl).mpr ⟨_, rfl, isEqv_of_equals hequals⟩⟩
  | @map m s hm hlit ih =>
      obtain ⟨hwf, hkeyed⟩ := Literal.entries hm hlit
      cases h with
      | map _ t hm' h =>
          have hequals := forall₂_inRow (forall₂_of_mem h ih)
          obtain ⟨hkeys, hvalues, hd⟩ := keyed_of_equals hequals hkeyed
          exact ⟨.map t hm' hd hkeys hvalues,
            (beq_of_entries rfl).mpr
            ⟨_, rfl, sameEntries_of_equals hequals hkeyed⟩⟩
      | @mapForm _ ps _ t h =>
          have hequals := forall₂_inRow (forall₂_of_mem h ih)
          obtain ⟨hkeys, hvalues, hd⟩ := keyed_of_equals hequals hkeyed
          have hpairs : (Value.mapForm ps t).entriesBy? Value.beq = some ps :=
            congrArg some (AssocList.ofPairs_of_distinct hd)
          exact ⟨.mapForm t hkeys hvalues,
            (beq_of_entries hpairs).mpr
            ⟨_, rfl, sameEntries_of_equals hequals hkeyed⟩⟩

/-! ## Copies have the same text -/

theorem map_eq_of_forall₂ {α : Type} {f g : Value → α} {xs ys : List Value}
    (h : List.Forall₂ (fun x y => f y = g x) xs ys) : ys.map f = xs.map g := by
  induction h with
  | nil => rfl
  | cons hxy _ ih => rw [List.map_cons, List.map_cons, hxy, ih]

theorem Copy.render {v w : Value} (hv : Literal v) (h : Copy v w)
    (cells cells' : Array Value) (readable : Bool) :
    w.render cells' readable = v.render cells readable := by
  induction hv generalizing w with
  | list s _ ih =>
      cases h with
      | list _ t h =>
          rw [render_list, render_list, map_eq_of_forall₂ (forall₂_of_mem h ih)]
  | vector s _ ih =>
      cases h with
      | vector _ t h =>
          rw [render_vector, render_vector,
            map_eq_of_forall₂ (forall₂_of_mem h ih)]
  | map s _ _ ih =>
      cases h with
      | map _ t _ h =>
          rw [render_map, render_map, map_eq_of_forall₂ (forall₂_of_mem h ih)]
      | mapForm _ t h =>
          rw [render_mapForm, render_map, map_eq_of_forall₂ (forall₂_of_mem h ih)]
  | number _ _ =>
      cases h with
      | number h =>
          rw [render_of_leafText cells' readable rfl,
            render_of_leafText cells readable rfl, Number.text_eq_of_beq h]
  | _ =>
      cases h
      rw [render_of_leafText cells' readable rfl,
        render_of_leafText cells readable rfl]

/-! ## Taking a copy as data -/

theorem inRow_map (f : Value → Value) (ps : List (Value × Value)) :
    inRow (ps.map fun p => (f p.1, f p.2)) = (inRow ps).map f := by
  induction ps with
  | nil => rfl
  | cons p ps ih =>
      rw [List.map_cons, inRow_cons, inRow_cons, ih, List.map_cons, List.map_cons]

theorem forall₂_map_right {R S : Value → Value → Prop} {f : Value → Value}
    {xs ys : List Value} (h : List.Forall₂ R xs ys)
    (himp : ∀ x ∈ xs, ∀ y, R x y → S x (f y)) : List.Forall₂ S xs (ys.map f) :=
  List.forall₂_map_right_iff.mpr (forall₂_of_mem h himp)

/-- The map that copies of the entries of a literal map make is a copy. -/
theorem Copy.ofList {m : HashTrie Value Value} (hm : BuiltFrom Built Built m)
    (hlit : ∀ x ∈ inRow m.entries, Literal x) {ps : List (Value × Value)}
    (h : List.Forall₂ Copy (inRow m.entries) (inRow ps)) (s t : Option Span) :
    Copy (.map m s) (.map (.ofList ps) t) := by
  obtain ⟨hwf, hkeyed⟩ := Literal.entries hm hlit
  have hequals :=
    forall₂_inRow (forall₂_of_mem h fun x hx y => Copy.equals (hlit x hx))
  obtain ⟨hwf', hentries⟩ := entries_ofList_of_equals hequals hkeyed hwf.sorted
  exact .map s t hwf' (by rw [hentries]; exact h)

theorem Copy.toData {v w : Value} (hv : Literal v) (h : Copy v w) :
    Copy v w.toData := by
  induction hv generalizing w with
  | list s _ ih =>
      cases h with
      | list _ t h =>
          rw [Value.toData, toDataAll_eq_map]
          exact .list s t (forall₂_map_right h ih)
  | vector s _ ih =>
      cases h with
      | vector _ t h =>
          rw [Value.toData]
          refine .vector s t ?_
          rw [toList_toDataItems]
          exact forall₂_map_right h ih
  | map s hm hlit ih =>
      cases h with
      | map _ t hm' h => exact .map s t hm' h
      | mapForm _ t h =>
          rw [Value.toData, toDataPairs_eq_map]
          refine Copy.ofList hm hlit ?_ s t
          rw [inRow_map]
          exact forall₂_map_right h ih
  | number _ _ =>
      cases h with
      | number h => exact .number h
  | _ =>
      cases h
      rw [Value.toData]
      constructor

end TinyLisp.Value
