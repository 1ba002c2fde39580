import Mathlib.Data.List.Forall2
import Mathlib.Data.List.Perm.Subperm
import TinyLisp.Proofs.HashTrie.Members
import TinyLisp.Proofs.HashTrie.Refinement

/-!
# Equal maps answer alike

Maps are compared by their sizes and by looking up the entries of the first in
the second. Nobody asks whether the second has a key that the first does not
have. There is no need to: no key comes twice in a map, so the entries of the
first take up as many of the second as there are, and with equal sizes none is
left over. This is `exists_pairing`, which is about lists of entries and asks of
equality only what `LawfulOn` says.

So two maps are equal exactly if every key is answered alike, and what is not to
be seen in an answer has no part in it: the shape of the trie, the order of a
collision, which of several equal keys is stored.
-/

namespace TinyLisp

variable {K V W : Type}

theorem exists_of_mem_right {α β : Type} {R : α → β → Prop} {xs : List α}
    {ys : List β} (h : List.Forall₂ R xs ys) {y : β} (hy : y ∈ ys) :
    ∃ x ∈ xs, R x y := by
  induction h with
  | nil => cases hy
  | cons hxy _ ih =>
      rcases List.mem_cons.mp hy with rfl | hy
      · exact ⟨_, List.mem_cons_self, hxy⟩
      · obtain ⟨x, hx, hR⟩ := ih hy
        exact ⟨x, List.mem_cons_of_mem _ hx, hR⟩

namespace HashTrie

variable [BEq K] [TrieHash K]

/-! ## Entries, paired -/

section Pairing

variable {P : K → Prop} (law : LawfulOn P)
include law

/-- If no two keys are equal, the entry that is found is the one whose
key is equal. -/
theorem find?_of_mem {fs : List (K × V)} (hkeys : ∀ f ∈ fs, P f.1)
    (hd : AssocList.Distinct (· == ·) fs) {k : K} (hk : P k) {f : K × V}
    (hf : f ∈ fs) (h : (f.1 == k) = true) :
    AssocList.find? (· == ·) k fs = some f.2 := by
  induction fs with
  | nil => cases hf
  | cons g fs ih =>
      obtain ⟨hhead, htail⟩ := List.pairwise_cons.mp hd
      have hkeys' := fun x hx => hkeys x (List.mem_cons_of_mem g hx)
      rw [AssocList.find?]
      rcases List.mem_cons.mp hf with rfl | hf
      · exact if_pos h
      · rw [if_neg fun hg => ?_, ih hkeys' htail hf]
        -- An earlier entry for the same key would have a key equal to that of
        -- `f`.
        have hfk := law.symm (hkeys' f hf) hk h
        have hgf :=
          law.trans (hkeys g List.mem_cons_self) hk (hkeys' f hf) hg hfk
        exact Bool.eq_false_iff.mp (hhead f hf) hgf

/-- If every entry of a list has a partner under an equal key in another list,
no two of them have the same one, since their keys differ. -/
theorem exists_pairing {R : K × V → K × W → Prop}
    (hR : ∀ e f, R e f → (f.1 == e.1) = true) {es : List (K × V)}
    {fs : List (K × W)} (hes : ∀ e ∈ es, P e.1)
    (hd : AssocList.Distinct (· == ·) es) (hfs : ∀ f ∈ fs, P f.1)
    (h : ∀ e ∈ es, ∃ f ∈ fs, R e f) :
    ∃ gs, List.Subperm gs fs ∧ List.Forall₂ R es gs := by
  induction es generalizing fs with
  | nil => exact ⟨[], List.nil_subperm, .nil⟩
  | cons e es ih =>
      obtain ⟨hhead, htail⟩ := List.pairwise_cons.mp hd
      obtain ⟨hkey, hkeys⟩ := List.forall_mem_cons.mp hes
      obtain ⟨⟨f, hf, hef⟩, hpartners⟩ := List.forall_mem_cons.mp h
      obtain ⟨l, r, rfl⟩ := List.append_of_mem hf
      have hperm : List.Perm (f :: (l ++ r)) (l ++ f :: r) :=
        List.perm_middle.symm
      have hlr : ∀ x ∈ l ++ r, P x.1 := fun x hx =>
        hfs x (hperm.mem_iff.mp (List.mem_cons_of_mem f hx))
      have hrest : ∀ e' ∈ es, ∃ f' ∈ l ++ r, R e' f' := by
        intro e' he'
        obtain ⟨f', hf', hef'⟩ := hpartners e' he'
        rcases List.mem_cons.mp (hperm.mem_iff.mpr hf') with rfl | hf'
        · have hkf := law.symm (hfs f' hf) hkey (hR e f' hef)
          have hkk :=
            law.trans hkey (hfs f' hf) (hkeys e' he') hkf (hR e' f' hef')
          exact absurd hkk (Bool.eq_false_iff.mp (hhead e' he'))
        · exact ⟨f', hf', hef'⟩
      obtain ⟨gs, hgs, hpairs⟩ := ih hkeys htail hlr hrest
      exact ⟨f :: gs, ((List.subperm_cons f).mpr hgs).trans hperm.subperm,
        .cons hef hpairs⟩

end Pairing

/-! ## Maps -/

/-- The maps have the same keys, and equal values under them. -/
def SameLookups [BEq V] (m n : HashTrie K V) : Prop :=
  ∀ k, Option.Rel (fun v w => (v == w) = true) (m.get? k) (n.get? k)

section

variable [BEq V] [EquivBEq V] {l m n : HashTrie K V}

theorem sameLookups_self (m : HashTrie K V) : SameLookups m m := by
  intro k
  cases m.get? k with
  | none => exact .none
  | some v => exact .some BEq.rfl

theorem SameLookups.symm (h : SameLookups m n) : SameLookups n m := by
  intro k
  have hk := h k
  generalize m.get? k = v? at hk
  generalize n.get? k = w? at hk
  cases hk with
  | none => exact .none
  | some hvw => exact .some (PartialEquivBEq.symm hvw)

theorem SameLookups.trans (h : SameLookups l m) (h' : SameLookups m n) :
    SameLookups l n := by
  intro k
  have hk := h k
  have hk' := h' k
  generalize l.get? k = u? at hk
  generalize m.get? k = v? at hk hk'
  generalize n.get? k = w? at hk'
  cases hk with
  | none => exact hk'
  | some huv => cases hk' with
    | some hvw => exact .some (PartialEquivBEq.trans huv hvw)

end

section

variable [LawfulTrieHash K] [BEq V] [EquivBEq V] {m n : HashTrie K V}

/-- An entry has a partner in the other map: an equal value under
an equal key. -/
def Partners (e f : K × V) : Prop :=
  (f.1 == e.1) = true ∧ (e.2 == f.2) = true

omit [EquivBEq V] in
theorem Represents.exists_pairing (hm : Represents (fun _ => True) m m.entries)
    (h : ∀ e ∈ m.entries, ∃ f ∈ n.entries, Partners e f) :
    ∃ gs, List.Subperm gs n.entries ∧ List.Forall₂ Partners m.entries gs :=
  HashTrie.exists_pairing LawfulTrieHash.lawfulOn (fun _ _ h => h.1) hm.keys
    hm.distinct (fun _ _ => trivial) h

omit [BEq V] [EquivBEq V] in
theorem Represents.get?_of_mem (h : Represents (fun _ => True) m m.entries)
    {e : K × V} (he : e ∈ m.entries) {k : K} (hk : (e.1 == k) = true) :
    m.get? k = some e.2 := by
  rw [h.get?_eq LawfulTrieHash.lawfulOn trivial]
  exact find?_of_mem LawfulTrieHash.lawfulOn h.keys h.distinct trivial he hk

omit [EquivBEq V] in
theorem SameLookups.exists_partner (hm : Represents (fun _ => True) m m.entries)
    (h : SameLookups m n) : ∀ e ∈ m.entries, ∃ f ∈ n.entries, Partners e f := by
  intro e he
  have hk := h e.1
  rw [hm.get?_of_mem he BEq.rfl] at hk
  generalize hn : n.get? e.1 = w? at hk
  cases hk with
  | some hvw =>
      obtain ⟨f, hf, hkey, rfl⟩ := mem_entries_of_get? hn
      exact ⟨f, hf, hkey, hvw⟩

omit [EquivBEq V] in
theorem SameLookups.size_le (hm : Represents (fun _ => True) m m.entries)
    (hn : Represents (fun _ => True) n n.entries) (h : SameLookups m n) :
    m.size ≤ n.size := by
  obtain ⟨gs, hgs, hpairs⟩ := hm.exists_pairing (h.exists_partner hm)
  rw [hm.size_eq, hn.size_eq, hpairs.length_eq]
  exact hgs.length_le

/-- Equality asks for a partner of every entry of the first map. -/
theorem beq_iff_partners (hn : Represents (fun _ => True) n n.entries) :
    (m == n) = true ↔ m.size = n.size ∧
      ∀ e ∈ m.entries, ∃ f ∈ n.entries, Partners e f := by
  show beq m n = true ↔ _
  rw [beq, Bool.and_eq_true, beq_iff_eq, List.all_eq_true]
  refine and_congr_right fun _ => forall_congr' fun e =>
    forall_congr' fun _ => ?_
  constructor
  · intro h
    cases hget : n.get? e.1 with
    | none => rw [hget] at h; cases h
    | some w =>
        rw [hget] at h
        obtain ⟨f, hf, hkey, rfl⟩ := mem_entries_of_get? hget
        have hvalue : (f.2 == e.2) = true := h
        exact ⟨f, hf, hkey, PartialEquivBEq.symm hvalue⟩
  · rintro ⟨f, hf, hkey, hvalue⟩
    have hvalue' : (f.2 == e.2) = true := PartialEquivBEq.symm hvalue
    rw [hn.get?_of_mem hf hkey]
    exact hvalue'

theorem beq_iff_sameLookups (hm : Represents (fun _ => True) m m.entries)
    (hn : Represents (fun _ => True) n n.entries) :
    (m == n) = true ↔ SameLookups m n := by
  rw [beq_iff_partners hn]
  constructor
  · rintro ⟨hsize, hpartner⟩ k
    obtain ⟨gs, hgs, hpairs⟩ := hm.exists_pairing hpartner
    have hlen : gs.length = n.entries.length := by
      rw [← hpairs.length_eq, ← hm.size_eq, ← hn.size_eq, hsize]
    have hperm : List.Perm gs n.entries :=
      hgs.perm_of_length_le (Nat.le_of_eq hlen.symm)
    cases hmk : m.get? k with
    | some v =>
        obtain ⟨e, he, hek, rfl⟩ := mem_entries_of_get? hmk
        obtain ⟨f, hf, hfe, hvalue⟩ := hpartner e he
        rw [hn.get?_of_mem hf (PartialEquivBEq.trans hfe hek)]
        exact .some hvalue
    | none =>
        -- An entry of the second map for this key would be the partner of one
        -- in the first.
        cases hnk : n.get? k with
        | none => exact .none
        | some w =>
            obtain ⟨f, hf, hfk, -⟩ := mem_entries_of_get? hnk
            obtain ⟨e, he, hfe, -⟩ :=
              exists_of_mem_right hpairs (hperm.mem_iff.mpr hf)
            have hek := PartialEquivBEq.trans (PartialEquivBEq.symm hfe) hfk
            rw [hm.get?_of_mem he hek] at hmk
            cases hmk
  · intro h
    exact ⟨Nat.le_antisymm (h.size_le hm hn) (h.symm.size_le hn hm),
      h.exists_partner hm⟩

end

/-! ## Histories -/

namespace History

variable [LawfulTrieHash K] [BEq V] [EquivBEq V]

/-- Two maps are equal exactly if under each key both have nothing or both have
equal values. So equality of maps is reflexive, symmetric and transitive, and a
map can stand for every other one that answers alike. -/
theorem equal_iff_answers_alike {m n : HashTrie K V} (hm : Reached m)
    (hn : Reached n) :
    ((m == n) = true ↔ ∀ k, (m.get? k = none ∧ n.get? k = none) ∨
      ∃ v w, m.get? k = some v ∧ n.get? k = some w ∧ (v == w) = true) ∧
      (m == m) = true ∧ (m == n) = (n == m) ∧
      (∀ l, Reached l → (m == n) = true → (n == l) = true → (m == l) = true) ∧
      ∀ m' n' : HashTrie K V, Reached m' → Reached n' → SameLookups m m' →
        SameLookups n n' →
        (m == n) = (m' == n') := by
  have hiff {a b : HashTrie K V} (ha : Reached a) (hb : Reached b) :
      (a == b) = true ↔ SameLookups a b :=
    beq_iff_sameLookups ha.represents hb.represents
  refine ⟨(hiff hm hn).trans (forall_congr' fun k => ?_), ?_, ?_, ?_, ?_⟩
  · constructor
    · intro h
      generalize m.get? k = v? at h
      generalize n.get? k = w? at h
      cases h with
      | none => exact .inl ⟨rfl, rfl⟩
      | some hvw => exact .inr ⟨_, _, rfl, rfl, hvw⟩
    · rintro (⟨hv, hw⟩ | ⟨v, w, hv, hw, hvw⟩)
      · rw [hv, hw]
        exact .none
      · rw [hv, hw]
        exact .some hvw
  · exact (hiff hm hm).mpr (sameLookups_self m)
  · rw [Bool.eq_iff_iff, hiff hm hn, hiff hn hm]
    exact ⟨.symm, .symm⟩
  · intro l hl
    rw [hiff hm hn, hiff hn hl, hiff hm hl]
    exact .trans
  · intro m' n' hm' hn' hmm' hnn'
    rw [Bool.eq_iff_iff, hiff hm hn, hiff hm' hn']
    exact ⟨fun h => (hmm'.symm.trans h).trans hnn',
      fun h => (hmm'.trans h).trans hnn'.symm⟩

/-- One map keeps two colliding keys below a branch from which a third key has
been removed, the other keeps them at its root, in the other order. -/
theorem equal_iff_answers_alike_collision :
    let edits : List (Edit Labelled Nat) :=
      [.insert 0 ⟨0, 1⟩ 10, .insert 1 ⟨1, 1⟩ 11, .insert 2 ⟨2, 2⟩ 12,
        .erase 3 ⟨2, 2⟩]
    let m := ((start.run edits : History Labelled Nat).version 4).map
    let n := ((start.run [.collect [(⟨1, 1⟩, 11), (⟨0, 1⟩, 10)]] :
      History Labelled Nat).version 1).map
    (m.depth = 2 ∧ n.depth = 1 ∧ m.keys = n.keys.reverse) ∧ (m == n) = true ∧
      (n == m) = true ∧
      ∀ k, (m.get? k = none ∧ n.get? k = none) ∨
        ∃ v w, m.get? k = some v ∧ n.get? k = some w ∧ (v == w) = true := by
  intro edits m n
  have hm : Reached m := ⟨edits, 4, rfl⟩
  have hn : Reached n := ⟨_, 1, rfl⟩
  obtain ⟨hiff, -, hcomm, -, -⟩ := equal_iff_answers_alike hm hn
  have heq : (m == n) = true := by decide
  exact ⟨by decide, heq, hcomm.symm.trans heq, hiff.mp heq⟩

end History

end HashTrie

end TinyLisp
