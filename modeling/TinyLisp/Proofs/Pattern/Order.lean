import TinyLisp.Proofs.Eval.Literal
import TinyLisp.Proofs.Pattern.Effect

/-!
# The order of a map pattern does not matter

The entries of a map pattern are gone through as its trie lists them, which
depends on the hashes of its keys and is nothing a program can see. Since each
entry binds variables of its own, and defaults that stand for themselves look at
none, nothing depends on this order but how far a failing run gets.
-/

namespace TinyLisp.Pattern

open Machine (SelfEvaluating)

/-- What a variable of the map pattern `m` is to get from these entries: the
entry under its key if there is one, `nil` or not, else a value equal to its
default, else `nil`. -/
def Received (m entries : ValueMap) (key : Value) (name : String) (u : Value) :
    Prop :=
  Fetched (fun d u => (u == d) = true) m entries key (some name) u

section

variable (host : Host) (strategy : Strategy) {budget : Nat} {p d : Value}

theorem exists_fixed (h : SelfEvaluating d) (hbudget : 2 * d.depth ≤ budget) :
    ∃ w, Fixed (Machine.eval host strategy budget) d w ∧ (w == d) = true := by
  obtain ⟨w, hdenotes, hbeq⟩ := h
  exact ⟨w, hdenotes host strategy budget hbudget, hbeq⟩

theorem exists_received {m : ValueMap} {name : String}
    (hdefaults : ∀ d, default? m (some name) = some d →
      SelfEvaluating d ∧ 2 * d.depth ≤ budget)
    (entries : ValueMap) (key : Value) :
    ∃ u, Fetched (Fixed (Machine.eval host strategy budget)) m entries key
      (some name) u ∧
      Received m entries key name u := by
  unfold Received Fetched
  cases ValueMap.lookup entries key with
  | some found => exact ⟨found, rfl, rfl⟩
  | none =>
      cases hd : default? m (some name) with
      | some d =>
          obtain ⟨hself, hbudget⟩ := hdefaults d hd
          exact exists_fixed host strategy hself hbudget
      | none => exact ⟨.nil, rfl, rfl⟩

end

/-- Defaults stand in the map under `:or`. -/
theorem mem_of_lookup {m : ValueMap} {key v : Value}
    (h : ValueMap.lookup m key = some v) : v ∈ m.values := by
  rw [ValueMap.lookup, Option.or_eq_some_iff] at h
  rcases h with h | ⟨-, h⟩
  · obtain ⟨e, he, -, rfl⟩ := HashTrie.mem_entries_of_get? h
    exact List.mem_map_of_mem he
  · obtain ⟨e, he, -, rfl⟩ := AssocList.mem_of_find?_eq_some h
    exact List.mem_map_of_mem he

theorem Meets.hasDefault {eval : Evaluate} {p v q u d : Value}
    (h : Meets eval p v q u) (hd : HasDefault q d) : HasDefault p d :=
  h.of_parts (motive := fun q => HasDefault q d → HasDefault p d)
    (fun _ _ hq hr hd => hq (.part (mem_parts_of_mem_targets hr) hd)) id hd

/-- Let a pattern be valid, its variables have different names and its defaults
stand for themselves. Then all binders, `bind` among them, succeed or fail
together, and no lookup tells the stores that they leave apart. In these stores
each name that a map in the pattern lists, and each symbol that it renames, has
what `Received` says for the value that the map meets, and `:as` has this value
itself. To a map in the pattern `nil` is the empty map. -/
theorem bind_in_any_order (host : Host) (strategy : Strategy) {p : Value}
    (hvalid : validate p = .ok ()) (hdistinct : (boundNames p).Nodup)
    {budget : Nat}
    (hdefaults : ∀ d, HasDefault p d → SelfEvaluating d ∧ 2 * d.depth ≤ budget)
    {scope : Scope} {s : Store} (hs : scope.here < s.frames.size) (v : Value) :
    let eval := Machine.eval host strategy budget
    Binder eval scope p (fun v => bind eval p v scope) ∧
    ∀ f, Binder eval scope p f →
      ((∃ e t, f v s = .failure e t) ↔ ¬ ∃ t, f v s = .result () t) ∧
      (∀ g, Binder eval scope p g →
        ((∃ t, f v s = .result () t) ↔ ∃ t, g v s = .result () t) ∧
        ∀ t u, f v s = .result () t → g v s = .result () u →
          t.heap = u.heap ∧ ∀ f name, t.binding f name = u.binding f name) ∧
      ∀ t, f v s = .result () t →
        ∀ q w m, Meets eval p v q w → shape q = .associative m →
        ∃ entries, entriesOf w = .ok entries ∧ (w = .nil → entries = {}) ∧
          ∀ e ∈ m.entries,
          (∀ n names name, role e.1 = .names n → names? e.2 = some names →
            name ∈ names →
            ∃ u, t.lookup scope name = some u ∧
              Received m entries (n.source name) name u) ∧
          (∀ name span, e.1 = .symbol name span →
            ∃ u, t.lookup scope name = some u ∧ Received m entries e.2 name u) ∧
          ∀ name, role e.1 = .whole → e.2.symbolName? = some name →
            t.lookup scope name = some w := by
  intro eval
  have hfixed : ∀ d, HasDefault p d → ∃ w, Fixed eval d w := fun d hd => by
    obtain ⟨hself, hbudget⟩ := hdefaults d hd
    obtain ⟨w, hw, -⟩ := exists_fixed host strategy hself hbudget
    exact ⟨w, hw⟩
  refine ⟨binder_bind eval scope p, fun f hf => ?_⟩
  have hrun := hf.realizes hvalid hfixed v
  refine ⟨?_, fun g hg => ?_, fun t ht q w m hmeets hq => ?_⟩
  · rw [hrun.fails_iff, hrun.succeeds_iff]
  · have hrun' := hg.realizes hvalid hfixed v
    refine ⟨(hrun.succeeds_iff s).trans (hrun'.succeeds_iff s).symm,
      fun t u ht hu => ?_⟩
    exact hrun.same ht hrun' hu hs hdistinct
  · have hbound {name : String} {u : Value} (h : Binds eval p v name u) :
        t.lookup scope name = some u :=
      Store.lookup_of_binding (hrun.binding_eq ht hs hdistinct h)
    have hfits := (hrun.succeeds_iff s).mp ⟨t, ht⟩ q w hmeets
    rw [Fits, hq] at hfits
    obtain ⟨entries, hentries⟩ := hfits
    have hreceived (name : String) (key : Value) :
        ∃ u, Fetched (Fixed eval) m entries key (some name) u ∧
          Received m entries key name u :=
      exists_received host strategy
        (fun d hd => hdefaults d
          (hmeets.hasDefault (hasDefault_of_default? hq hd))) entries key
    refine ⟨entries, hentries, ?_, fun e he => ⟨?_, ?_, ?_⟩⟩
    · rintro rfl
      exact (Except.ok.inj hentries).symm
    · intro n names name hrole hnames hname
      obtain ⟨u, hfetched, hu⟩ := hreceived name (n.source name)
      have hgives : Gives eval q w (.name name) u :=
        .entry hq hentries he (.listed hrole hnames hname hfetched)
      exact ⟨u, hbound ⟨q, w, hmeets, hgives⟩, hu⟩
    · intro name span hname
      obtain ⟨u, hfetched, hu⟩ := hreceived name e.2
      have hrole : role e.1 = .target (.symbol name span) := by rw [hname]; rfl
      have hgives : Gives eval q w (.pattern (.symbol name span)) u :=
        .entry hq hentries he (.target hrole hfetched)
      exact ⟨u, hbound ⟨_, u, hmeets.tail hgives, .name rfl⟩, hu⟩
    · intro name hrole hname
      exact hbound ⟨q, w, hmeets, .entry hq hentries he (.whole hrole hname)⟩

/-- The pattern is `{:keys [a b] :or {a [true] b false} c :c :as m}`, and `:b`
is there with the value `nil`. -/
theorem bind_in_any_order_reversed :
    let p : Value := .mapForm
      [(.keyword "keys", .vectorOf [.symbol "a" none, .symbol "b" none]),
      (.keyword "or", .mapForm [(.symbol "a" none, .vectorOf [.bool true]),
        (.symbol "b" none, .bool false)] none),
      (.symbol "c" none, .keyword "c"), (.keyword "as", .symbol "m" none)] none
    let v : Value := .map (.ofList [(.keyword "b", .nil)]) none
    let eval := Machine.eval Host.standard .deferring 4
    let root : Scope := ⟨0, []⟩
    let s : Store := { frames := #[[]] }
    let f := bindStepBy (fun _ m => m.entries.reverse) eval root
      (fun q w => bind eval q w root) p
    (validate p = .ok () ∧ (boundNames p).Nodup ∧
      (∀ d, HasDefault p d → SelfEvaluating d ∧ 2 * d.depth ≤ 4) ∧
        root.here < s.frames.size) ∧
      Binder eval root p f ∧
      ∃ t, f v s = .result () t ∧ t.lookup root "b" = some .nil ∧
        t.lookup root "c" = some .nil ∧
        t.lookup root "m" = some v ∧
        ∃ u, t.lookup root "a" = some u ∧
          (u == .vectorOf [.bool true]) = true := by
  intro p v eval root s f
  have hvalid : validate p = .ok () := rfl
  have hdistinct : (boundNames p).Nodup := by
    have htargets : targets p =
        [.pattern (.symbol "c" none), .name "m", .name "a", .name "b"] := rfl
    rw [boundNames_eq, htargets]
    simp [boundNames_eq, Target.boundNames, targets, shape]
  have hfalse : SelfEvaluating (.bool false) :=
    Machine.selfEvaluating_of_copy (.bool false) (Value.inert_leaf rfl rfl rfl)
      (.bool false)
  have htrue : SelfEvaluating (.vectorOf [.bool true]) := by
    have hliteral : Value.Literal (.vectorOf [.bool true]) :=
      .vector none (List.forall_mem_singleton.mpr (.bool true))
    have hinert : Value.Inert (.vectorOf [.bool true]) :=
      Value.inert_vector none
        (List.forall_mem_singleton.mpr (Value.inert_leaf rfl rfl rfl))
    exact Machine.selfEvaluating_of_copy hliteral hinert
      (.vector none none (.cons (.bool true) .nil))
  have hdefaults (d : Value) (hd : HasDefault p d) :
      SelfEvaluating d ∧ 2 * d.depth ≤ 4 := by
    cases hd with
    | here hp hor h =>
        obtain rfl := Shape.associative.inj hp
        obtain ⟨rfl, rfl⟩ := Value.map.inj (Option.some.inj hor)
        rcases List.mem_pair.mp (mem_of_lookup h) with rfl | rfl
        · exact ⟨htrue, by decide⟩
        · exact ⟨hfalse, by decide⟩
    | @part _ q _ hq h =>
        have hparts : (shape p).parts =
            [.symbol "c" none, .keyword "as", .keyword "keys", .keyword "or"] :=
          rfl
        rw [hparts] at hq
        simp only [List.mem_cons, List.not_mem_nil, or_false] at hq
        rcases hq with rfl | rfl | rfl | rfl <;>
          exact absurd h (not_hasDefault_of_leaf rfl)
  have hs : root.here < s.frames.size := Nat.zero_lt_one
  have hf : Binder eval root p f :=
    .step _ (fun _ m => m.entries.reverse_perm) _ fun q _ =>
      binder_bind eval root q
  obtain ⟨-, -, hgets⟩ :=
    (bind_in_any_order Host.standard .deferring hvalid hdistinct hdefaults
      hs v).2 f hf
  obtain ⟨t, ht⟩ : ∃ t, f v s = .result () t := ⟨_, rfl⟩
  obtain ⟨entries, hentries, -, hall⟩ := hgets t ht p v _ .refl rfl
  obtain rfl := Except.ok.inj hentries
  obtain ⟨hnames, -, -⟩ :=
    hall (.keyword "keys", .vectorOf [.symbol "a" none, .symbol "b" none])
      (List.mem_of_getElem? (i := 2) rfl)
  obtain ⟨-, hsymbol, -⟩ := hall (.symbol "c" none, .keyword "c")
    (List.mem_of_getElem? (i := 0) rfl)
  obtain ⟨-, -, hwhole⟩ := hall (.keyword "as", .symbol "m" none)
    (List.mem_of_getElem? (i := 1) rfl)
  obtain ⟨a, ha, hreceived⟩ := hnames .keywords ["a", "b"] "a" rfl rfl (by simp)
  obtain ⟨b, hb, rfl⟩ := hnames .keywords ["a", "b"] "b" rfl rfl (by simp)
  obtain ⟨c, hc, rfl⟩ := hsymbol "c" none rfl
  have hm := hwhole "m" rfl rfl
  exact ⟨⟨hvalid, hdistinct, hdefaults, hs⟩, hf, t, ht, hb, hc, hm, a, ha,
    hreceived⟩

end TinyLisp.Pattern
