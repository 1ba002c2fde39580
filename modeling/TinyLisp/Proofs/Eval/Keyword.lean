import Mathlib.Data.List.Permutation
import TinyLisp.Proofs.Builtin.Mapping
import TinyLisp.Proofs.Eval.Literal
import TinyLisp.Proofs.Pattern.Validity

/-!
# Looking a keyword up

There are four ways to get at what a value holds under a keyword: to call the
keyword, to call `get`, and to bind a variable by either of two patterns. They
agree on every value, except that a pattern fails where the calls are content
with the default.

The calls have the default as a value, the patterns as a form that is evaluated
if it is needed. So a default is a form here, together with the value that it
evaluates to; for a literal that stands for itself the two are the same. Which
of its two entries a pattern comes to first depends on the hash of the variable,
and does not matter, since the entry that holds the defaults binds nothing.
-/

namespace TinyLisp

open HashTrie (BuiltFrom)
open Value (Built lawfulOn_built)

/-! ## Calls -/

namespace Machine

/-- Called with these values, a function gives this value and does nothing else,
where it is handed to another function and where it stands in front of forms
that have these values. -/
structure Returns (f : Value) (args : List Value) (v : Value) : Prop where
  apply : ∀ host strategy n s, apply host strategy (n + 1) f args s = .result v s
  eval : ∀ host strategy n head forms place scope s,
    Evaluator.operator head = .value →
    eval host strategy n head scope s = .result f s →
    List.Forall₂ (fun form arg =>
      eval host strategy n form scope s = .result arg s) forms args →
    eval host strategy (n + 2) (.list (head :: forms) place) scope s =
      .result v s

theorem returns_of_applyStep {f : Value} {args : List Value} {v : Value}
    (hf : (∃ name, f = .keyword name) ∨ ∃ name code id, f = .native name code id)
    (h : ∀ (ev : Evaluator) host s,
      ev.applyStep host f args s = .result (.done v) s) :
    Returns f args v := by
  refine ⟨fun host strategy n s => ?_, ?_⟩
  · rw [apply_succ, Action.bind_of_result (h _ host s)]
    rfl
  · intro host strategy n head forms place scope s hhead hf' hargs
    refine eval_of_stepForm ?_
    have hall : (inner host strategy n).evalAll scope forms s =
        .result args s := each_result hargs
    rw [Evaluator.stepForm, Evaluator.stepList, hhead]
    refine (Action.bind_of_result hf').trans ?_
    rcases hf with ⟨name, rfl⟩ | ⟨name, code, id, rfl⟩
    · exact (Action.bind_of_result hall).trans (h _ host s)
    · exact (Action.bind_of_result hall).trans (h _ host s)

theorem returns_of_primitive {p : Primitive} {args : List Value} {v : Value}
    (h : p.Returns args v) (name : String) (id : ObjectId) :
    Returns (.native name (.builtin (.primitive p)) id) args v := by
  refine returns_of_applyStep (.inr ⟨_, _, _, rfl⟩) fun ev host s => ?_
  exact Action.bind_of_result (h ev.apply s)

theorem returns_of_keywordCall {name : String} {args : List Value} {v : Value}
    (h : Mapping.keywordCall name args = .ok v) :
    Returns (.keyword name) args v := by
  refine returns_of_applyStep (.inl ⟨_, rfl⟩) fun ev host s => ?_
  rw [Evaluator.applyStep, h]
  rfl

/-- A constant stands for itself. -/
theorem denotes_constant {v : Value} (hi : v.items? = none)
    (he : v.entriesBy? Value.beq = none) (hs : v.symbolName? = none) :
    Denotes v.toData v := by
  rw [Value.toData_of_leaf hi he]
  refine denotes_of_stepForm fun host strategy n hn scope s => ?_
  cases v with
  | list xs span => cases hi
  | vector xs span => cases hi
  | map m span => cases he
  | mapForm ps span => cases he
  | symbol name span => cases hs
  | _ => rfl

end Machine

/-! ## Patterns -/

namespace Pattern

/-- The pattern binds the variable `k` to what is found under `:k`, and has a
form for its default. It is `{:keys [k] :or {k form}}` or `{k :k :or {k form}}`,
as it was read or as data. -/
inductive TakesKeyword (k : String) (form : Value) : Value → Prop where
  | names (s t u v w : Option Span) : TakesKeyword k form
      (.mapForm [(.keyword "keys", .vector (.ofList [.symbol k s]) t),
        (.keyword "or", .mapForm [(.symbol k u, form)] v)] w)
  | target (s u v w : Option Span) : TakesKeyword k form
      (.mapForm [(.symbol k s, .keyword k),
        (.keyword "or", .mapForm [(.symbol k u, form)] v)] w)
  | data {p : Value} (h : TakesKeyword k form p) : TakesKeyword k form p.toData

/-- The entry of such a pattern that binds. -/
inductive TakingEntry (k : String) : Value × Value → Prop where
  | names (s t : Option Span) :
      TakingEntry k (.keyword "keys", .vector (.ofList [.symbol k s]) t)
  | target (s : Option Span) : TakingEntry k (.symbol k s, .keyword k)

section

variable {k : String} {form : Value}

theorem TakesKeyword.shape {p : Value} (h : TakesKeyword k form p) :
    ∃ e u v, TakingEntry k e ∧ Pattern.shape p = .associative (.ofList
      [e, (.keyword "or", .map (.ofList [(.symbol k u, form.toData)]) v)]) := by
  induction h with
  | names s t u v w => exact ⟨_, u, v, .names s t, rfl⟩
  | target s u v w => exact ⟨_, u, v, .target s, rfl⟩
  | data _ ih =>
      obtain ⟨e, u, v, he, hshape⟩ := ih
      obtain ⟨w, hdata⟩ := shape_eq_associative hshape
      exact ⟨e, u, v, he, by rw [hdata]; rfl⟩

theorem TakingEntry.key {e : Value × Value} (h : TakingEntry k e) :
    e.1.Built ∧ (e.1 == .keyword "or") = false := by
  cases h with
  | names s t =>
      refine ⟨.leaf rfl rfl, ?_⟩
      show (Value.keyword "keys" == .keyword "or") = false
      decide
  | target s => exact ⟨.leaf rfl rfl, rfl⟩

theorem TakingEntry.bindEntry_eq {e : Value × Value} (h : TakingEntry k e)
    {bind : Value → Value → Action Unit} {scope : Scope}
    (hbind : ∀ s v, bind (.symbol k s) v = Action.define scope k v)
    (get : Value → Option String → Action Value) (whole : Value) :
    bindEntry bind get scope whole e =
      get (.keyword k) (some k) >>= Action.define scope k := by
  cases h with
  | names s t =>
      have hnames : bindEntry bind get scope whole
          (.keyword "keys", .vector (.ofList [.symbol k s]) t) =
        get (.keyword k) (some k) >>= fun v =>
          Action.define scope k v >>= fun _ => pure () := rfl
      rw [hnames]
      exact bind_congr fun v => bind_pure_unit
  | target s => exact bind_congr fun v => hbind s v

/-! ## What such a pattern binds -/

section

variable {e : Value × Value} (he : TakingEntry k e) (ds : ValueMap)
  (place : Option Span)
include he

/-- The map that stands for the pattern. -/
theorem TakingEntry.represents :
    HashTrie.Represents Built (.ofList [e, (.keyword "or", .map ds place)])
      [e, (.keyword "or", .map ds place)] := by
  obtain ⟨hbuilt, hne⟩ := he.key
  have hkeys : ∀ p ∈ [e, (.keyword "or", .map ds place)], Built p.1 := by
    rw [List.forall_mem_cons, List.forall_mem_singleton]
    exact ⟨hbuilt, .leaf rfl rfl⟩
  exact HashTrie.represents_ofList_of_distinct lawfulOn_built hkeys
    (List.pairwise_pair.mpr hne)

theorem TakingEntry.defaultsOf_eq :
    defaultsOf (.ofList [e, (.keyword "or", .map ds place)]) =
      .ok (some ds) := by
  have hor : Built (.keyword "or") := .leaf rfl rfl
  have hget := (he.represents ds place).get?_eq lawfulOn_built hor
  have hfound : AssocList.find? (· == ·) (.keyword "or")
      [e, (.keyword "or", .map ds place)] =
        some (.map ds place) := by
    rw [AssocList.find?, he.key.2]
    rfl
  rw [defaultsOf, hget, hfound]

theorem TakingEntry.forM_eq (bind : Value → Value → Action Unit) {scope : Scope}
    (hbind : ∀ s v, bind (.symbol k s) v = Action.define scope k v)
    (get : Value → Option String → Action Value) (whole : Value) :
    (HashTrie.ofList [e, (.keyword "or", .map ds place)]).entries.forM
      (bindEntry bind get scope whole) =
        get (.keyword k) (some k) >>= Action.define scope k := by
  rw [← he.bindEntry_eq hbind get whole]
  have hor : bindEntry bind get scope whole (.keyword "or", .map ds place) =
      pure () := rfl
  rcases List.perm_pair.mp (he.represents ds place).buckets.perm with h | h
  · rw [h, List.forM, List.forM, List.forM, hor]
    exact (bind_congr fun _ => pure_bind ..).trans bind_pure_unit
  · rw [h, List.forM, List.forM, List.forM, hor, pure_bind]
    exact bind_pure_unit

end

theorem lookup_default (k : String) (u : Option Span) (form : Value) :
    ValueMap.lookup (.ofList [(.symbol k u, form)]) (.symbol k none) =
      some form := by
  have hsame : (Value.symbol k u == .symbol k none) = true :=
    (Value.beq_of_leaf rfl rfl).mpr (beq_self_eq_true k)
  have hkeys : ∀ p ∈ [(Value.symbol k u, form)], Built p.1 :=
    List.forall_mem_singleton.mpr (.leaf rfl rfl)
  have hrep := HashTrie.represents_ofList_of_distinct lawfulOn_built hkeys
    (List.pairwise_singleton ..)
  have hget :=
    hrep.get?_eq lawfulOn_built (.leaf rfl rfl : Built (.symbol k none))
  have hfound : AssocList.find? (· == ·) (Value.symbol k none)
      [(Value.symbol k u, form)] = some form :=
    if_pos hsame
  rw [ValueMap.lookup, hget.trans hfound]
  rfl

variable {eval : Evaluate} {scope : Scope} {p x : Value} {s : Store}

theorem fetch_keyword (m : ValueMap) (u : Option Span) {d : Value}
    (hd : eval form scope s = .result d s) :
    fetch eval scope m (some (.ofList [(.symbol k u, form)])) (.keyword k)
      (some k) s =
        .result ((ValueMap.lookup m (.keyword k)).getD d) s := by
  unfold fetch
  cases ValueMap.lookup m (.keyword k) with
  | some w => rfl
  | none =>
      dsimp only
      rw [lookup_default]
      exact hd

theorem TakesKeyword.bind_eq (hp : TakesKeyword k form p) {m : ValueMap}
    (hx : entriesOf x = .ok m) {d : Value}
    (hd : eval form.toData scope s = .result d s) :
    bind eval p x scope s =
      .result () (s.bind scope k ((ValueMap.lookup m (.keyword k)).getD d)) := by
  obtain ⟨e, u, v, he, hshape⟩ := hp.shape
  have hforM := he.forM_eq (.ofList [(.symbol k u, form.toData)]) v
    (fun q w => bind eval q w scope) fun _ _ => rfl
  rw [Pattern.bind_eq, bindStep, hshape]
  dsimp only
  rw [hx, he.defaultsOf_eq]
  exact (congrFun (hforM _ x) s).trans
    (Action.bind_of_result (fetch_keyword m u hd))

/-- What is no map is not taken apart. -/
theorem TakesKeyword.bind_fails (hp : TakesKeyword k form p) {fault : Fault}
    (hx : entriesOf x = .error fault) :
    bind eval p x scope s = .failure (.ofFault fault) s := by
  obtain ⟨e, u, v, -, hshape⟩ := hp.shape
  rw [Pattern.bind_eq, bindStep, hshape]
  dsimp only
  rw [hx]
  rfl

end

end Pattern

/-! ## Agreement -/

namespace Mapping

/-- Where there is no map, calls are content with the default. -/
theorem calls_of_not_map {x : Value} (hx : ∀ m place, x ≠ .map m place)
    (k : String) (d : Value) :
    keywordCall k [x, d] = .ok d ∧ getOf [x, .keyword k, d] = .ok d := by
  cases x with
  | map m place => exact absurd rfl (hx m place)
  | _ => exact ⟨rfl, rfl⟩

end Mapping

namespace ValueMap

variable {m : ValueMap} {k : String}

theorem lookup_keyword_of_mem (hm : BuiltFrom Built Built m) {u : Value}
    (h : (Value.keyword k, u) ∈ m.entries) :
    lookup m (.keyword k) = some u := by
  have hself : (Value.keyword k == .keyword k) = true :=
    (Value.beq_of_leaf rfl rfl).mpr (beq_self_eq_true k)
  have hlisted := lookup_of_listed hm h
  exact hlisted hself

theorem lookup_keyword_of_not_mem (hm : BuiltFrom Built Built m)
    (h : ∀ u, (Value.keyword k, u) ∉ m.entries) :
    lookup m (.keyword k) = none := by
  refine Option.isNone_iff_eq_none.mp
    (Option.isSome_eq_false_iff.mp (Bool.eq_false_iff.mpr ?_))
  rw [ne_eq, isSome_lookup_iff hm (.leaf rfl rfl)]
  rintro ⟨key, hkey, hequal⟩
  obtain ⟨e, he, rfl⟩ := List.mem_map.mp hkey
  exact h e.2 (Pattern.eq_keyword_of_beq hequal ▸ he)

end ValueMap

open Machine (Denotes Returns)
open Pattern (TakesKeyword)

/-- To call a keyword with a value and a default is to call `get`, and gives
what a pattern binds to the value under the keyword, if there is a map or
nothing to look in: the value that the map has, `nil` too, and else the default.
The form for the default is evaluated where the pattern is, and a literal
without symbols and lists has a value everywhere. What is neither a map nor
`nil` gives the default when it is called for, and fails the pattern before
anything is evaluated or bound. -/
theorem keyword_lookups_agree {x : Value} (hx : x.Built) (k : String)
    (d : Value) :
    ∃ v, Returns (.keyword k) [x, d] v ∧
      (∀ name id, Returns (.native name (.builtin (.primitive .get)) id)
        [x, .keyword k, d] v) ∧
      (((∃ m place, x = .map m place) ∨ x = .nil) →
        ∀ form, Denotes form.toData d →
        ∀ p, TakesKeyword k form p →
          ∀ host strategy n, 2 * form.toData.depth ≤ n → ∀ scope s,
          Pattern.bind (Machine.eval host strategy n) p x scope s =
            .result () (s.bind scope k v)) ∧
      (∀ m place u, x = .map m place → (.keyword k, u) ∈ m.entries → v = u) ∧
      ((∀ m place u, x = .map m place → (.keyword k, u) ∉ m.entries) → v = d) ∧
      ((∀ m place, x ≠ .map m place) → x ≠ .nil → v = d ∧
        ∀ form p, TakesKeyword k form p → ∀ eval scope s,
          Pattern.bind eval p x scope s =
            .failure (.ofFault (.mismatch x.typeName .map)) s) := by
  by_cases hmap : ∃ m place, x = .map m place
  · obtain ⟨m, place, rfl⟩ := hmap
    have hm : BuiltFrom Built Built m := by
      cases hx with
      | leaf _ he => cases he
      | items hi _ => cases hi
      | map _ hm => exact hm
    refine ⟨(ValueMap.lookup m (.keyword k)).getD d,
      Machine.returns_of_keywordCall rfl,
      Machine.returns_of_primitive fun _ _ => rfl, ?_, ?_, ?_, ?_⟩
    · intro _ form hform p hp host strategy n hn scope s
      exact hp.bind_eq rfl (hform host strategy n hn scope s)
    · intro m' place' u hsame hu
      obtain ⟨rfl, -⟩ := Value.map.inj hsame
      rw [ValueMap.lookup_keyword_of_mem hm hu, Option.getD_some]
    · intro hnone
      rw [ValueMap.lookup_keyword_of_not_mem hm fun u => hnone m place u rfl,
        Option.getD_none]
    · intro hnot
      exact absurd rfl (hnot m place)
  · have hnot : ∀ m place, x ≠ .map m place :=
      fun m place h => hmap ⟨m, place, h⟩
    obtain ⟨hcall, hget⟩ := Mapping.calls_of_not_map hnot k d
    refine ⟨d, Machine.returns_of_keywordCall hcall,
      Machine.returns_of_primitive (Mapping.get_returns hget), ?_, ?_,
      fun _ => rfl, ?_⟩
    · rintro (h | rfl) form hform p hp host strategy n hn scope s
      · exact absurd h hmap
      · have hempty : Pattern.entriesOf .nil = .ok {} := rfl
        exact hp.bind_eq hempty (hform host strategy n hn scope s)
    · intro m place u h
      exact absurd h (hnot m place)
    · intro _ hnil
      refine ⟨rfl, fun form p hp eval scope s => hp.bind_fails ?_⟩
      cases x with
      | map m place => exact absurd rfl (hnot m place)
      | nil => exact absurd rfl hnil
      | _ => rfl

/-- A map has `nil` under one keyword and nothing under another. -/
theorem keyword_lookups_agree_nil :
    let x : Value := .map (.ofList [(.keyword "k", .nil)]) none
    let seven : Value := .number 7
    let pattern (k : String) : Value :=
      .mapForm [(.symbol k none, .keyword k),
        (.keyword "or", .mapForm [(.symbol k none, seven)] none)] none
    Returns (.keyword "k") [x, seven] .nil ∧
      Returns (.keyword "j") [x, seven] seven ∧
      Returns (.keyword "k") [.vectorOf [x], seven] seven ∧
      ∀ host scope s,
        Pattern.bind (Machine.eval host .deferring 2) (pattern "k") x scope s =
          .result () (s.bind scope "k" .nil) ∧
        Pattern.bind (Machine.eval host .deferring 2) (pattern "j") x scope s =
          .result () (s.bind scope "j" seven) ∧
        Pattern.bind (Machine.eval host .deferring 2) (pattern "k")
          (.vectorOf [x]) scope s =
            .failure (.ofFault (.mismatch "vector" .map)) s := by
  intro x seven pattern
  have hx : x.Built := by
    refine .map none (HashTrie.builtFrom_ofList ?_)
    exact List.forall_mem_singleton.mpr ⟨.leaf rfl rfl, .leaf rfl rfl⟩
  have hvector : (Value.vectorOf [x]).Built :=
    .items rfl (List.forall_mem_singleton.mpr hx)
  have hseven : Denotes seven.toData seven :=
    Machine.denotes_constant rfl rfl rfl
  have hpattern (k : String) : TakesKeyword k seven (pattern k) :=
    .target none none none none
  obtain ⟨v, hk, -, hbindk, hpresent, -, -⟩ :=
    keyword_lookups_agree hx "k" seven
  obtain ⟨w, hj, -, hbindj, -, habsent, -⟩ := keyword_lookups_agree hx "j" seven
  obtain ⟨u, hu, -, -, -, -, hfails⟩ := keyword_lookups_agree hvector "k" seven
  obtain rfl : v = .nil := hpresent _ none _ rfl List.mem_cons_self
  obtain rfl : w = seven := by
    refine habsent fun m place u hsame hmem => ?_
    obtain ⟨rfl, -⟩ := Value.map.inj hsame
    obtain ⟨hkey, -⟩ := Prod.mk.inj (List.mem_singleton.mp hmem)
    exact absurd (Value.keyword.inj hkey) (by decide)
  obtain ⟨rfl, hfail⟩ := hfails nofun nofun
  refine ⟨hk, hj, hu, fun host scope s => ⟨?_, ?_, ?_⟩⟩
  · exact hbindk (.inl ⟨_, _, rfl⟩) seven hseven _ (hpattern "k") host _ 2
      (Nat.le_refl _) scope s
  · exact hbindj (.inl ⟨_, _, rfl⟩) seven hseven _ (hpattern "j") host _ 2
      (Nat.le_refl _) scope s
  · exact hfail seven _ (hpattern "k") _ scope s

end TinyLisp
