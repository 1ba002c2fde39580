import TinyLisp.Pattern.Bind
import TinyLisp.Proofs.Store.Agreement
import TinyLisp.Proofs.Value.Data

/-!
# Patterns in terms of their parts

Checking a pattern and binding it run on a budget, the depth of the pattern,
and go from a pattern to its parts: the items of a vector, the keys of a map.
Parts are less deep, so the budget never runs out and drops out of the
equations: `validate_eq` and `bind_eq` say what checking and binding do in
terms of themselves. What builds on this file does not mention
`validateWithin` or `bindWithin`.
-/

namespace TinyLisp.Pattern

/-- The forms that stand where a part of the pattern should. Of a map these are
all keys, also those with a meaning of their own. -/
def Shape.parts : Shape → List Value
  | .sequence patterns => patterns
  | .associative entries => entries.keys
  | .name _ => []
  | .other _ => []

theorem mem_parts_of_mem_entries {m : ValueMap} {e : Value × Value}
    (h : e ∈ m.entries) : e.1 ∈ (Shape.associative m).parts :=
  List.mem_map_of_mem h

/-- A pattern by key is a map, or a literal that is taken as one. -/
theorem shape_eq_associative {p : Value} {m : ValueMap}
    (h : shape p = .associative m) : ∃ span, p.toData = .map m span := by
  cases p with
  | map entries span =>
      obtain rfl := Shape.associative.inj h
      exact ⟨span, rfl⟩
  | mapForm pairs span =>
      obtain rfl := Shape.associative.inj h
      exact ⟨span, rfl⟩
  | _ => cases h

theorem items?_of_shape {p : Value} {ps : List Value}
    (h : shape p = .sequence ps) : p.items? = some ps := by
  cases p with
  | vector items span =>
      obtain rfl := Shape.sequence.inj h
      rfl
  | _ => cases h

theorem depth_lt_of_mem_parts {p q : Value} (h : q ∈ (shape p).parts) :
    q.depth < p.depth := by
  cases hs : shape p with
  | name n => rw [hs] at h; cases h
  | other t => rw [hs] at h; cases h
  | sequence ps =>
      rw [hs] at h
      exact Value.depth_lt_of_mem_items (items?_of_shape hs) h
  | associative m =>
      rw [hs] at h
      obtain ⟨e, he, rfl⟩ := List.mem_map.mp h
      obtain ⟨span, hdata⟩ := shape_eq_associative hs
      have hle := Value.depth_toData_le p
      rw [hdata, Value.depth] at hle
      have := (Value.depth_le_depthTrie he).1
      omega

/-- Induction over patterns: of its parts a pattern may assume the statement. -/
theorem induct {motive : Value → Prop}
    (step : ∀ p, (∀ q ∈ (shape p).parts, motive q) → motive p) (p : Value) :
    motive p := by
  induction hd : p.depth using Nat.strongRecOn generalizing p with
  | ind d ih =>
      subst hd
      exact step p fun q hq => ih q.depth (depth_lt_of_mem_parts hq) q rfl

/-! ## Vectors

Checking and binding go through the items of a vector with the same eye, though
they do not ask their questions in the same order.
-/

/-- The items go wrong right where they start, and this is the fault. -/
inductive Refused : List Value → Fault → Prop where
  | noName {ps : List Value}
      (h : ∀ name span rest, ps ≠ .symbol name span :: rest) :
      Refused (.keyword "as" :: ps) badWhole
  | noRest (span : Option Span) : Refused [.symbol "&" span] missingRest
  | trailing (span : Option Span) (rest : Value) {tail : List Value}
      (h : endsAfterRest tail = false) :
      Refused (.symbol "&" span :: rest :: tail) trailing

theorem eq_keyword_of_isKeyword {v : Value} {name : String}
    (h : v.isKeyword name = true) : v = .keyword name := by
  cases v with
  | keyword n => rw [eq_of_beq h]
  | _ => cases h

theorem eq_symbol_of_isSymbol {v : Value} {name : String}
    (h : v.isSymbol name = true) : ∃ span, v = .symbol name span := by
  cases v with
  | symbol n span => exact ⟨span, by rw [eq_of_beq h]⟩
  | _ => cases h

/-- Induction over the items of a vector, by how they start. -/
theorem items_induct {motive : List Value → Prop} (nil : motive [])
    (whole : ∀ name span ps, motive ps →
      motive (.keyword "as" :: .symbol name span :: ps))
    (rest : ∀ span p tail, endsAfterRest tail = true → motive tail →
      motive (.symbol "&" span :: p :: tail))
    (item : ∀ p ps, p.isKeyword "as" = false → p.isSymbol "&" = false →
      motive ps → motive (p :: ps))
    (refused : ∀ ps fault, Refused ps fault → motive ps) (ps : List Value) :
    motive ps := by
  fun_induction checkItems (fun _ => .ok ()) ps with
  | case1 => exact nil
  | case2 p has name span ps ih =>
      exact eq_keyword_of_isKeyword has ▸ whole name span ps ih
  | case3 p ps has hname =>
      exact eq_keyword_of_isKeyword has ▸ refused _ _ (.noName hname)
  | case4 p has hamp =>
      obtain ⟨span, rfl⟩ := eq_symbol_of_isSymbol hamp
      exact refused _ _ (.noRest span)
  | case5 p has hamp q tail hends ih =>
      obtain ⟨span, rfl⟩ := eq_symbol_of_isSymbol hamp
      exact rest span q tail hends ih
  | case6 p has hamp q tail hends =>
      obtain ⟨span, rfl⟩ := eq_symbol_of_isSymbol hamp
      exact refused _ _ (.trailing span q (Bool.eq_false_iff.mpr hends))
  | case7 p ps has hamp ih =>
      exact item p ps (Bool.eq_false_iff.mpr has) (Bool.eq_false_iff.mpr hamp) ih

section

variable {check check' : Value → Except Fault Unit} {ps : List Value}

theorem checkItems_whole (name : String) (span : Option Span) :
    checkItems check (.keyword "as" :: .symbol name span :: ps) =
      checkItems check ps := by
  rw [checkItems, if_pos (by simp [Value.isKeyword])]

theorem checkItems_rest (span : Option Span) (p : Value) {tail : List Value}
    (h : endsAfterRest tail = true) :
    checkItems check (.symbol "&" span :: p :: tail) =
      (check p >>= fun _ => checkItems check tail) := by
  rw [checkItems.eq_def]
  simp [Value.isKeyword, Value.isSymbol, h]

theorem checkItems_item {p : Value} (has : p.isKeyword "as" = false)
    (hamp : p.isSymbol "&" = false) :
    checkItems check (p :: ps) = (check p >>= fun _ => checkItems check ps) := by
  rw [checkItems.eq_def]
  simp [has, hamp]

theorem Refused.checkItems_eq {fault : Fault} (h : Refused ps fault) :
    checkItems check ps = .error fault := by
  rw [checkItems.eq_def]
  cases h with
  | noName hname => simp [Value.isKeyword]
  | noRest span => simp [Value.isKeyword, Value.isSymbol]
  | trailing span p hends => simp [Value.isKeyword, Value.isSymbol, hends]

theorem checkItems_congr (h : ∀ p ∈ ps, check p = check' p) :
    checkItems check ps = checkItems check' ps := by
  induction ps using items_induct with
  | nil => rfl
  | whole name span ps ih =>
      rw [checkItems_whole, checkItems_whole, ih fun p hp => h p (by simp [hp])]
  | rest span p tail hends ih =>
      rw [checkItems_rest span p hends, checkItems_rest span p hends,
        h p (by simp), ih fun q hq => h q (by simp [hq])]
  | item p ps has hamp ih =>
      rw [checkItems_item has hamp, checkItems_item has hamp, h p (by simp),
        ih fun q hq => h q (by simp [hq])]
  | refused ps fault hrefused =>
      rw [hrefused.checkItems_eq, hrefused.checkItems_eq]

end

section

variable {bind bind' : Value → Value → Action Unit} {scope : Scope}
  {whole : Value} {ps : List Value}

theorem bindItems_whole (name : String) (span : Option Span)
    (items : List Value) :
    bindItems bind scope whole (.keyword "as" :: .symbol name span :: ps) items =
      (Action.define scope name whole >>=
        fun _ => bindItems bind scope whole ps items) := by
  rw [bindItems, if_neg (by simp [Value.isSymbol]),
    if_pos (by simp [Value.isKeyword])]

theorem bindItems_rest (span : Option Span) (p : Value) {tail : List Value}
    (h : endsAfterRest tail = true) (items : List Value) :
    bindItems bind scope whole (.symbol "&" span :: p :: tail) items =
      (bind p (.vectorOf items) >>=
        fun _ => bindItems bind scope whole tail []) := by
  rw [bindItems, if_pos (by simp [Value.isSymbol]), if_pos h]

theorem bindItems_item {p : Value} (has : p.isKeyword "as" = false)
    (hamp : p.isSymbol "&" = false) (items : List Value) :
    bindItems bind scope whole (p :: ps) items =
      (bind p (items.headD .nil) >>=
        fun _ => bindItems bind scope whole ps items.tail) := by
  rw [bindItems.eq_def]
  simp [has, hamp]

theorem Refused.bindItems_eq {fault : Fault} (h : Refused ps fault)
    (items : List Value) :
    bindItems bind scope whole ps items = Action.fail fault := by
  rw [bindItems.eq_def]
  cases h with
  | noName hname => simp [Value.isKeyword, Value.isSymbol]
  | noRest span => simp [Value.isSymbol]
  | trailing span p hends => simp [Value.isSymbol, hends]

theorem bindItems_congr (h : ∀ p ∈ ps, bind p = bind' p) (items : List Value) :
    bindItems bind scope whole ps items =
      bindItems bind' scope whole ps items := by
  induction ps using items_induct generalizing items with
  | nil => rw [bindItems, bindItems]
  | whole name span ps ih =>
      rw [bindItems_whole, bindItems_whole, ih fun p hp => h p (by simp [hp])]
  | rest span p tail hends ih =>
      rw [bindItems_rest span p hends, bindItems_rest span p hends, h p (by simp),
        ih fun q hq => h q (by simp [hq])]
  | item p ps has hamp ih =>
      rw [bindItems_item has hamp, bindItems_item has hamp, h p (by simp),
        ih fun q hq => h q (by simp [hq])]
  | refused ps fault hrefused =>
      rw [hrefused.bindItems_eq, hrefused.bindItems_eq]

end

/-! ## Maps -/

theorem eq_of_role_target {key pattern : Value}
    (h : role key = .target pattern) : pattern = key := by
  unfold role at h
  split at h
  · cases h
  · cases h
  · cases h
  · cases h
  · cases h
  · exact (Role.target.inj h).symm

theorem eq_of_role_defaults {key : Value} (h : role key = .defaults) :
    key = .keyword "or" := by
  unfold role at h
  split at h
  · cases h
  · cases h
  · cases h
  · cases h
  · rfl
  · cases h

theorem forM_congr {m : Type → Type} [Monad m] {α : Type} {f g : α → m PUnit}
    {xs : List α} (h : ∀ x ∈ xs, f x = g x) : xs.forM f = xs.forM g := by
  induction xs with
  | nil => rfl
  | cons x xs ih =>
      rw [List.forM, List.forM, h x List.mem_cons_self,
        ih fun y hy => h y (List.mem_cons_of_mem x hy)]

theorem checkEntry_congr {check check' : Value → Except Fault Unit}
    {e : Value × Value} (h : check e.1 = check' e.1) :
    checkEntry check e = checkEntry check' e := by
  unfold checkEntry
  cases hrole : role e.1 with
  | target pattern =>
      obtain rfl := eq_of_role_target hrole
      exact h
  | _ => rfl

theorem bindEntry_congr {bind bind' : Value → Value → Action Unit}
    {get : Value → Option String → Action Value} {scope : Scope} {whole : Value}
    {e : Value × Value} (h : bind e.1 = bind' e.1) :
    bindEntry bind get scope whole e = bindEntry bind' get scope whole e := by
  unfold bindEntry
  cases hrole : role e.1 with
  | target pattern =>
      obtain rfl := eq_of_role_target hrole
      simp only [h]
  | _ => rfl

/-! ## The equations -/

/-- One step of checking, given how parts are checked. -/
def validateStep (check : Value → Except Fault Unit) (p : Value) :
    Except Fault Unit :=
  match shape p with
  | .name _ => .ok ()
  | .sequence ps => checkItems check ps
  | .associative m => m.entries.forM (checkEntry check)
  | .other typeName => .error (notAPattern typeName)

theorem validateStep_congr {check check' : Value → Except Fault Unit}
    {p : Value} (h : ∀ q ∈ (shape p).parts, check q = check' q) :
    validateStep check p = validateStep check' p := by
  unfold validateStep
  cases hs : shape p with
  | name n => rfl
  | sequence ps =>
      rw [hs] at h
      exact checkItems_congr h
  | associative m =>
      rw [hs] at h
      exact forM_congr fun e he =>
        checkEntry_congr (h e.1 (mem_parts_of_mem_entries he))
  | other t => rfl

/-- Two budgets that cover a pattern give the same answer. -/
theorem validateWithin_congr {n m : Nat} {p : Value} (hn : p.depth ≤ n)
    (hm : p.depth ≤ m) : validateWithin n p = validateWithin m p := by
  induction n generalizing m p with
  | zero => have := p.depth_pos; omega
  | succ n ih =>
      have := p.depth_pos
      obtain ⟨k, rfl⟩ : ∃ k, m = k + 1 := ⟨m - 1, by omega⟩
      show validateStep (validateWithin n) p = validateStep (validateWithin k) p
      refine validateStep_congr fun q hq => ?_
      have := depth_lt_of_mem_parts hq
      exact ih (by omega) (by omega)

/-- Checking in terms of itself. -/
theorem validate_eq (p : Value) : validate p = validateStep validate p := by
  have := p.depth_pos
  obtain ⟨n, hn⟩ : ∃ n, p.depth = n + 1 := ⟨p.depth - 1, by omega⟩
  rw [validate, hn]
  show validateStep (validateWithin n) p = validateStep validate p
  refine validateStep_congr fun q hq => ?_
  have := depth_lt_of_mem_parts hq
  exact validateWithin_congr (by omega) (Nat.le_refl _)

section

variable {eval : Evaluate} {scope : Scope}

/-- One step of binding, given how parts are bound. -/
def bindStep (eval : Evaluate) (scope : Scope)
    (bind : Value → Value → Action Unit) (p v : Value) : Action Unit :=
  match shape p with
  | .name name => Action.define scope name v
  | .sequence ps => do
    bindItems bind scope v ps (← Action.ofExcept (itemsOf v))
  | .associative pattern => do
    let m ← Action.ofExcept (entriesOf v)
    let defaults ← Action.ofExcept (defaultsOf pattern)
    pattern.entries.forM (bindEntry bind (fetch eval scope m defaults) scope v)
  | .other typeName => Action.fail (notAPattern typeName)

theorem bindStep_congr {bind bind' : Value → Value → Action Unit} {p : Value}
    (h : ∀ q ∈ (shape p).parts, bind q = bind' q) (v : Value) :
    bindStep eval scope bind p v = bindStep eval scope bind' p v := by
  unfold bindStep
  cases hs : shape p with
  | name n => rfl
  | sequence ps =>
      rw [hs] at h
      exact bind_congr fun items => bindItems_congr h items
  | associative m =>
      rw [hs] at h
      refine bind_congr fun entries => bind_congr fun defaults =>
        forM_congr fun e he => ?_
      exact bindEntry_congr (h e.1 (mem_parts_of_mem_entries he))
  | other t => rfl

theorem bindWithin_congr {n m : Nat} {p : Value} (hn : p.depth ≤ n)
    (hm : p.depth ≤ m) :
    bindWithin eval scope n p = bindWithin eval scope m p := by
  induction n generalizing m p with
  | zero => have := p.depth_pos; omega
  | succ n ih =>
      have := p.depth_pos
      obtain ⟨k, rfl⟩ : ∃ k, m = k + 1 := ⟨m - 1, by omega⟩
      funext v
      show bindStep eval scope (bindWithin eval scope n) p v =
        bindStep eval scope (bindWithin eval scope k) p v
      refine bindStep_congr (fun q hq => ?_) v
      have := depth_lt_of_mem_parts hq
      exact ih (by omega) (by omega)

/-- Binding in terms of itself. -/
theorem bind_eq (p v : Value) :
    bind eval p v scope =
      bindStep eval scope (fun q w => bind eval q w scope) p v := by
  have := p.depth_pos
  obtain ⟨n, hn⟩ : ∃ n, p.depth = n + 1 := ⟨p.depth - 1, by omega⟩
  rw [bind, hn]
  show bindStep eval scope (bindWithin eval scope n) p v = _
  refine bindStep_congr (fun q hq => ?_) v
  have := depth_lt_of_mem_parts hq
  exact bindWithin_congr (by omega) (Nat.le_refl _)

end

/-! ## Patterns that programs can build -/

section

variable {p q : Value}

open Value (Built)
open HashTrie (BuiltFrom)

theorem builtFrom_of_shape {m : ValueMap} (hp : p.Built)
    (h : shape p = .associative m) : BuiltFrom Built Built m := by
  obtain ⟨span, hdata⟩ := shape_eq_associative h
  have hbuilt := hp.toData
  rw [hdata] at hbuilt
  cases hbuilt with
  | leaf _ he => cases he
  | items hi _ => cases hi
  | map _ hm => exact hm

theorem built_of_mem_parts (hp : p.Built) (h : q ∈ (shape p).parts) :
    q.Built := by
  cases hs : shape p with
  | name n => rw [hs] at h; cases h
  | other t => rw [hs] at h; cases h
  | sequence ps =>
      rw [hs] at h
      exact hp.of_mem_items (items?_of_shape hs) h
  | associative m =>
      rw [hs] at h
      obtain ⟨e, he, rfl⟩ := List.mem_map.mp h
      exact (Value.represents_of_builtFrom (builtFrom_of_shape hp hs)).keys e he

end

end TinyLisp.Pattern
