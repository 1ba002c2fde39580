import TinyLisp.Proofs.Eval.Strategy
import TinyLisp.Proofs.Value.Copy

/-!
# Evaluating literal data

A literal without symbols and lists stands for itself. Evaluating it looks
nothing up and changes nothing; vectors and maps are built anew from the
values of their parts, so what comes out is a copy of what went in. Two steps
of the budget for each level are enough, one to evaluate a form and one to
take its step.
-/

namespace TinyLisp

namespace Value

/-- The second value is the first or stands somewhere inside it. -/
inductive Contains : Value → Value → Prop where
  | self (v : Value) : Contains v v
  | item {v x y : Value} {xs : List Value} (hv : v.items? = some xs)
      (hx : x ∈ xs) (h : Contains x y) : Contains v y
  | entry {v x y : Value} {es : List (Value × Value)}
      (hv : v.entriesBy? Value.beq = some es) (hx : x ∈ inRow es)
      (h : Contains x y) : Contains v y

/-- Neither a symbol nor a list stands anywhere in the value. -/
def Inert (v : Value) : Prop :=
  ∀ x, v.Contains x → x.symbolName? = none ∧ ∀ xs s, x ≠ .list xs s

theorem inert_leaf {v : Value} (hi : v.items? = none)
    (he : v.entriesBy? Value.beq = none) (hs : v.symbolName? = none) :
    v.Inert := by
  intro x hx
  cases hx with
  | self =>
      refine ⟨hs, fun xs s hlist => ?_⟩
      rw [hlist] at hi
      cases hi
  | item hv _ _ => rw [hi] at hv; cases hv
  | entry hv _ _ => rw [he] at hv; cases hv

theorem inert_vector {xs : Items Value} (s : Option Span)
    (h : ∀ x ∈ xs.toList, x.Inert) : (vector xs s).Inert := by
  intro y hy
  cases hy with
  | self => exact ⟨rfl, nofun⟩
  | item hv hx hy =>
      obtain rfl := Option.some.inj hv
      exact h _ hx y hy
  | entry hv _ _ => cases hv

theorem inert_map {m : HashTrie Value Value} (s : Option Span)
    (h : ∀ x ∈ inRow m.entries, x.Inert) : (map m s).Inert := by
  intro y hy
  cases hy with
  | self => exact ⟨rfl, nofun⟩
  | item hv _ _ => cases hv
  | entry hv hx hy =>
      obtain rfl := Option.some.inj hv
      exact h _ hx y hy

theorem Inert.items {v : Value} (h : v.Inert) {xs : List Value}
    (hv : v.items? = some xs) : ∀ x ∈ xs, x.Inert :=
  fun _ hx y hy => h y (.item hv hx hy)

theorem Inert.entries {v : Value} (h : v.Inert) {es : List (Value × Value)}
    (hv : v.entriesBy? Value.beq = some es) : ∀ x ∈ inRow es, x.Inert :=
  fun _ hx y hy => h y (.entry hv hx hy)

end Value

namespace Machine

open Value (Copy Literal Inert inRow)

/-! ## Parts -/

theorem each_result {α β : Type} {f : α → Action β} {s : Store} {xs : List α}
    {ys : List β} (h : List.Forall₂ (fun x y => f x s = .result y s) xs ys) :
    Action.each f xs s = .result ys s := by
  induction h with
  | nil => rfl
  | cons hx _ ih =>
      rw [Action.each, Action.bind_of_result hx, Action.bind_of_result ih]
      rfl

theorem evalEntries_result {ev : Evaluator} {scope : Scope} {s : Store}
    {ps qs : List (Value × Value)}
    (h : List.Forall₂ (fun f w => ev.eval f scope s = .result w s) (inRow ps)
      (inRow qs))
    (m : ValueMap) :
    ev.evalEntries scope m ps s =
      .result (qs.foldl (fun m p => m.insert p.1 p.2) m) s := by
  replace h := Value.forall₂_inRow h
  induction h generalizing m with
  | nil => rfl
  | cons hp _ ih =>
      rw [Evaluator.evalEntries, Action.bind_of_result hp.1,
        Action.bind_of_result hp.2]
      exact ih _

theorem eval_of_stepForm {host : Host} {strategy : Strategy} {n : Nat}
    {form w : Value} {scope : Scope} {s : Store}
    (h : (inner host strategy n).stepForm host form scope s =
      .result (.done w) s) :
    eval host strategy (n + 2) form scope s = .result w s := by
  have hfinish : (inner host strategy n).stepForm host form scope s =
      Evaluator.finish (pure w) s := h
  exact eval_of_finish hfinish

/-! ## Whole literals -/

/-- In every scope and store the form evaluates to this value and
does nothing else. -/
def Denotes (form w : Value) : Prop :=
  ∀ host strategy n, 2 * form.depth ≤ n → ∀ scope s,
    eval host strategy n form scope s = .result w s

theorem denotes_of_stepForm {form w : Value}
    (h : ∀ host strategy n, 2 * form.depth ≤ n + 2 → ∀ scope s,
      (inner host strategy n).stepForm host form scope s = .result (.done w) s) :
    Denotes form w := by
  intro host strategy n hn scope s
  have := form.depth_pos
  obtain ⟨n, rfl⟩ : ∃ k, n = k + 2 := ⟨n - 2, by omega⟩
  exact eval_of_stepForm (h host strategy n hn scope s)

/-- The parts of a form evaluate at two less. -/
theorem Denotes.parts {fs ws : List Value} (h : List.Forall₂ Denotes fs ws)
    {n d : Nat} (hn : 2 * (d + 1) ≤ n + 2) (hd : ∀ f ∈ fs, f.depth ≤ d)
    (host : Host) (strategy : Strategy) (scope : Scope) (s : Store) :
    List.Forall₂ (fun f w => eval host strategy n f scope s = .result w s)
      fs ws := by
  refine Value.forall₂_of_mem h fun f hf w hw => hw host strategy n ?_ scope s
  have := hd f hf
  omega

theorem denotes_vector {items : Items Value} {ws : List Value}
    (h : List.Forall₂ Denotes items.toList ws) (s : Option Span) :
    Denotes (.vector items s) (.vector (.ofList ws) s) := by
  refine denotes_of_stepForm fun host strategy n hn scope store => ?_
  have hparts := Denotes.parts h hn (fun f => Value.depth_le_depthItems) host
    strategy scope store
  rw [Evaluator.stepForm]
  exact Action.bind_of_result (each_result hparts)

theorem denotes_mapForm {ps qs : List (Value × Value)}
    (h : List.Forall₂ Denotes (inRow ps) (inRow qs)) (s : Option Span) :
    Denotes (.mapForm ps s) (.map (.ofList qs) s) := by
  refine denotes_of_stepForm fun host strategy n hn scope store => ?_
  have hdepth : ∀ f ∈ inRow ps, f.depth ≤ Value.depthPairs ps := fun f =>
    Value.depth_le_of_mem_inRow fun e => Value.depth_le_depthPairs
  have hparts := Denotes.parts h hn hdepth host strategy scope store
  rw [Evaluator.stepForm]
  exact Action.bind_of_result (evalEntries_result hparts {})

theorem denotes_map {m : HashTrie Value Value} {qs : List (Value × Value)}
    (h : List.Forall₂ Denotes (inRow m.entries) (inRow qs)) (s : Option Span) :
    Denotes (.map m s) (.map (.ofList qs) s) := by
  refine denotes_of_stepForm fun host strategy n hn scope store => ?_
  have hdepth : ∀ f ∈ inRow m.entries, f.depth ≤ Value.depthTrie m := fun f =>
    Value.depth_le_of_mem_inRow fun e => Value.depth_le_depthTrie
  have hparts := Denotes.parts h hn hdepth host strategy scope store
  rw [Evaluator.stepForm]
  exact Action.bind_of_result (evalEntries_result hparts {})

/-- A copy of an inert literal evaluates to a copy. -/
theorem exists_denotes {v form : Value} (hv : Literal v) (hinert : Inert v)
    (h : Copy v form) : ∃ w, Copy v w ∧ Denotes form w := by
  induction hv generalizing form with
  | symbol s _ => cases (hinert _ (.self _)).1
  | list s _ _ => exact absurd rfl ((hinert _ (.self _)).2 _ _)
  | vector s _ ih =>
      cases h with
      | vector _ t h =>
          have hparts := hinert.items rfl
          obtain ⟨ws, hcopies, hdenotes⟩ :=
              Value.exists_parallel h fun x hx y hxy =>
                ih x hx (hparts x hx) hxy
          exact ⟨.vector (.ofList ws) t, .vector s t hcopies,
            denotes_vector hdenotes t⟩
  | map s hm hlit ih =>
      have hparts := hinert.entries rfl
      cases h with
      | map _ t _ h =>
          obtain ⟨ws, hcopies, hdenotes⟩ :=
              Value.exists_parallel h fun x hx y hxy =>
                ih x hx (hparts x hx) hxy
          obtain ⟨qs, rfl⟩ := Value.exists_inRow hcopies
          exact ⟨_, .ofList hm hlit hcopies s t, denotes_map hdenotes t⟩
      | mapForm _ t h =>
          obtain ⟨ws, hcopies, hdenotes⟩ :=
              Value.exists_parallel h fun x hx y hxy =>
                ih x hx (hparts x hx) hxy
          obtain ⟨qs, rfl⟩ := Value.exists_inRow hcopies
          exact ⟨_, .ofList hm hlit hcopies s t, denotes_mapForm hdenotes t⟩
  | number _ _ =>
      cases h with
      | number h =>
          exact ⟨_, .number h, denotes_of_stepForm fun _ _ _ _ _ _ => rfl⟩
  | _ =>
      cases h
      exact ⟨_, by constructor, denotes_of_stepForm fun _ _ _ _ _ _ => rfl⟩

/-- The form evaluates to a value that is equal to it, in every
scope and store. -/
def SelfEvaluating (form : Value) : Prop :=
  ∃ w, Denotes form w ∧ (w == form) = true

theorem selfEvaluating_of_copy {v form : Value} (hv : Literal v)
    (hinert : Inert v) (h : Copy v form) : SelfEvaluating form := by
  obtain ⟨w, hw, hdenotes⟩ := exists_denotes hv hinert h
  obtain ⟨hsound, hbeq⟩ := h.equals hv
  obtain ⟨hwsound, hwbeq⟩ := hw.equals hv
  have law := Value.lawfulOn_sound
  exact ⟨w, hdenotes,
    law.trans hwsound hv.sound hsound hwbeq (law.symm hsound hv.sound hbeq)⟩

end Machine

end TinyLisp
