import TinyLisp.Proofs.Pattern.Parts

/-!
# Valid patterns are those that bind

Checking a pattern and binding it are two walks over the same pattern, and they
agree on its shape. A pattern that passes the check can fail to bind for two
reasons only, and neither is its own: the value has the wrong type somewhere, or
a default that was needed failed to evaluate. A pattern that has ever bound a
value passes the check.

For the second half maps matter: binding asks for `:or` by its hash, and
checking comes across it among all entries. The two meet in a map that was built
by setting and removing keys.
-/

namespace TinyLisp

/-! ## How actions fail, and that they succeed -/

namespace Action

variable {α β : Type} {Q : Failure → Store → Prop}

/-- Where the action fails, its failure and the store it leaves satisfy `Q`. -/
def FailsOnly (Q : Failure → Store → Prop) (x : Action α) : Prop :=
  ∀ s e t, x s = .failure e t → Q e t

theorem failsOnly_pure (a : α) : FailsOnly Q (pure a : Action α) := by
  intro s e t h
  cases h

theorem failsOnly_define (scope : Scope) (name : String) (v : Value) :
    FailsOnly Q (define scope name v) := by
  intro s e t h
  cases h

theorem FailsOnly.bind {x : Action α} {f : α → Action β} (hx : FailsOnly Q x)
    (hf : ∀ a, FailsOnly Q (f a)) : FailsOnly Q (x >>= f) := by
  intro s e u h
  rcases bind_eq_failure h with hfail | ⟨a, t, -, hfail⟩
  · exact hx s e u hfail
  · exact hf a t e u hfail

theorem failsOnly_ofExcept_bind {x : Except Fault α} {f : α → Action β}
    (herror : ∀ fault s, x = .error fault → Q (.ofFault fault) s)
    (hok : ∀ a, x = .ok a → FailsOnly Q (f a)) :
    FailsOnly Q (ofExcept x >>= f) := by
  cases x with
  | ok a => exact hok a rfl
  | error fault =>
      intro s e t h
      obtain ⟨rfl, rfl⟩ := Outcome.failure.inj h
      exact herror fault s rfl

theorem FailsOnly.forM {f : α → Action Unit} {xs : List α}
    (h : ∀ x ∈ xs, FailsOnly Q (f x)) : FailsOnly Q (xs.forM f) := by
  induction xs with
  | nil => exact failsOnly_pure _
  | cons x xs ih =>
      exact (h x List.mem_cons_self).bind fun _ => ih fun y hy =>
        h y (List.mem_cons_of_mem x hy)

/-- The action has a result on some store. -/
def Succeeds (x : Action α) : Prop :=
  ∃ s a t, x s = .result a t

theorem not_succeeds_fail (fault : Fault) :
    ¬ Succeeds (fail fault : Action α) := by
  rintro ⟨s, a, t, h⟩
  cases h

theorem Succeeds.of_bind {x : Action α} {f : α → Action β}
    (h : Succeeds (x >>= f)) : x.Succeeds ∧ ∃ a, (f a).Succeeds := by
  obtain ⟨s, b, u, h⟩ := h
  obtain ⟨a, t, hx, hf⟩ := bind_eq_result h
  exact ⟨⟨s, a, t, hx⟩, a, t, b, u, hf⟩

theorem Succeeds.of_ofExcept_bind {x : Except Fault α} {f : α → Action β}
    (h : Succeeds (ofExcept x >>= f)) : ∃ a, x = .ok a ∧ (f a).Succeeds := by
  cases x with
  | ok a => exact ⟨a, rfl, h⟩
  | error fault => exact absurd h (not_succeeds_fail fault)

theorem Succeeds.of_forM {f : α → Action Unit} {xs : List α}
    (h : Succeeds (xs.forM f)) : ∀ x ∈ xs, (f x).Succeeds := by
  induction xs with
  | nil => exact nofun
  | cons x xs ih =>
      obtain ⟨hx, _, hxs⟩ := Succeeds.of_bind h
      exact List.forall_mem_cons.mpr ⟨hx, ih hxs⟩

end Action

end TinyLisp

namespace TinyLisp.Pattern

open TinyLisp.Action (FailsOnly Succeeds failsOnly_pure failsOnly_define
  failsOnly_ofExcept_bind not_succeeds_fail)

/-- `expr` is a default of the pattern or of a pattern inside it. -/
inductive HasDefault : Value → Value → Prop where
  | here {p expr : Value} {m defaults : ValueMap} {span : Option Span}
      {name : String} (hp : shape p = .associative m)
      (hor : m.get? (.keyword "or") = some (.map defaults span))
      (h : ValueMap.lookup defaults (.symbol name none) = some expr) :
      HasDefault p expr
  | part {p q expr : Value} (hq : q ∈ (shape p).parts) (h : HasDefault q expr) :
      HasDefault p expr

/-- A failure that is not the pattern's own: somewhere a value of the wrong type
stood where a sequence or a map was wanted, or the evaluation of a default
failed and this is how it ended. -/
inductive Excused (eval : Evaluate) (scope : Scope) (p : Value) :
    Failure → Store → Prop where
  | mismatch (v : Value) (wanted : Aggregate) (t : Store) :
      Excused eval scope p (.ofFault (.mismatch v.typeName wanted)) t
  | default {expr : Value} {s t : Store} {e : Failure}
      (hdefault : HasDefault p expr)
      (heval : eval expr scope s = .failure e t) : Excused eval scope p e t

theorem Excused.of_part {eval : Evaluate} {scope : Scope} {p q : Value}
    {e : Failure} {t : Store} (h : Excused eval scope q e t)
    (hq : q ∈ (shape p).parts) : Excused eval scope p e t := by
  cases h with
  | mismatch v wanted t => exact .mismatch v wanted t
  | default hdefault heval => exact .default (.part hq hdefault) heval

/-! ## Checks in a row -/

theorem bind_eq_ok_iff {x y : Except Fault Unit} :
    (x >>= fun _ => y) = .ok () ↔ x = .ok () ∧ y = .ok () := by
  cases x with
  | ok a => exact ⟨fun h => ⟨rfl, h⟩, fun h => h.2⟩
  | error e => exact ⟨nofun, nofun⟩

theorem forM_eq_ok_iff {α : Type} {f : α → Except Fault Unit} {xs : List α} :
    xs.forM f = .ok () ↔ ∀ x ∈ xs, f x = .ok () := by
  induction xs with
  | nil => exact ⟨nofun, fun _ => rfl⟩
  | cons x xs ih => rw [List.forM, bind_eq_ok_iff, ih, List.forall_mem_cons]

/-! ## Vectors -/

section

variable {check : Value → Except Fault Unit}
  {bind : Value → Value → Action Unit} {Q : Failure → Store → Prop}
  {scope : Scope} {whole : Value} {ps : List Value}

theorem bindItems_failsOnly
    (hbind : ∀ p ∈ ps, check p = .ok () → ∀ v, FailsOnly Q (bind p v))
    (h : checkItems check ps = .ok ()) (items : List Value) :
    FailsOnly Q (bindItems bind scope whole ps items) := by
  induction ps using items_induct generalizing items with
  | nil =>
      rw [bindItems]
      exact failsOnly_pure ()
  | whole name span ps ih =>
      rw [checkItems_whole] at h
      rw [bindItems_whole]
      refine (failsOnly_define scope name whole).bind fun _ =>
        ih (fun p hp => ?_) h items
      exact hbind p (by simp [hp])
  | rest span p tail hends ih =>
      rw [checkItems_rest span p hends, bind_eq_ok_iff] at h
      rw [bindItems_rest span p hends]
      refine (hbind p (by simp) h.1 _).bind fun _ => ih (fun q hq => ?_) h.2 []
      exact hbind q (by simp [hq])
  | item p ps has hamp ih =>
      rw [checkItems_item has hamp, bind_eq_ok_iff] at h
      rw [bindItems_item has hamp]
      refine (hbind p (by simp) h.1 _).bind fun _ =>
        ih (fun q hq => ?_) h.2 items.tail
      exact hbind q (by simp [hq])
  | refused ps fault hrefused =>
      rw [hrefused.checkItems_eq] at h
      cases h

theorem checkItems_of_bindItems
    (hbind : ∀ p ∈ ps, ∀ v, (bind p v).Succeeds → check p = .ok ())
    {items : List Value} (h : (bindItems bind scope whole ps items).Succeeds) :
    checkItems check ps = .ok () := by
  induction ps using items_induct generalizing items with
  | nil => rfl
  | whole name span ps ih =>
      rw [bindItems_whole] at h
      obtain ⟨-, _, hps⟩ := h.of_bind
      rw [checkItems_whole]
      exact ih (fun p hp => hbind p (by simp [hp])) hps
  | rest span p tail hends ih =>
      rw [bindItems_rest span p hends] at h
      obtain ⟨hp, _, htail⟩ := h.of_bind
      rw [checkItems_rest span p hends, bind_eq_ok_iff]
      exact ⟨hbind p (by simp) _ hp,
        ih (fun q hq => hbind q (by simp [hq])) htail⟩
  | item p ps has hamp ih =>
      rw [bindItems_item has hamp] at h
      obtain ⟨hp, _, hps⟩ := h.of_bind
      rw [checkItems_item has hamp, bind_eq_ok_iff]
      exact ⟨hbind p (by simp) _ hp, ih (fun q hq => hbind q (by simp [hq])) hps⟩
  | refused ps fault hrefused =>
      rw [hrefused.bindItems_eq] at h
      exact absurd h (not_succeeds_fail fault)

end

/-! ## Maps -/

theorem isSome_mapM_iff {α β : Type} {f : α → Option β} {xs : List α} :
    (xs.mapM f).isSome = true ↔ ∀ x ∈ xs, (f x).isSome = true := by
  induction xs with
  | nil => simp
  | cons x xs ih =>
      rw [List.mapM_cons, List.forall_mem_cons, ← ih]
      cases f x with
      | none => simp
      | some b => cases xs.mapM f <;> simp

/-- What may stand under a key that lists variables. -/
theorem names?_isSome_iff {v : Value} :
    (names? v).isSome = true ↔
      ∃ names span, v = .vector names span ∧
        ∀ x ∈ names.toList, x.symbolName?.isSome = true := by
  cases v with
  | vector names span =>
      rw [names?, isSome_mapM_iff]
      exact ⟨fun h => ⟨names, span, rfl, h⟩, fun ⟨_, _, heq, h⟩ =>
        by cases heq; exact h⟩
  | _ => exact ⟨nofun, fun ⟨_, _, heq, _⟩ => nomatch heq⟩

section

variable {check : Value → Except Fault Unit}
  {bind : Value → Value → Action Unit}
  {get : Value → Option String → Action Value} {Q : Failure → Store → Prop}
  {scope : Scope} {whole : Value} {e : Value × Value}

theorem bindNames_failsOnly (hget : ∀ key name?, FailsOnly Q (get key name?))
    (n : Naming) {vs : List Value} (h : ∀ v ∈ vs, v.symbolName?.isSome = true) :
    FailsOnly Q (bindNames get scope n vs) := by
  induction vs with
  | nil => exact failsOnly_pure ()
  | cons v vs ih =>
      obtain ⟨hv, hvs⟩ := List.forall_mem_cons.mp h
      obtain ⟨name, hname⟩ := Option.isSome_iff_exists.mp hv
      rw [bindNames, hname]
      exact (hget _ _).bind fun w =>
        (failsOnly_define scope name w).bind fun _ => ih hvs

theorem names_of_bindNames {n : Naming} {vs : List Value}
    (h : (bindNames get scope n vs).Succeeds) :
    ∀ v ∈ vs, v.symbolName?.isSome = true := by
  induction vs with
  | nil => exact nofun
  | cons v vs ih =>
      rw [bindNames] at h
      cases hname : v.symbolName? with
      | none =>
          rw [hname] at h
          exact absurd h (not_succeeds_fail _)
      | some name =>
          rw [hname] at h
          obtain ⟨-, w, hw⟩ := h.of_bind
          obtain ⟨-, _, hvs⟩ := hw.of_bind
          exact List.forall_mem_cons.mpr ⟨by rw [hname]; rfl, ih hvs⟩

theorem bindEntry_failsOnly
    (hbind : check e.1 = .ok () → ∀ v, FailsOnly Q (bind e.1 v))
    (hget : ∀ key name?, FailsOnly Q (get key name?))
    (h : checkEntry check e = .ok ()) :
    FailsOnly Q (bindEntry bind get scope whole e) := by
  unfold checkEntry at h
  unfold bindEntry
  cases hrole : role e.1 with
  | names n =>
      simp only [hrole] at h ⊢
      split at h
      · next hnames =>
          obtain ⟨names, span, hvector, hall⟩ := names?_isSome_iff.mp hnames
          rw [hvector]
          exact bindNames_failsOnly hget n hall
      · cases h
  | whole =>
      simp only [hrole] at h ⊢
      cases hname : e.2.symbolName? with
      | none => rw [hname] at h; cases h
      | some name => exact failsOnly_define scope name whole
  | defaults => exact failsOnly_pure ()
  | target pattern =>
      simp only [hrole] at h ⊢
      obtain rfl := eq_of_role_target hrole
      exact (hget _ _).bind fun v => hbind h v

/-- Of the defaults binding an entry tells nothing; they have been
looked at before. -/
theorem checkEntry_of_bindEntry
    (hbind : ∀ v, (bind e.1 v).Succeeds → check e.1 = .ok ())
    (hor : e.1 = .keyword "or" → ∃ m span, e.2 = .map m span)
    (h : (bindEntry bind get scope whole e).Succeeds) :
    checkEntry check e = .ok () := by
  unfold bindEntry at h
  unfold checkEntry
  cases hrole : role e.1 with
  | names n =>
      simp only [hrole] at h ⊢
      refine if_pos (names?_isSome_iff.mpr ?_)
      split at h
      · next names span hvector =>
          exact ⟨names, span, hvector, names_of_bindNames h⟩
      · exact absurd h (not_succeeds_fail _)
  | whole =>
      simp only [hrole] at h ⊢
      cases hname : e.2.symbolName? with
      | none =>
          rw [hname] at h
          exact absurd h (not_succeeds_fail _)
      | some name => rfl
  | defaults =>
      obtain ⟨m, span, hmap⟩ := hor (eq_of_role_defaults hrole)
      simp only [hmap]
  | target pattern =>
      simp only [hrole] at h ⊢
      obtain rfl := eq_of_role_target hrole
      obtain ⟨-, v, hv⟩ := h.of_bind
      exact hbind v hv

end

/-! ## Defaults -/

theorem eq_keyword_of_beq {v : Value} {name : String}
    (h : (v == .keyword name) = true) : v = .keyword name := by
  rcases v.items_or_entries_or_leaf with ⟨xs, hi⟩ | ⟨es, he⟩ | ⟨hi, he⟩
  · obtain ⟨ys, hys, -⟩ := (Value.beq_of_items hi).mp h
    cases hys
  · obtain ⟨fs, hfs, -⟩ := (Value.beq_of_entries he).mp h
    cases hfs
  · have hleaf := (Value.beq_of_leaf hi he).mp h
    cases v with
    | keyword n => rw [eq_of_beq hleaf]
    | _ => cases hleaf

section

variable {m : ValueMap}

theorem get?_or_of_defaultsOf {defaults : ValueMap}
    (h : defaultsOf m = .ok (some defaults)) :
    ∃ span, m.get? (.keyword "or") = some (.map defaults span) := by
  unfold defaultsOf at h
  split at h
  · next ds span hget =>
      obtain rfl := Option.some.inj (Except.ok.inj h)
      exact ⟨span, hget⟩
  · cases h
  · cases h

/-- What is found under `:or` is an entry, so it has been checked. -/
theorem defaultsOf_ne_error {check : Value → Except Fault Unit}
    (h : ∀ e ∈ m.entries, checkEntry check e = .ok ()) (fault : Fault) :
    defaultsOf m ≠ .error fault := by
  unfold defaultsOf
  split
  · exact nofun
  · next v hmap hget =>
      obtain ⟨e, he, hkey, rfl⟩ := HashTrie.mem_entries_of_get? hget
      have hcheck := h e he
      rw [checkEntry, eq_keyword_of_beq hkey, role] at hcheck
      dsimp only at hcheck
      split at hcheck
      · next ds span heq => exact absurd heq (hmap ds span)
      · cases hcheck
  · exact nofun

open Value (Built) in
/-- An entry for `:or` is found there, since no other key of the map is equal
to its own. -/
theorem get?_or_of_mem (hm : HashTrie.BuiltFrom Built Built m)
    {e : Value × Value} (he : e ∈ m.entries) (hkey : e.1 = .keyword "or") :
    m.get? (.keyword "or") = some e.2 := by
  obtain ⟨es, hes, -⟩ := hm.represents Value.lawfulOn_built
  have hself := hes.entries Value.lawfulOn_built
  have hor : Built (.keyword "or") := .leaf rfl rfl
  rw [hself.get?_eq Value.lawfulOn_built hor]
  exact HashTrie.find?_of_mem Value.lawfulOn_built hself.keys
    hself.distinct hor he (by rw [hkey]; rfl)

theorem map_of_defaultsOf {v : Value} (hget : m.get? (.keyword "or") = some v)
    {defaults : Option ValueMap} (h : defaultsOf m = .ok defaults) :
    ∃ ds span, v = .map ds span := by
  unfold defaultsOf at h
  rw [hget] at h
  cases v with
  | map ds span => exact ⟨ds, span, rfl⟩
  | _ => cases h

end

theorem fetch_failsOnly {eval : Evaluate} {scope : Scope}
    {Q : Failure → Store → Prop} {defaults : Option ValueMap}
    (h : ∀ ds name expr, defaults = some ds → ValueMap.lookup ds
      (.symbol name none) = some expr → FailsOnly Q (eval expr scope))
    (m : ValueMap) (key : Value) (name? : Option String) :
    FailsOnly Q (fetch eval scope m defaults key name?) := by
  unfold fetch
  split
  · exact failsOnly_pure _
  · split
    · next name ds =>
        split
        · next expr hexpr => exact h ds name expr rfl hexpr
        · exact failsOnly_pure _
    · exact failsOnly_pure _

/-! ## Patterns -/

theorem entriesOf_eq_error {v : Value} {fault : Fault}
    (h : entriesOf v = .error fault) : fault = .mismatch v.typeName .map := by
  unfold entriesOf at h
  split at h
  · cases h
  · cases h
  · exact (Except.error.inj h).symm

theorem itemsOf_eq_error {v : Value} {fault : Fault}
    (h : itemsOf v = .error fault) :
    fault = .mismatch v.typeName .sequence := by
  unfold itemsOf at h
  split at h
  · cases h
  · cases h
  · cases h
  · exact (Except.error.inj h).symm

/-- A valid pattern fails to bind only for reasons that are not its own. -/
theorem bind_failsOnly (eval : Evaluate) (scope : Scope) {p : Value}
    (h : validate p = .ok ()) (v : Value) :
    FailsOnly (Excused eval scope p) (bind eval p v scope) := by
  induction p using induct generalizing v with
  | step p ih =>
      have hparts {q : Value} (hq : q ∈ (shape p).parts)
          (hvalid : validate q = .ok ()) (w : Value) :
          FailsOnly (Excused eval scope p) (bind eval q w scope) :=
        fun s e t hfail => (ih q hq hvalid w s e t hfail).of_part hq
      rw [validate_eq, validateStep] at h
      rw [bind_eq, bindStep]
      cases hs : shape p with
      | name n => exact failsOnly_define scope n v
      | other t => simp only [hs] at h; cases h
      | sequence ps =>
          simp only [hs] at h hparts ⊢
          refine failsOnly_ofExcept_bind (fun fault s hfault => ?_)
            fun items _ => ?_
          · rw [itemsOf_eq_error hfault]
            exact .mismatch v .sequence s
          · exact bindItems_failsOnly (fun q hq => hparts hq) h items
      | associative m =>
          simp only [hs] at h hparts ⊢
          rw [forM_eq_ok_iff] at h
          refine failsOnly_ofExcept_bind (fun fault s hfault => ?_)
            fun entries _ => ?_
          · rw [entriesOf_eq_error hfault]
            exact .mismatch v .map s
          refine failsOnly_ofExcept_bind (fun fault s hfault => ?_)
            fun defaults hdefaults => ?_
          · exact absurd hfault (defaultsOf_ne_error h fault)
          refine FailsOnly.forM fun e he => bindEntry_failsOnly ?_ ?_ (h e he)
          · exact hparts (mem_parts_of_mem_entries he)
          · refine fetch_failsOnly
              (fun ds name expr hds hexpr s e t hfail => ?_) entries
            subst hds
            obtain ⟨span, hor⟩ := get?_or_of_defaultsOf hdefaults
            exact .default (.here hs hor hexpr) hfail

/-- A pattern that has bound a value is valid. -/
theorem validate_of_bind {eval : Evaluate} {scope : Scope} {p v : Value}
    (hp : p.Built) (h : (bind eval p v scope).Succeeds) :
    validate p = .ok () := by
  induction p using induct generalizing v with
  | step p ih =>
      have hparts (q : Value) (hq : q ∈ (shape p).parts) (w : Value)
          (hq' : (bind eval q w scope).Succeeds) : validate q = .ok () :=
        ih q hq (built_of_mem_parts hp hq) hq'
      rw [bind_eq, bindStep] at h
      rw [validate_eq, validateStep]
      cases hs : shape p with
      | name n => rfl
      | other t =>
          simp only [hs] at h
          exact absurd h (not_succeeds_fail _)
      | sequence ps =>
          simp only [hs] at h hparts ⊢
          obtain ⟨items, -, hitems⟩ := h.of_ofExcept_bind
          exact checkItems_of_bindItems hparts hitems
      | associative m =>
          simp only [hs] at h hparts ⊢
          obtain ⟨entries, -, h⟩ := h.of_ofExcept_bind
          obtain ⟨defaults, hdefaults, h⟩ := h.of_ofExcept_bind
          refine forM_eq_ok_iff.mpr fun e he => ?_
          refine checkEntry_of_bindEntry ?_ (fun hkey => ?_) (h.of_forM e he)
          · exact hparts e.1 (mem_parts_of_mem_entries he)
          · exact map_of_defaultsOf
              (get?_or_of_mem (builtFrom_of_shape hp hs) he hkey) hdefaults

end TinyLisp.Pattern
