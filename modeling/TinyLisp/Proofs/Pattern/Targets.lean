import Mathlib.Logic.Relation
import TinyLisp.Proofs.Pattern.Validity

/-!
# What a pattern asks of a value

A pattern has targets: the variables that it binds itself, and the patterns
inside it, which are bound to parts of the value. `Gives` says which value each
target gets. It is read off the pattern and the value alone: a vector pattern
gives by position, where only the items among its elements count, and a map
pattern gives by key. There is no order in it in which things happen.

From there everything else follows by going down: `Meets` says which values the
patterns inside a pattern meet, `Binds` which variables come out bound, and
`AllFit` that every pattern meets a value it can take apart.
-/

namespace TinyLisp.Pattern

/-- What is bound when a pattern is: a variable, or a pattern inside it. -/
inductive Target where
  | name (n : String)
  | pattern (p : Value)

/-! ## Elements of vectors -/

/-- An element of a vector pattern: a pattern for the item at its position, one
for the items that are left, or a name for the whole value. -/
inductive Element where
  | item (p : Value)
  | rest (p : Value)
  | whole (name : String)

namespace Element

/-- Whether the element takes a position. -/
def isItem : Element → Bool
  | item _ => true
  | rest _ => false
  | whole _ => false

def target : Element → Target
  | item p => .pattern p
  | rest p => .pattern p
  | whole name => .name name

/-- What the element gets of a value with these items if it stands at
the position `i`. -/
def value (v : Value) (items : List Value) (i : Nat) : Element → Value
  | item _ => items[i]?.getD .nil
  | rest _ => .vectorOf (items.drop i)
  | whole _ => v

end Element

/-- The elements of a vector pattern. -/
def elements : List Value → List Element
  | [] => []
  | p :: ps =>
    if p.isSymbol "&" then
      match ps with
      | [] => []
      | rest :: tail => .rest rest :: elements tail
    else if p.isKeyword "as" then
      match ps with
      | .symbol name _ :: ps => .whole name :: elements ps
      | _ => []
    else .item p :: elements ps

/-- How many positions several elements take. -/
def positions (es : List Element) : Nat := es.countP Element.isItem

theorem elements_whole (name : String) (span : Option Span) (ps : List Value) :
    elements (.keyword "as" :: .symbol name span :: ps) =
      .whole name :: elements ps := by
  rw [elements, if_neg (by simp [Value.isSymbol]),
    if_pos (by simp [Value.isKeyword])]

theorem elements_rest (span : Option Span) (p : Value) (tail : List Value) :
    elements (.symbol "&" span :: p :: tail) = .rest p :: elements tail := by
  rw [elements, if_pos (by simp [Value.isSymbol])]

theorem elements_item {p : Value} (has : p.isKeyword "as" = false)
    (hamp : p.isSymbol "&" = false) (ps : List Value) :
    elements (p :: ps) = .item p :: elements ps := by
  rw [elements.eq_def]
  simp [has, hamp]

theorem mem_of_pattern_mem_elements {q : Value} {ps : List Value}
    (h : .pattern q ∈ (elements ps).map Element.target) : q ∈ ps := by
  fun_induction elements ps with
  | case1 => cases h
  | case2 p hamp => cases h
  | case3 p hamp rest tail ih =>
      rcases List.mem_cons.mp h with heq | h
      · obtain rfl := Target.pattern.inj heq
        simp
      · simp [ih h]
  | case4 p hamp has name span ps ih =>
      rcases List.mem_cons.mp h with heq | h
      · cases heq
      · simp [ih h]
  | case5 p ps hamp has hname => cases h
  | case6 p ps hamp has ih =>
      rcases List.mem_cons.mp h with heq | h
      · obtain rfl := Target.pattern.inj heq
        simp
      · simp [ih h]

theorem checkItems_of_mem_elements {check : Value → Except Fault Unit}
    {q : Value} {ps : List Value} (hps : checkItems check ps = .ok ())
    (h : .pattern q ∈ (elements ps).map Element.target) : check q = .ok () := by
  induction ps using items_induct with
  | nil => cases h
  | whole name span ps ih =>
      rw [checkItems_whole] at hps
      rw [elements_whole] at h
      rcases List.mem_cons.mp h with heq | h
      · cases heq
      · exact ih hps h
  | rest span p tail hends ih =>
      rw [checkItems_rest span p hends, bind_eq_ok_iff] at hps
      rw [elements_rest] at h
      rcases List.mem_cons.mp h with heq | h
      · obtain rfl := Target.pattern.inj heq
        exact hps.1
      · exact ih hps.2 h
  | item p ps has hamp ih =>
      rw [checkItems_item has hamp, bind_eq_ok_iff] at hps
      rw [elements_item has hamp] at h
      rcases List.mem_cons.mp h with heq | h
      · obtain rfl := Target.pattern.inj heq
        exact hps.1
      · exact ih hps.2 h
  | refused ps fault hrefused =>
      rw [hrefused.checkItems_eq] at hps
      cases hps

/-! ## Targets and variables -/

def entryTargets (e : Value × Value) : List Target :=
  match role e.1 with
  | .names _ => ((names? e.2).getD []).map .name
  | .whole => e.2.symbolName?.toList.map .name
  | .defaults => []
  | .target pattern => [.pattern pattern]

/-- The targets of a pattern. -/
def targets (p : Value) : List Target :=
  match shape p with
  | .name n => [.name n]
  | .sequence ps => (elements ps).map Element.target
  | .associative m => m.entries.flatMap entryTargets
  | .other _ => []

theorem pattern_mem_entryTargets {q : Value} {e : Value × Value}
    (h : .pattern q ∈ entryTargets e) : role e.1 = .target q := by
  unfold entryTargets at h
  cases hrole : role e.1 with
  | target pattern =>
      simp only [hrole, List.mem_singleton, Target.pattern.injEq] at h
      rw [h]
  | _ => simp [hrole] at h

theorem mem_parts_of_mem_targets {p q : Value} (h : .pattern q ∈ targets p) :
    q ∈ (shape p).parts := by
  unfold targets at h
  cases hs : shape p with
  | name n => simp [hs] at h
  | other t => simp [hs] at h
  | sequence ps =>
      rw [hs] at h
      exact mem_of_pattern_mem_elements h
  | associative m =>
      rw [hs] at h
      obtain ⟨e, he, h⟩ := List.mem_flatMap.mp h
      obtain rfl := eq_of_role_target (pattern_mem_entryTargets h)
      exact mem_parts_of_mem_entries he

theorem validate_of_mem_targets {p q : Value} (hp : validate p = .ok ())
    (h : .pattern q ∈ targets p) : validate q = .ok () := by
  rw [validate_eq, validateStep] at hp
  unfold targets at h
  cases hs : shape p with
  | name n => simp [hs] at h
  | other t => simp [hs] at h
  | sequence ps =>
      simp only [hs] at hp h
      exact checkItems_of_mem_elements hp h
  | associative m =>
      simp only [hs] at hp h
      obtain ⟨e, he, h⟩ := List.mem_flatMap.mp h
      have hcheck := forM_eq_ok_iff.mp hp e he
      rw [checkEntry, pattern_mem_entryTargets h] at hcheck
      exact hcheck

/-- The variables that a pattern and the patterns inside it bind. -/
def boundNames (p : Value) : List String :=
  (targets p).attach.flatMap fun
    | ⟨.name n, _⟩ => [n]
    | ⟨.pattern q, _⟩ => boundNames q
termination_by p.depth
decreasing_by exact depth_lt_of_mem_parts (mem_parts_of_mem_targets ‹_›)

def Target.boundNames : Target → List String
  | name n => [n]
  | pattern q => Pattern.boundNames q

theorem boundNames_eq (p : Value) :
    boundNames p = (targets p).flatMap Target.boundNames := by
  rw [boundNames]
  conv_rhs => rw [← List.attach_map_subtype_val (targets p), List.flatMap_map]
  congr 1
  funext ⟨t, _⟩
  cases t <;> rfl

theorem not_hasDefault_of_leaf {p d : Value} (hp : (shape p).parts = []) :
    ¬ HasDefault p d := by
  intro h
  cases h with
  | here hs hor _ =>
      obtain ⟨e, he, -, -⟩ := HashTrie.mem_entries_of_get? hor
      rw [hs] at hp
      exact List.not_mem_nil (hp ▸ mem_parts_of_mem_entries he)
  | part hq _ => exact List.not_mem_nil (hp ▸ hq)

/-! ## What targets get -/

/-- In every scope and store the form evaluates to this value and
does nothing else. -/
def Fixed (eval : Evaluate) (form w : Value) : Prop :=
  ∀ scope s, eval form scope s = .result w s

theorem Fixed.unique {eval : Evaluate} {form v w : Value}
    (h : Fixed eval form v) (h' : Fixed eval form w) : v = w := by
  have heq := (h ⟨0, []⟩ {}).symm.trans (h' ⟨0, []⟩ {})
  exact (Outcome.result.inj heq).1

/-- The default of a variable in a map pattern. -/
def default? (m : ValueMap) (name? : Option String) : Option Value :=
  match m.get? (.keyword "or"), name? with
  | some (.map defaults _), some name =>
    ValueMap.lookup defaults (.symbol name none)
  | _, _ => none

/-- What is found among these entries under a key, for a variable of the map
pattern `m`: the entry if there is one, `nil` or not, else what the default of
the variable is worth, else `nil`. -/
def Fetched (worth : Value → Value → Prop) (m entries : ValueMap) (key : Value)
    (name? : Option String) (u : Value) : Prop :=
  match ValueMap.lookup entries key, default? m name? with
  | some found, _ => u = found
  | none, some d => worth d u
  | none, none => u = .nil

section

variable (eval : Evaluate)

/-- An entry `e` of the map pattern `m` gives this value to this target. -/
inductive EntryGives (m entries : ValueMap) (v : Value) (e : Value × Value) :
    Target → Value → Prop where
  | listed {n : Naming} {names : List String} {name : String} {u : Value}
      (hrole : role e.1 = .names n) (hnames : names? e.2 = some names)
      (hname : name ∈ names)
      (hu : Fetched (Fixed eval) m entries (n.source name) (some name) u) :
      EntryGives m entries v e (.name name) u
  | whole {name : String} (hrole : role e.1 = .whole)
      (hname : e.2.symbolName? = some name) :
      EntryGives m entries v e (.name name) v
  | target {p u : Value} (hrole : role e.1 = .target p)
      (hu : Fetched (Fixed eval) m entries e.2 p.symbolName? u) :
      EntryGives m entries v e (.pattern p) u

/-- Taken apart by the pattern `p`, the value `v` gives this value
to this target. -/
inductive Gives (p v : Value) : Target → Value → Prop where
  | name {n : String} (hp : shape p = .name n) : Gives p v (.name n) v
  | element {ps items : List Value} {before after : List Element} {e : Element}
      (hp : shape p = .sequence ps) (hv : itemsOf v = .ok items)
      (he : elements ps = before ++ e :: after) :
      Gives p v e.target (e.value v items (positions before))
  | entry {m entries : ValueMap} {e : Value × Value} {t : Target} {u : Value}
      (hp : shape p = .associative m) (hv : entriesOf v = .ok entries)
      (he : e ∈ m.entries) (h : EntryGives eval m entries v e t u) :
      Gives p v t u

/-- Binding `p` to `v` leads to binding `q`, which is `p` or a pattern inside
it, to `u`. -/
def Meets (p v q u : Value) : Prop :=
  Relation.ReflTransGen (fun a b => Gives eval a.1 a.2 (.pattern b.1) b.2)
    (p, v) (q, u)

/-- Binding `p` to `v` leads to binding the variable to `u`. -/
def Binds (p v : Value) (name : String) (u : Value) : Prop :=
  ∃ q w, Meets eval p v q w ∧ Gives eval q w (.name name) u

end

/-- The value can be taken apart by the pattern: by a vector if it is a list, a
vector or `nil`, and by a map if it is a map or `nil`. -/
def Fits (p v : Value) : Prop :=
  match shape p with
  | .name _ => True
  | .sequence _ => ∃ items, itemsOf v = .ok items
  | .associative _ => ∃ entries, entriesOf v = .ok entries
  | .other _ => False

/-- Each pattern in `p` meets a value that it can take apart. -/
def AllFit (eval : Evaluate) (p v : Value) : Prop :=
  ∀ q u, Meets eval p v q u → Fits q u

namespace Target

variable (eval : Evaluate)

def AllFit (t : Target) (u : Value) : Prop :=
  match t with
  | name _ => True
  | pattern q => Pattern.AllFit eval q u

def Binds (t : Target) (u : Value) (n : String) (w : Value) : Prop :=
  match t with
  | name m => n = m ∧ w = u
  | pattern q => Pattern.Binds eval q u n w

end Target

section

variable {eval : Evaluate} {p v : Value}

theorem gives_of_name {n : String} (hp : shape p = .name n) {t : Target}
    {u : Value} : Gives eval p v t u ↔ t = .name n ∧ u = v := by
  constructor
  · intro h
    cases h with
    | name hp' => exact ⟨by rw [Shape.name.inj (hp.symm.trans hp')], rfl⟩
    | element hp' _ _ => rw [hp] at hp'; cases hp'
    | entry hp' _ _ _ => rw [hp] at hp'; cases hp'
  · rintro ⟨rfl, rfl⟩
    exact .name hp

theorem gives_of_sequence {ps items : List Value} (hp : shape p = .sequence ps)
    (hv : itemsOf v = .ok items) {t : Target} {u : Value} :
    Gives eval p v t u ↔ ∃ before e after, elements ps = before ++ e :: after ∧
      (t, u) = (e.target, e.value v items (positions before)) := by
  constructor
  · intro h
    cases h with
    | name hp' => rw [hp] at hp'; cases hp'
    | @element qs xs before after e hp' hv' he =>
        obtain rfl := Shape.sequence.inj (hp.symm.trans hp')
        obtain rfl := Except.ok.inj (hv.symm.trans hv')
        exact ⟨before, e, after, he, rfl⟩
    | entry hp' _ _ _ => rw [hp] at hp'; cases hp'
  · rintro ⟨before, e, after, he, h⟩
    obtain ⟨rfl, rfl⟩ := Prod.mk.inj h
    exact .element hp hv he

theorem gives_of_associative {m entries : ValueMap}
    (hp : shape p = .associative m) (hv : entriesOf v = .ok entries)
    {t : Target} {u : Value} :
    Gives eval p v t u ↔ ∃ e ∈ m.entries, EntryGives eval m entries v e t u := by
  constructor
  · intro h
    cases h with
    | name hp' => rw [hp] at hp'; cases hp'
    | element hp' _ _ => rw [hp] at hp'; cases hp'
    | @entry m' entries' e _ _ hp' hv' he h =>
        obtain rfl := Shape.associative.inj (hp.symm.trans hp')
        obtain rfl := Except.ok.inj (hv.symm.trans hv')
        exact ⟨e, he, h⟩
  · rintro ⟨e, he, h⟩
    exact .entry hp hv he h

theorem mem_targets_of_gives {t : Target} {u : Value} (h : Gives eval p v t u) :
    t ∈ targets p := by
  unfold targets
  cases h with
  | name hp => simp [hp]
  | element hp _ he => simp [hp, he]
  | @entry m entries e _ _ hp _ he h =>
      rw [hp]
      refine List.mem_flatMap.mpr ⟨e, he, ?_⟩
      unfold entryTargets
      cases h with
      | listed hrole hnames hname _ =>
          rw [hrole, hnames]
          exact List.mem_map_of_mem hname
      | whole hrole hname => simp [hrole, hname]
      | target hrole _ => simp [hrole]

/-- What passes from a pattern to its parts holds of the patterns
that are reached. -/
theorem Meets.of_parts {motive : Value → Prop} {q u : Value}
    (h : Meets eval p v q u)
    (step : ∀ q r, motive q → .pattern r ∈ targets q → motive r)
    (hp : motive p) : motive q := by
  unfold Meets at h
  generalize hb : (q, u) = b at h
  induction h generalizing q u with
  | refl => exact (Prod.mk.inj hb).1 ▸ hp
  | tail _ hgives ih =>
      obtain rfl := hb
      exact step _ _ (ih rfl) (mem_targets_of_gives hgives)

theorem allFit_iff :
    AllFit eval p v ↔ Fits p v ∧ ∀ t u, Gives eval p v t u →
      t.AllFit eval u := by
  constructor
  · intro h
    refine ⟨h p v .refl, fun t u hgives => ?_⟩
    cases t with
    | name n => trivial
    | pattern q => exact fun r w hmeets => h r w (.head hgives hmeets)
  · rintro ⟨hfits, h⟩ q u hmeets
    rcases hmeets.cases_head with heq | ⟨b, hgives, hmeets⟩
    · obtain ⟨rfl, rfl⟩ := Prod.mk.inj heq
      exact hfits
    · exact h _ _ hgives q u hmeets

theorem binds_iff {n : String} {w : Value} :
    Binds eval p v n w ↔ ∃ t u, Gives eval p v t u ∧ t.Binds eval u n w := by
  constructor
  · rintro ⟨q, x, hmeets, hgives⟩
    rcases hmeets.cases_head with heq | ⟨b, hfirst, hmeets⟩
    · obtain ⟨rfl, rfl⟩ := Prod.mk.inj heq
      exact ⟨_, w, hgives, rfl, rfl⟩
    · exact ⟨_, _, hfirst, q, x, hmeets, hgives⟩
  · rintro ⟨t, u, hgives, hbinds⟩
    cases t with
    | name m =>
        obtain ⟨rfl, rfl⟩ := hbinds
        exact ⟨p, v, .refl, hgives⟩
    | pattern q =>
        obtain ⟨r, x, hmeets, hlast⟩ := hbinds
        exact ⟨r, x, .head hgives hmeets, hlast⟩

end

end TinyLisp.Pattern
