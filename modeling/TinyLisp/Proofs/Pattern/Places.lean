import TinyLisp.Pattern.Bind
import TinyLisp.Proofs.Builtin.Places

/-!
# Patterns do not look at places

Matching patterns take matching values apart in the same way: they bind the same
names to matching parts, or complain of the same thing after the same bindings.
What a pattern means depends on its shape, and what an entry of it does on its
key; neither depends on where it was read.
-/

namespace TinyLisp.Pattern

open Value (Matches matches_vectorOf matches_headD allMatch_tail)
open TinyLisp.Action (Mirrors mirrors_pure mirrors_fail mirrors_ofExcept
  mirrors_forM mirrors_define)

variable {R : Places} {p p' v v' : Value} {ps ps' : List Value}

/-! ## Shapes and roles -/

/-- The same shape with matching patterns in it. -/
inductive ShapesMatch (R : Places) : Shape → Shape → Prop where
  | name {n : String} : ShapesMatch R (.name n) (.name n)
  | sequence {ps ps' : List Value} (h : AllMatch R ps ps') :
      ShapesMatch R (.sequence ps) (.sequence ps')
  | associative {m m' : ValueMap} (h : m.Matches R m') :
      ShapesMatch R (.associative m) (.associative m')
  | other {typeName : String} :
      ShapesMatch R (.other typeName) (.other typeName)

/-- The same role, of matching patterns. -/
inductive RolesMatch (R : Places) : Role → Role → Prop where
  | names {n : Naming} : RolesMatch R (.names n) (.names n)
  | whole : RolesMatch R .whole .whole
  | defaults : RolesMatch R .defaults .defaults
  | target {p p' : Value} (h : p.Matches R p') :
      RolesMatch R (.target p) (.target p')

theorem shapes_match (h : p.Matches R p') :
    ShapesMatch R (shape p) (shape p') := by
  cases h with
  | symbol _ => exact .name
  | vector items _ => exact .sequence items
  | map entries _ => exact .associative entries
  | mapForm pairs place =>
      cases (Matches.mapForm pairs place).toData with
      | map entries _ => exact .associative entries
  | @closure kind => cases kind <;> exact .other
  | _ => exact .other

theorem roles_match (h : p.Matches R p') : RolesMatch R (role p) (role p') := by
  have htarget := RolesMatch.target h
  cases h with
  | @keyword name =>
      unfold role
      split
      · exact .names
      · exact .names
      · exact .names
      · exact .whole
      · exact .defaults
      · exact .target .keyword
  | _ => exact htarget

theorem endsAfterRest_eq (h : AllMatch R ps ps') :
    endsAfterRest ps = endsAfterRest ps' := by
  rcases h with _ | ⟨hmarker, _ | ⟨hname, _ | ⟨hx, h⟩⟩⟩
  · rfl
  · rfl
  · cases hname with
    | symbol _ => exact hmarker.isKeyword_eq "as"
    | _ => rfl
  · cases hname <;> rfl

theorem names?_eq (h : v.Matches R v') : names? v = names? v' := by
  cases h with
  | @vector xs ys _ _ items =>
      rw [names?, names?]
      generalize xs.toList = names at items
      generalize ys.toList = names' at items
      induction items with
      | nil => rfl
      | cons hx _ ih =>
          rw [List.mapM_cons, List.mapM_cons, hx.symbolName?_eq, ih]
  | _ => rfl

/-! ## Checking -/

section

variable {check : Value → Except Fault Unit}
  (hcheck : ∀ {p p' : Value}, p.Matches R p' → Concur Eq Eq (check p) (check p'))
include hcheck

theorem checkItems_concur (h : AllMatch R ps ps') :
    Concur Eq Eq (checkItems check ps) (checkItems check ps') := by
  generalize hn : ps.length = n
  induction n using Nat.strongRecOn generalizing ps ps' with
  | _ n ih =>
      rcases h with _ | ⟨hp, h⟩
      · exact concur_pure rfl
      unfold checkItems
      rw [hp.isKeyword_eq, hp.isSymbol_eq]
      rw [List.length_cons] at hn
      split
      · rcases h with _ | ⟨hname, h⟩
        · exact concur_error _
        rw [List.length_cons] at hn
        cases hname with
        | symbol _ => exact ih _ (by omega) h rfl
        | _ => exact concur_error _
      · split
        · rcases h with _ | ⟨hrest, h⟩
          · exact concur_error _
          rw [List.length_cons] at hn
          simp only [endsAfterRest_eq h]
          split
          · exact (hcheck hrest).bind_eq fun _ => ih _ (by omega) h rfl
          · exact concur_error _
        · exact (hcheck hp).bind_eq fun _ => ih _ (by omega) h rfl

theorem checkEntry_concur {e e' : Value × Value}
    (h : AssocList.Paired (Matches R) (Matches R) e e') :
    Concur Eq Eq (checkEntry check e) (checkEntry check e') := by
  have hrole := roles_match h.key
  have hvalue := h.value
  unfold checkEntry
  generalize role e.1 = r at hrole
  generalize role e'.1 = r' at hrole
  cases hrole with
  | names => rw [names?_eq hvalue]; exact concur_same _
  | whole => rw [hvalue.symbolName?_eq]; exact concur_same _
  | defaults =>
      obtain ⟨_, v⟩ := e
      obtain ⟨_, v'⟩ := e'
      cases hvalue <;> exact concur_same _
  | target hp => exact hcheck hp

end

theorem validateWithin_concur (n : Nat) (h : p.Matches R p') :
    Concur Eq Eq (validateWithin n p) (validateWithin n p') := by
  induction n generalizing p p' with
  | zero =>
      rw [validateWithin, validateWithin, h.typeName_eq]
      exact concur_error _
  | succ n ih =>
      have hshape := shapes_match h
      rw [validateWithin, validateWithin]
      generalize shape p = s at hshape
      generalize shape p' = s' at hshape
      cases hshape with
      | name => exact concur_pure rfl
      | sequence hps => exact checkItems_concur ih hps
      | associative hm =>
          exact concur_forM (fun _ _ he => checkEntry_concur ih he) hm.entries
      | other => exact concur_error _

/-- Whether a pattern is refused, and what for, does not depend on places. -/
theorem validate_concur (h : p.Matches R p') :
    Concur Eq Eq (validate p) (validate p') := by
  rw [validate, validate, h.depth_eq]
  exact validateWithin_concur _ h

/-! ## Binding -/

theorem itemsOf_concur (h : v.Matches R v') :
    Concur Eq (AllMatch R) (itemsOf v) (itemsOf v') := by
  have htype := h.typeName_eq
  cases h with
  | list items _ => exact concur_pure items
  | vector items _ => exact concur_pure items
  | nil => exact concur_pure .nil
  | _ => exact .error (congrArg (Fault.mismatch · .sequence) htype)

theorem entriesOf_concur (h : v.Matches R v') :
    Concur Eq (ValueMap.Matches R) (entriesOf v) (entriesOf v') := by
  have htype := h.typeName_eq
  cases h with
  | map entries _ => exact concur_pure entries
  | nil => exact concur_pure ValueMap.matches_empty
  | _ => exact .error (congrArg (Fault.mismatch · .map) htype)

theorem defaultsOf_concur {m m' : ValueMap} (h : m.Matches R m') :
    Concur Eq (Option.Rel (ValueMap.Matches R)) (defaultsOf m)
      (defaultsOf m') := by
  have hget := h.get? (k := .keyword "or") .keyword
  unfold defaultsOf
  generalize HashTrie.get? m (.keyword "or") = v? at hget
  generalize HashTrie.get? m' (.keyword "or") = v?' at hget
  cases hget with
  | none => exact concur_pure .none
  | some hv => cases hv with
    | map entries _ => exact concur_pure (.some entries)
    | _ => exact concur_error _

section

variable {eval : Evaluate} {scope : Scope}
  (heval : ∀ {form form' : Value}, form.Matches R form' →
    (eval form scope).Mirrors R (Matches R) (eval form' scope))
include heval

theorem fetch_mirrors {m m' : ValueMap} (hm : m.Matches R m')
    {defaults defaults' : Option ValueMap}
    (hdefaults : Option.Rel (ValueMap.Matches R) defaults defaults')
    {key key' : Value} (hkey : key.Matches R key') (name? : Option String) :
    (fetch eval scope m defaults key name?).Mirrors R (Matches R)
      (fetch eval scope m' defaults' key' name?) := by
  have hlookup := hm.lookup hkey
  unfold fetch
  generalize ValueMap.lookup m key = v? at hlookup
  generalize ValueMap.lookup m' key' = v?' at hlookup
  cases hlookup with
  | some hv => exact mirrors_pure hv
  | none => cases hdefaults with
    | none => cases name? <;> exact mirrors_pure .nil
    | @some ds ds' hds => cases name? with
      | none => exact mirrors_pure .nil
      | some name =>
          have hdefault := hds.lookup (k := .symbol name none) (.symbol R.none)
          simp only
          generalize ValueMap.lookup ds (.symbol name none) = e? at hdefault
          generalize ValueMap.lookup ds' (.symbol name none) = e?' at hdefault
          cases hdefault with
          | none => exact mirrors_pure .nil
          | some he => exact heval he

end

section

variable {get get' : Value → Option String → Action Value} {scope : Scope}
  {whole whole' : Value}
  (hget : ∀ {key key' : Value} (name? : Option String), key.Matches R key' →
    (get key name?).Mirrors R (Matches R) (get' key' name?))

include hget in
theorem bindNames_mirrors (n : Naming) {vs vs' : List Value}
    (h : AllMatch R vs vs') :
    (bindNames get scope n vs).Mirrors R Eq (bindNames get' scope n vs') := by
  induction h with
  | nil => exact mirrors_pure rfl
  | cons hv _ ih =>
      rw [bindNames, bindNames, hv.symbolName?_eq]
      split
      · exact mirrors_fail _
      · next name _ =>
          have hsource : (n.source name).Matches R (n.source name) := by
            cases n with
            | keywords => exact .keyword
            | strings => exact .string
            | symbols => exact .symbol R.none
          exact (hget (some name) hsource).bind fun w w' hw =>
            (mirrors_define scope name hw).bind_eq fun _ => ih

variable {bind : Value → Value → Action Unit}
  (hbind : ∀ {p p' v v' : Value}, p.Matches R p' → v.Matches R v' →
    (bind p v).Mirrors R Eq (bind p' v'))

include hget hbind in
theorem bindEntry_mirrors (hwhole : whole.Matches R whole')
    {e e' : Value × Value} (h : AssocList.Paired (Matches R) (Matches R) e e') :
    (bindEntry bind get scope whole e).Mirrors R Eq
      (bindEntry bind get' scope whole' e') := by
  have hrole := roles_match h.key
  have hvalue := h.value
  unfold bindEntry
  generalize role e.1 = r at hrole
  generalize role e'.1 = r' at hrole
  cases hrole with
  | names =>
      obtain ⟨_, v⟩ := e
      obtain ⟨_, v'⟩ := e'
      cases hvalue with
      | vector items _ => exact bindNames_mirrors hget _ items
      | _ => exact mirrors_fail _
  | whole =>
      simp only [hvalue.symbolName?_eq]
      split
      · exact mirrors_define scope _ hwhole
      · exact mirrors_fail _
  | defaults => exact mirrors_pure rfl
  | target hp =>
      simp only [hp.symbolName?_eq]
      exact (hget _ hvalue).bind fun v v' hv => hbind hp hv

include hbind in
theorem bindItems_mirrors (hwhole : whole.Matches R whole')
    {items items' : List Value} (h : AllMatch R ps ps')
    (hitems : AllMatch R items items') :
    (bindItems bind scope whole ps items).Mirrors R Eq
      (bindItems bind scope whole' ps' items') := by
  generalize hn : ps.length = n
  induction n using Nat.strongRecOn generalizing ps ps' items items' with
  | _ n ih =>
      rcases h with _ | ⟨hp, h⟩
      · rw [bindItems, bindItems]
        exact mirrors_pure rfl
      unfold bindItems
      rw [hp.isKeyword_eq, hp.isSymbol_eq]
      rw [List.length_cons] at hn
      split
      · rcases h with _ | ⟨hrest, h⟩
        · exact mirrors_fail _
        rw [List.length_cons] at hn
        simp only [endsAfterRest_eq h]
        split
        · exact (hbind hrest (matches_vectorOf hitems)).bind_eq fun _ =>
            ih _ (by omega) h .nil rfl
        · exact mirrors_fail _
      · split
        · rcases h with _ | ⟨hname, h⟩
          · exact mirrors_fail _
          rw [List.length_cons] at hn
          cases hname with
          | symbol _ =>
              exact (mirrors_define scope _ hwhole).bind_eq fun _ =>
                ih _ (by omega) h hitems rfl
          | _ => exact mirrors_fail _
        · exact (hbind hp (matches_headD hitems)).bind_eq fun _ =>
            ih _ (by omega) h (allMatch_tail hitems) rfl

end

/-- Matching patterns bind the same names to matching parts of matching
values. -/
theorem bind_mirrors {eval : Evaluate} {scope : Scope}
    (heval : ∀ {form form' : Value}, form.Matches R form' →
      (eval form scope).Mirrors R (Matches R) (eval form' scope))
    (hp : p.Matches R p') (hv : v.Matches R v') :
    (bind eval p v scope).Mirrors R Eq (bind eval p' v' scope) := by
  rw [bind, bind, hp.depth_eq]
  generalize p'.depth = n
  induction n generalizing p p' v v' with
  | zero =>
      rw [bindWithin, bindWithin, hp.typeName_eq]
      exact mirrors_fail _
  | succ n ih =>
      have hshape := shapes_match hp
      simp only [bindWithin]
      generalize shape p = s at hshape
      generalize shape p' = s' at hshape
      cases hshape with
      | name => exact mirrors_define scope _ hv
      | sequence hps =>
          exact (mirrors_ofExcept (itemsOf_concur hv)).bind
            fun items items' hitems => bindItems_mirrors ih hv hps hitems
      | associative hm =>
          refine (mirrors_ofExcept (entriesOf_concur hv)).bind
            fun entries entries' hentries => ?_
          refine (mirrors_ofExcept (defaultsOf_concur hm)).bind
            fun ds ds' hds => ?_
          have hget {key key' : Value} (name? : Option String)
              (hkey : key.Matches R key') :=
            fetch_mirrors heval hentries hds hkey name?
          exact mirrors_forM (fun e e' he => bindEntry_mirrors hget ih hv he)
            hm.entries
      | other => exact mirrors_fail _

end TinyLisp.Pattern
