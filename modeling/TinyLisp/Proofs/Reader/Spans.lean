import TinyLisp.Proofs.Reader.Places
import TinyLisp.Proofs.Token.Slices
import TinyLisp.Proofs.Value.SelfEquality

/-!
# Spans point at the text of their forms

The span of a form is made of the spans of two tokens: those of its delimiters,
or of one token twice. Everything else follows from where tokens stand. The
tokens of a form stand one behind the other, and what they reach over falls into
the same tokens again, so it is read to the same form. Tokens do not overlap, so
what stands between delimiters lies inside. And tokens are in order, so the
forms are, too, when each is taken in front of its parts.

A form that a mark makes is the exception. It carries the span of the mark,
which is not that of its text, and so does the tag in it.
-/

namespace TinyLisp

namespace Value

/-! ## The forms in a form -/

/-- The forms between the delimiters of a form. -/
def subforms : Value → List Value
  | list xs _ => xs
  | vector xs _ => xs.toList
  | mapForm ps _ => sides ps
  | _ => []

theorem depth_lt_of_mem_subforms {v w : Value} (h : w ∈ v.subforms) :
    w.depth < v.depth := by
  cases v with
  | list xs s => exact depth_lt_of_mem_items rfl h
  | vector xs s => exact depth_lt_of_mem_items rfl h
  | mapForm ps s =>
      have hsides : ∀ w ∈ sides ps, w.depth < (mapForm ps s).depth :=
        forall_mem_sides.mpr fun p hp =>
          (depth_le_depthPairs hp).imp Nat.lt_succ_of_le Nat.lt_succ_of_le
      exact hsides w h
  | _ => cases h

/-- The form and all forms in it, from the left, each in front of
those in it. -/
def walk (v : Value) : List Value :=
  v :: v.subforms.attach.flatMap fun w => walk w.1
termination_by v.depth
decreasing_by exact depth_lt_of_mem_subforms w.2

theorem walk_eq (v : Value) : v.walk = v :: v.subforms.flatMap walk := by
  rw [walk, List.flatMap_subtype (g := walk) (fun _ _ => rfl),
    List.unattach_attach]

theorem mem_walk {v w : Value} :
    w ∈ v.walk ↔ w = v ∨ ∃ x ∈ v.subforms, w ∈ x.walk := by
  rw [walk_eq, List.mem_cons, List.mem_flatMap]

theorem walk_of_leaf {v : Value} (h : v.subforms = []) : v.walk = [v] := by
  rw [walk_eq, h, List.flatMap_nil]

/-- If both forms have a place, the first does not start behind the second. -/
def StartsBy (v w : Value) : Prop :=
  ∀ a b, v.span = some a → w.span = some b → a.start.index ≤ b.start.index

/-- The form has delimiters and reaches from the one to the other; between them
stand these forms. -/
inductive Encloses : Bracket → Value → List Value → Option Span → Prop where
  | list (forms : List Value) (span : Option Span) :
      Encloses .round (.list forms span) forms span
  | vector (forms : List Value) (span : Option Span) :
      Encloses .square (.vector (.ofList forms) span) forms span
  | mapForm (pairs : List (Value × Value)) (span : Option Span) :
      Encloses .curly (.mapForm pairs span) (sides pairs) span

variable {b : Bracket} {v : Value} {parts : List Value} {span : Option Span}

theorem Encloses.subforms_eq (h : Encloses b v parts span) :
    v.subforms = parts := by
  cases h <;> rfl

theorem Encloses.span_eq (h : Encloses b v parts span) : v.span = span := by
  cases h <;> rfl

end Value

namespace Reader

open Value (walk walk_eq mem_walk walk_of_leaf StartsBy Encloses sides)

/-! ## Induction over the grammar -/

/-- The parts of a form are made by tokens in a row, and `motive`
holds of each. -/
def MakeParts (motive : List Token → Value → Prop) (ts : List Token)
    (parts : List Value) : Prop :=
  ∃ tss : List (List Token), ts = tss.flatten ∧
    List.Forall₂ (fun us v => Derives us v ∧ motive us v) tss parts

theorem MakeParts.cons {motive : List Token → Value → Prop} {us ts : List Token}
    {v : Value} {parts : List Value} (hv : Derives us v) (hm : motive us v)
    (h : MakeParts motive ts parts) :
    MakeParts motive (us ++ ts) (v :: parts) := by
  obtain ⟨tss, rfl, hparts⟩ := h
  exact ⟨us :: tss, rfl, .cons ⟨hv, hm⟩ hparts⟩

/-- Forms with delimiters are one case, whatever the delimiters are. -/
theorem Derives.induct {motive : List Token → Value → Prop}
    (atom : ∀ t, t.kind = .atom → motive [t] (classify t.text t.span))
    (string : ∀ t content, t.kind = .string content →
      motive [t] (.string content))
    (bracketed : ∀ b opener closer ts v parts, Encloses b v parts
      (between opener closer) → Derives (opener :: (ts ++ [closer])) v →
      MakeParts motive ts parts → motive (opener :: (ts ++ [closer])) v)
    (mark : ∀ t m ts form, t.kind = .mark m → Derives ts form → motive ts form →
      motive (t :: ts) (Reader.marked m t form))
    {ts : List Token} {form : Value} (h : Derives ts form) :
    motive ts form := by
  refine @Derives.rec (fun ts v _ => motive ts v)
    (fun ts vs _ => MakeParts motive ts vs) (fun ts ps _ =>
      MakeParts motive ts (sides ps)) ?_ ?_ ?_ ?_ ?_ ?_ ?_ ?_ ?_ ?_ ts form h
  · exact fun h => atom _ h
  · exact fun h => string _ _ h
  · exact fun ho h hc ih =>
      bracketed .round _ _ _ _ _ (.list _ _) (.list ho h hc) ih
  · exact fun ho h hc ih =>
      bracketed .square _ _ _ _ _ (.vector _ _) (.vector ho h hc) ih
  · exact fun ho h hc ih =>
      bracketed .curly _ _ _ _ _ (.mapForm _ _) (.mapForm ho h hc) ih
  · exact fun ht h ih => mark _ _ _ _ ht h ih
  · exact ⟨[], rfl, .nil⟩
  · exact fun h _ ih ih' => ih'.cons h ih
  · exact ⟨[], rfl, .nil⟩
  · exact fun hk hv _ ihk ihv ih => (ih.cons hv ihv).cons hk ihk

theorem DerivesAll.makeParts {ts : List Token} {forms : List Value}
    (h : DerivesAll ts forms) : MakeParts (fun _ _ => True) ts forms := by
  induction forms generalizing ts with
  | nil =>
      cases h
      exact ⟨[], rfl, .nil⟩
  | cons form forms ih =>
      cases h with
      | cons h h' => exact (ih h').cons h trivial

/-! ## Places are made of tokens -/

/-- The place reaches from the start of one of the tokens to the
end of another. -/
def Reaches (ts : List Token) (a : Span) : Prop :=
  ∃ t ∈ ts, ∃ u ∈ ts, a = t.span.through u.span

theorem Reaches.mono {ts us : List Token} {a : Span} (h : Reaches ts a)
    (hsub : ts ⊆ us) : Reaches us a := by
  obtain ⟨t, ht, u, hu, rfl⟩ := h
  exact ⟨t, hsub ht, u, hsub hu, rfl⟩

theorem reaches_token {t : Token} {ts : List Token} (h : t ∈ ts) :
    Reaches ts t.span :=
  ⟨t, h, t, h, rfl⟩

theorem classify_leaf (text : String) (a : Span) :
    (classify text a).subforms = [] ∧ ∀ b, (classify text a).span = some b →
      b = a := by
  unfold classify
  split
  · exact ⟨rfl, nofun⟩
  · split
    · exact ⟨rfl, nofun⟩
    · split
      · exact ⟨rfl, nofun⟩
      · split
        · exact ⟨rfl, nofun⟩
        · split
          · exact ⟨rfl, nofun⟩
          · exact ⟨rfl, fun b hb => (Option.some.inj hb).symm⟩

theorem walk_marked (m : Mark) (t : Token) (form : Value) :
    (marked m t form).walk =
      marked m t form :: .symbol m.tag (some t.span) :: form.walk := by
  have hsubforms : (marked m t form).subforms =
      [.symbol m.tag (some t.span), form] := rfl
  have htag : (Value.symbol m.tag (some t.span)).walk =
      [.symbol m.tag (some t.span)] :=
    walk_of_leaf rfl
  rw [walk_eq, hsubforms, List.flatMap_cons, htag, List.flatMap_cons,
    List.flatMap_nil, List.append_nil, List.singleton_append]

theorem MakeParts.exists_of_mem {motive : List Token → Value → Prop}
    {ts : List Token} {parts : List Value} (h : MakeParts motive ts parts)
    {v : Value} (hv : v ∈ parts) :
    ∃ us, us <:+: ts ∧ Derives us v ∧ motive us v := by
  obtain ⟨tss, rfl, hparts⟩ := h
  obtain ⟨us, hus, hderives, hmotive⟩ := exists_of_mem_right hparts hv
  exact ⟨us, List.infix_of_mem_flatten hus, hderives, hmotive⟩

/-- The forms in a form have places between its tokens. -/
theorem Derives.reaches {ts : List Token} {form : Value} (h : Derives ts form) :
    ∀ v ∈ form.walk, ∀ a, v.span = some a → Reaches ts a := by
  refine h.induct (motive := fun ts form => ∀ v ∈ form.walk,
    ∀ a, v.span = some a → Reaches ts a)
    ?atom ?string ?bracketed ?mark
  case atom =>
    intro t _ v hv a ha
    obtain ⟨hleaf, hspan⟩ := classify_leaf t.text t.span
    rw [walk_of_leaf hleaf, List.mem_singleton] at hv
    subst hv
    rw [hspan a ha]
    exact reaches_token List.mem_cons_self
  case string =>
    intro t content _ v hv a ha
    rw [walk_of_leaf rfl, List.mem_singleton] at hv
    subst hv
    cases ha
  case bracketed =>
    intro b opener closer ts form parts hencloses _ hparts v hv a ha
    rcases mem_walk.mp hv with rfl | ⟨part, hpart, hv⟩
    · rw [hencloses.span_eq] at ha
      cases ha
      exact ⟨opener, List.mem_cons_self, closer, by simp, rfl⟩
    · rw [hencloses.subforms_eq] at hpart
      obtain ⟨us, hus, -, ih⟩ := hparts.exists_of_mem hpart
      refine (ih v hv a ha).mono fun u hu => ?_
      exact List.mem_cons_of_mem _ (List.mem_append_left _ (hus.subset hu))
  case mark =>
    intro t m ts form _ _ ih v hv a ha
    rw [walk_marked] at hv
    rcases List.mem_cons.mp hv with rfl | hv
    · cases ha
      exact reaches_token List.mem_cons_self
    · rcases List.mem_cons.mp hv with rfl | hv
      · cases ha
        exact reaches_token List.mem_cons_self
      · exact (ih v hv a ha).mono fun u hu => List.mem_cons_of_mem _ hu

/-! ## Forms stand in order -/

/-- The tokens have some width, and they stand one behind the other. -/
structure Ordered (ts : List Token) : Prop where
  nonempty : ∀ t ∈ ts, t.span.start.index < t.span.stop.index
  pairwise : ts.Pairwise fun t u => t.span.stop.index ≤ u.span.start.index

theorem Ordered.sublist {ts us : List Token} (h : Ordered ts)
    (hsub : us.Sublist ts) : Ordered us :=
  ⟨fun t ht => h.nonempty t (hsub.subset ht), h.pairwise.sublist hsub⟩

/-- No token starts in front of the first one. -/
theorem Ordered.head_le {t u : Token} {ts : List Token} (h : Ordered (t :: ts))
    (hu : u ∈ t :: ts) : t.span.start.index ≤ u.span.start.index := by
  rcases List.mem_cons.mp hu with rfl | hu
  · exact Nat.le_refl _
  · have hwidth := h.nonempty t List.mem_cons_self
    have hnext := (List.pairwise_cons.mp h.pairwise).1 u hu
    omega

/-- A place that starts with the first of the tokens does not start behind any
that they make. -/
theorem Ordered.startsBy_of_head {t : Token} {ts : List Token}
    (h : Ordered (t :: ts)) {v w : Value}
    (hv : ∀ a, v.span = some a → a.start = t.span.start)
    (hw : ∀ b, w.span = some b → Reaches (t :: ts) b) : StartsBy v w := by
  intro a b ha hb
  obtain ⟨u, hu, -, -, rfl⟩ := hw b hb
  rw [hv a ha]
  exact h.head_le hu

theorem Ordered.startsBy_of_append {ts us : List Token} (h : Ordered (ts ++ us))
    {v w : Value} (hv : ∀ a, v.span = some a → Reaches ts a)
    (hw : ∀ b, w.span = some b → Reaches us b) : StartsBy v w := by
  intro a b ha hb
  obtain ⟨t, ht, -, -, rfl⟩ := hv a ha
  obtain ⟨u, hu, -, -, rfl⟩ := hw b hb
  have hwidth := h.nonempty t (List.mem_append_left _ ht)
  have hnext := (List.pairwise_append.mp h.pairwise).2.2 t ht u hu
  show t.span.start.index ≤ u.span.start.index
  omega

/-- Parts that stand in order stand so one behind the other. -/
theorem MakeParts.pairwise {motive : List Token → Value → Prop}
    {ts : List Token} {parts : List Value} (h : MakeParts motive ts parts)
    (ho : Ordered ts)
    (hmotive : ∀ us v, Derives us v → motive us v → Ordered us →
      v.walk.Pairwise StartsBy) :
    (parts.flatMap walk).Pairwise StartsBy := by
  obtain ⟨tss, rfl, hparts⟩ := h
  induction hparts with
  | nil => exact .nil
  | @cons us v tss parts hv hparts ih =>
      rw [List.flatten_cons] at ho
      rw [List.flatMap_cons, List.pairwise_append]
      refine ⟨hmotive us v hv.1 hv.2 (ho.sublist (List.sublist_append_left _ _)),
        ih (ho.sublist (List.sublist_append_right _ _)), fun x hx y hy => ?_⟩
      refine ho.startsBy_of_append (fun a ha => hv.1.reaches x hx a ha)
        fun b hb => ?_
      obtain ⟨part, hpart, hy⟩ := List.mem_flatMap.mp hy
      obtain ⟨vs, hvs, hderives, -⟩ :=
        MakeParts.exists_of_mem ⟨tss, rfl, hparts⟩ hpart
      exact (hderives.reaches y hy b hb).mono hvs.subset

/-- From the left, each form in front of those in it, no form starts in
front of another. -/
theorem Derives.pairwise {ts : List Token} {form : Value} (h : Derives ts form)
    (ho : Ordered ts) : form.walk.Pairwise StartsBy := by
  refine h.induct (motive := fun ts form => Ordered ts →
    form.walk.Pairwise StartsBy)
    ?atom ?string ?bracketed ?mark ho
  case atom =>
    intro t _ _
    rw [walk_of_leaf (classify_leaf t.text t.span).1]
    exact List.pairwise_singleton _ _
  case string =>
    intro t content _ _
    rw [walk_of_leaf rfl]
    exact List.pairwise_singleton _ _
  case bracketed =>
    intro b opener closer ts form parts hencloses hform hparts ho
    rw [walk_eq, hencloses.subforms_eq, List.pairwise_cons]
    refine ⟨fun w hw => ?_, ?_⟩
    · refine ho.startsBy_of_head (fun a ha => ?_) fun b hb => ?_
      · rw [hencloses.span_eq] at ha
        cases ha
        rfl
      · refine hform.reaches w ?_ b hb
        rw [walk_eq, hencloses.subforms_eq]
        exact List.mem_cons_of_mem _ hw
    · refine hparts.pairwise (ho.sublist ?_) fun us v _ hv => hv
      exact (List.sublist_append_left _ _).cons _
  case mark =>
    intro t m ts form _ hform ih ho
    have hbehind : ∀ w ∈ form.walk,
        ∀ b, w.span = some b → Reaches (t :: ts) b :=
      fun w hw b hb => (hform.reaches w hw b hb).mono fun u hu =>
        List.mem_cons_of_mem _ hu
    have htag : ∀ b, (Value.symbol m.tag (some t.span)).span = some b →
        Reaches (t :: ts) b := by
      intro b hb
      cases hb
      exact reaches_token List.mem_cons_self
    have hstart : ∀ v : Value, v.span = some t.span → ∀ a, v.span = some a →
        a.start = t.span.start := by
      intro v hv a ha
      rw [hv] at ha
      cases ha
      rfl
    rw [walk_marked, List.pairwise_cons, List.pairwise_cons]
    refine ⟨fun w hw => ?_, fun w hw => ?_,
      ih (ho.sublist (List.sublist_cons_self _ _))⟩
    · refine ho.startsBy_of_head (hstart _ rfl) ?_
      rcases List.mem_cons.mp hw with rfl | hw
      · exact htag
      · exact hbehind w hw
    · exact ho.startsBy_of_head (hstart _ rfl) (hbehind w hw)

/-! ## Forms with a text of their own -/

/-- The form is the list that a mark makes, or the tag in it. -/
def IsOfMark (m : Mark) (a : Span) (v : Value) : Prop :=
  v = .symbol m.tag (some a) ∨
    ∃ form, v = .list [.symbol m.tag (some a), form] (some a)

/-- The tokens make the form, which reaches from the first to the last of them,
and the forms in it are made by those between two of them. -/
structure Written (ts : List Token) (v : Value) : Prop where
  derives : Derives ts v
  span : ∀ a, v.span = some a → Lexer.extent ts = some a
  inside : ∀ w ∈ v.subforms.flatMap walk, ∀ b, w.span = some b →
    ∃ opener inner closer, ts = opener :: (inner ++ [closer]) ∧ Reaches inner b

theorem written_token {t : Token} {v : Value} (h : Derives [t] v)
    (hleaf : v.subforms = []) (hspan : ∀ a, v.span = some a → a = t.span) :
    Written [t] v := by
  refine ⟨h, fun a ha => ?_, ?_⟩
  · rw [hspan a ha]
    rfl
  · rw [hleaf]
    exact nofun

theorem extent_bracketed (opener closer : Token) (ts : List Token) :
    Lexer.extent (opener :: (ts ++ [closer])) = between opener closer := by
  have hlast : (opener :: (ts ++ [closer])).getLast? = some closer := by
    rw [← List.cons_append, List.getLast?_append]
    rfl
  rw [Lexer.extent, hlast]
  rfl

/-- Each form in a form is written by some of its tokens in a row, or a mark
among them made it. -/
theorem Derives.ofMark_or_written {ts : List Token} {form : Value}
    (h : Derives ts form) :
    ∀ v ∈ form.walk, (∃ t ∈ ts, ∃ m, t.kind = .mark m ∧ IsOfMark m t.span v) ∨
      ∃ us, us <:+: ts ∧ Written us v := by
  refine h.induct (motive := fun ts form => ∀ v ∈ form.walk,
    (∃ t ∈ ts, ∃ m, t.kind = .mark m ∧ IsOfMark m t.span v) ∨
      ∃ us, us <:+: ts ∧ Written us v)
    ?atom ?string ?bracketed ?mark
  case atom =>
    intro t ht v hv
    obtain ⟨hleaf, hspan⟩ := classify_leaf t.text t.span
    rw [walk_of_leaf hleaf, List.mem_singleton] at hv
    subst hv
    exact .inr ⟨[t], List.infix_rfl, written_token (.atom ht) hleaf hspan⟩
  case string =>
    intro t content ht v hv
    rw [walk_of_leaf rfl, List.mem_singleton] at hv
    subst hv
    exact .inr ⟨[t], List.infix_rfl, written_token (.string ht) rfl nofun⟩
  case bracketed =>
    intro b opener closer ts form parts hencloses hform hparts v hv
    rcases mem_walk.mp hv with rfl | ⟨part, hpart, hv⟩
    · refine .inr ⟨_, List.infix_rfl, hform, fun a ha => ?_, fun w hw c hc => ?_⟩
      · rw [extent_bracketed, ← hencloses.span_eq, ha]
      · rw [hencloses.subforms_eq] at hw
        obtain ⟨part, hpart, hw⟩ := List.mem_flatMap.mp hw
        obtain ⟨us, hus, hderives, -⟩ := hparts.exists_of_mem hpart
        exact ⟨opener, ts, closer, rfl,
          (hderives.reaches w hw c hc).mono hus.subset⟩
    · rw [hencloses.subforms_eq] at hpart
      obtain ⟨us, hus, -, ih⟩ := hparts.exists_of_mem hpart
      have hinner : us <:+: opener :: (ts ++ [closer]) :=
        hus.trans ((List.prefix_append _ _).isInfix.trans
          (List.suffix_cons _ _).isInfix)
      rcases ih v hv with ⟨t, ht, hmark⟩ | ⟨vs, hvs, hwritten⟩
      · exact .inl ⟨t, hinner.subset ht, hmark⟩
      · exact .inr ⟨vs, hvs.trans hinner, hwritten⟩
  case mark =>
    intro t m ts form ht _ ih v hv
    rw [walk_marked] at hv
    rcases List.mem_cons.mp hv with rfl | hv
    · exact .inl ⟨t, List.mem_cons_self, m, ht, .inr ⟨form, rfl⟩⟩
    · rcases List.mem_cons.mp hv with rfl | hv
      · exact .inl ⟨t, List.mem_cons_self, m, ht, .inl rfl⟩
      · rcases ih v hv with ⟨u, hu, hmark⟩ | ⟨us, hus, hwritten⟩
        · exact .inl ⟨u, List.mem_cons_of_mem _ hu, hmark⟩
        · exact .inr ⟨us, hus.trans (List.suffix_cons _ _).isInfix, hwritten⟩

/-- Tokens that stand in order enclose those between them. -/
theorem Ordered.inside {opener closer : Token} {ts : List Token}
    (h : Ordered (opener :: (ts ++ [closer]))) {b : Span} (hb : Reaches ts b) :
    opener.span.start.index < b.start.index ∧
      b.stop.index < closer.span.stop.index := by
  obtain ⟨t, ht, u, hu, rfl⟩ := hb
  obtain ⟨hfirst, hrest⟩ := List.pairwise_cons.mp h.pairwise
  have hopener := h.nonempty opener List.mem_cons_self
  have hcloser := h.nonempty closer (by simp)
  have hstart := hfirst t (List.mem_append_left _ ht)
  have hstop :=
    (List.pairwise_append.mp hrest).2.2 u hu closer (List.mem_singleton_self _)
  show opener.span.start.index < t.span.start.index ∧
    u.span.stop.index < closer.span.stop.index
  omega

/-! ## Forms are equal to themselves -/

theorem beq_self_of_isFinite {x : Float} (h : x.isFinite = true) :
    (x == x) = true := by
  have hfinite : x.isFinite = (Number.parts x).isFinite := rfl
  have hnan : x.isNaN = (Number.parts x).isNaN := rfl
  rw [Number.beq_self_iff, hnan]
  rw [hfinite] at h
  cases hx : Number.parts x with
  | notANumber => rw [hx] at h; cases h
  | _ => rfl

theorem classify_beq_self (text : String) (a : Span) :
    (classify text a).Built ∧ (classify text a == classify text a) = true := by
  have hleaf : ∀ v : Value, v.items? = none → v.entriesBy? Value.beq = none →
      Value.sameLeaf v v = true → v.Built ∧ (v == v) = true :=
    fun v hi he hv => ⟨.leaf hi he, by rw [Value.beq_of_leaf hi he, hv]⟩
  unfold classify
  split
  · exact hleaf _ rfl rfl (beq_self_eq_true _)
  · split
    · next x hx =>
        refine hleaf _ rfl rfl (beq_self_of_isFinite ?_)
        unfold atomNumber? at hx
        split at hx
        · exact (Option.filter_eq_some_iff.mp hx).2
        · cases hx
    · split
      · exact hleaf _ rfl rfl rfl
      · split
        · exact hleaf _ rfl rfl rfl
        · split
          · exact hleaf _ rfl rfl rfl
          · exact hleaf _ rfl rfl (beq_self_eq_true _)

theorem beq_self_of_items {v : Value} {xs : List Value}
    (hv : v.items? = some xs) (h : ∀ x ∈ xs, x.Built ∧ (x == x) = true) :
    v.Built ∧ (v == v) = true := by
  refine ⟨.items hv fun x hx => (h x hx).1, ?_⟩
  rw [Value.beq_of_items hv, hv]
  exact ⟨xs, rfl, Value.isEqv_self_iff.mpr fun x hx => (h x hx).2⟩

theorem beq_self_of_pairs {ps : List (Value × Value)} {s : Option Span}
    (h : ∀ x ∈ sides ps, x.Built ∧ (x == x) = true) :
    (Value.mapForm ps s).Built ∧
      (Value.mapForm ps s == .mapForm ps s) = true := by
  have hpairs := Value.forall_mem_sides.mp h
  have hbuilt : (Value.mapForm ps s).Built :=
    .mapForm s (fun p hp => (hpairs p hp).1.1) fun p hp => (hpairs p hp).2.1
  refine ⟨hbuilt, ?_⟩
  have hself : (Value.mapForm ps s == .mapForm ps s) =
      Value.sameEntries Value.beq (AssocList.ofPairs Value.beq ps)
        (AssocList.ofPairs Value.beq ps) := Value.beq_eq ..
  rw [hself, Value.sameEntries_self_iff Value.lawfulOn_built (hbuilt.keyed rfl)]
  intro e he
  have hpair := hpairs e (AssocList.mem_ofPairs he)
  exact ⟨hpair.1.2, hpair.2.2⟩

/-- What is read is equal to itself, since no number that is read is
other than finite. -/
theorem Derives.beq_self {ts : List Token} {form : Value}
    (h : Derives ts form) : form.Built ∧ (form == form) = true := by
  refine h.induct (motive := fun _ form => form.Built ∧ (form == form) = true)
    ?atom ?string ?bracketed ?mark
  case atom => exact fun t _ => classify_beq_self t.text t.span
  case string =>
    intro t content _
    refine ⟨.leaf rfl rfl, ?_⟩
    rw [Value.beq_of_leaf rfl rfl]
    exact beq_self_eq_true content
  case bracketed =>
    intro b opener closer ts form parts hencloses _ hparts
    have hparts : ∀ x ∈ parts, x.Built ∧ (x == x) = true := by
      intro x hx
      obtain ⟨us, -, -, ih⟩ := hparts.exists_of_mem hx
      exact ih
    cases hencloses with
    | list => exact beq_self_of_items rfl hparts
    | vector => exact beq_self_of_items rfl hparts
    | mapForm pairs => exact beq_self_of_pairs hparts
  case mark =>
    intro t m ts form _ _ ih
    have htag : (Value.symbol m.tag (some t.span)).Built ∧
        (Value.symbol m.tag (some t.span) == .symbol m.tag (some t.span)) =
          true := by
      refine ⟨.leaf rfl rfl, ?_⟩
      rw [Value.beq_of_leaf rfl rfl]
      exact beq_self_eq_true m.tag
    exact beq_self_of_items rfl
      (List.forall_mem_cons.mpr ⟨htag, List.forall_mem_singleton.mpr ih⟩)

/-! ## Reading a part of the text -/

/-- The tokens of a text stand elsewhere as well. -/
theorem exists_layout_elsewhere {file : String} {p : Position} {cs : List Char}
    {ts : List Token} (h : Lexer.Layout file p cs ts) (file' : String)
    (p' : Position) :
    ∃ ts', Lexer.Layout file' p' cs ts' ∧
      List.Forall₂ (Token.Matches fun _ _ => True) ts ts' := by
  induction h generalizing p' with
  | last h => exact ⟨[], .last h, .nil⟩
  | token hgap htoken hends _ ih =>
      obtain ⟨ts', hlayout, hts'⟩ := ih (p'.after _)
      exact ⟨_, .token hgap htoken hends hlayout, .cons ⟨rfl, rfl, trivial⟩ hts'⟩

theorem covers_any : Places.any.Covers fun _ _ => True :=
  ⟨fun _ => trivial, fun _ _ => trivial⟩

/-- A text that falls into the tokens of a form is read to this form,
wherever it stands. -/
theorem Derives.read {file : String} {p : Position} {cs : List Char}
    {ts : List Token} {form : Value} (h : Derives ts form)
    (hlayout : Lexer.Layout file p cs ts) (file' : String) :
    ∃ form', readAll (String.ofList cs) file' = .ok [form'] ∧
      (form' == form) = true := by
  obtain ⟨ts', hlayout', hts'⟩ := exists_layout_elsewhere hlayout file' .origin
  have htokens : tokenize (String.ofList cs) file' = .ok ts' := by
    rw [tokenize, String.toList_ofList]
    exact Lexer.tokensFrom_of_layout hlayout'
  have hone : DerivesAll ts [form] := by
    have hone := DerivesAll.cons h .nil
    rwa [List.append_nil] at hone
  have hmatches := ofTokens_matches covers_any hts'
  rw [hone.ofTokens] at hmatches
  generalize hp : Program.ofTokens ts' = p' at hmatches
  obtain ⟨forms', error'⟩ := p'
  obtain ⟨hforms, herror⟩ := hmatches
  cases herror
  cases hforms with
  | @cons _ form' _ _ hform hnil =>
      cases hnil
      refine ⟨form', ?_, ?_⟩
      · rw [readAll, htokens]
        dsimp only
        rw [hp]
        rfl
      · have hself : form.Matches Places.any form :=
          Value.matches_self form fun _ _ => trivial
        exact (Value.respects_beq hform hself).symm.trans h.beq_self.2

theorem char_eq_of_ite {c d : Char} {m : Mark} {kind : TokenKind}
    {other : Option TokenKind} (hkind : kind = .mark m → d = m.char)
    (hother : other = some (.mark m) → c = m.char)
    (h : (if c = d then some kind else other) = some (.mark m)) :
    c = m.char := by
  split at h
  · next hc => exact hc.trans (hkind (Option.some.inj h))
  · exact hother h

theorem char_of_ofChar? {c : Char} {m : Mark} :
    TokenKind.ofChar? c = some (.mark m) → c = m.char := by
  unfold TokenKind.ofChar?
  repeat refine char_eq_of_ite (by rintro ⟨⟩ <;> rfl) ?_
  exact nofun

/-- A mark is a single character. -/
theorem text_of_mark {file : String} {p : Position} {cs : List Char}
    {ts : List Token} (h : Lexer.Layout file p cs ts) {t : Token} (ht : t ∈ ts)
    {m : Mark} (hm : t.kind = .mark m) : t.text = String.ofList [m.char] := by
  induction h with
  | last _ => cases ht
  | @token p g cs rest c kind ts _ htoken _ _ ih =>
      rcases List.mem_cons.mp ht with rfl | ht
      · obtain rfl : kind = .mark m := hm
        have hread := htoken.read [] nofun
        unfold Lexer.lexeme at hread
        split at hread
        · next kind hkind =>
            cases hread
            rw [char_of_ofChar? hkind]
        · split at hread
          · cases hbody : Text.Quoted.decode (cs ++ []) with
            | error flaw => rw [hbody] at hread; cases hread
            | ok body => rw [hbody] at hread; cases hread
          · cases hread
      · exact ih ht

theorem ordered_of_layout {file : String} {cs : List Char} {ts : List Token}
    (h : Lexer.Layout file .origin cs ts) : Ordered ts :=
  ⟨fun t ht => (h.stands t ht).isSlice.nonempty, h.pairwise⟩

/-- Each form with a place is read from the text that its place reaches over,
whatever that text is called, and the forms in it lie strictly inside. The
exceptions are the lists that marks make and the tags in them, which have the
place of the mark. In the order in which forms are read, each in front of those
in it, no place starts in front of an earlier one. -/
theorem spans_exact (source file : String) (forms : List Value)
    (h : readAll source file = .ok forms) :
    (∀ v ∈ forms.flatMap walk, ∀ a, v.span = some a →
      let text := source.toList.extract a.start.index a.stop.index
      (∃ m : Mark, text = [m.char] ∧ IsOfMark m a v) ∨
        (∀ file', ∃ v', readAll (String.ofList text) file' = .ok [v'] ∧
          (v' == v) = true) ∧
        ∀ w ∈ v.subforms.flatMap walk, ∀ b, w.span = some b →
          a.start.index < b.start.index ∧ b.stop.index < a.stop.index) ∧
    (forms.flatMap walk).Pairwise StartsBy := by
  obtain ⟨ts, htokens, hforms⟩ := readAll_eq_ok_iff.mp h
  have hlayout : Lexer.Layout file .origin source.toList ts :=
    Lexer.layout_of_tokensFrom htokens
  have hordered := ordered_of_layout hlayout
  have hparts := hforms.makeParts
  refine ⟨fun v hv a ha => ?_, ?_⟩
  · obtain ⟨form, hform, hv⟩ := List.mem_flatMap.mp hv
    obtain ⟨us, hus, hderives, -⟩ := hparts.exists_of_mem hform
    rcases hderives.ofMark_or_written v hv with ⟨t, ht, m, hm, hmark⟩
      | ⟨vs, hvs, hwritten⟩
    · have ht := hus.subset ht
      have hplace : t.span = a := by
        rcases hmark with rfl | ⟨form, rfl⟩
        · exact Option.some.inj ha
        · exact Option.some.inj ha
      subst hplace
      refine .inl ⟨m, ?_, hmark⟩
      have htext := (hlayout.stands t ht).isSlice.text
      rw [text_of_mark hlayout ht hm] at htext
      exact (String.ofList_injective htext).symm
    · have hextent := hwritten.span a ha
      obtain ⟨before, behind, hts⟩ := hvs.trans hus
      rw [← hts, List.append_assoc] at hlayout
      have hpart := hlayout.part hextent
      refine .inr ⟨hwritten.derives.read hpart, fun w hw b hb => ?_⟩
      obtain ⟨opener, inner, closer, rfl, hreaches⟩ := hwritten.inside w hw b hb
      rw [extent_bracketed] at hextent
      cases hextent
      exact (hordered.sublist (hvs.trans hus).sublist).inside hreaches
  · exact hparts.pairwise hordered fun us v hv _ ho => hv.pairwise ho

/-- A mark, a comment behind it, and on the next line the vector
that is quoted. -/
theorem spans_exact_quoted :
    let place (line col index col' index' : Nat) : Span :=
      ⟨"a", ⟨line, col, index⟩, ⟨line, col', index'⟩⟩
    let b : Value := .symbol "b" (some (place 2 2 5 3 6))
    let vector : Value :=
      .vector (.ofList [b, .keyword "k"]) (some (place 2 1 4 7 10))
    let form : Value := .list [.symbol "quote" (some (place 1 1 0 2 1)), vector]
      (some (place 1 1 0 2 1))
    readAll "\x27;c\n[b :k]" "a" = .ok [form] ∧
      (∀ file', ∃ v', readAll "[b :k]" file' = .ok [v'] ∧ (v' == vector) = true) ∧
      ([form].flatMap walk).Pairwise StartsBy := by
  intro place b vector form
  let mark : Token := ⟨.mark .quote, "\x27", place 1 1 0 2 1⟩
  let name : Token := ⟨.atom, "b", place 2 2 5 3 6⟩
  let key : Token := ⟨.atom, ":k", place 2 4 7 6 9⟩
  let tokens : List Token := mark :: ⟨.opening .square, "[", place 2 1 4 2 5⟩ ::
    ([name, key] ++ [⟨.closing .square, "]", place 2 6 9 7 10⟩])
  have htokens : tokenize "\x27;c\n[b :k]" "a" = .ok tokens := by decide +kernel
  have hb : classify "b" (place 2 2 5 3 6) = b := rfl
  have hk : classify ":k" (place 2 4 7 6 9) = .keyword "k" := rfl
  have hname : Derives [name] b := hb ▸ .atom rfl
  have hkey : Derives [key] (.keyword "k") := hk ▸ .atom rfl
  have hinner : DerivesAll [name, key] [b, .keyword "k"] :=
    .cons hname (.cons hkey .nil)
  have hform : Derives tokens form :=
    .marked (t := mark) rfl (.vector rfl hinner rfl)
  have hread : readAll "\x27;c\n[b :k]" "a" = .ok [form] :=
    readAll_eq_ok_iff.mpr ⟨tokens, htokens,
      by simpa using DerivesAll.cons hform .nil⟩
  obtain ⟨hspans, hordered⟩ := spans_exact _ "a" [form] hread
  have hvector : vector ∈ [form].flatMap walk := by
    refine List.mem_flatMap.mpr ⟨form, List.mem_cons_self, mem_walk.mpr (.inr ?_)⟩
    exact ⟨vector, List.mem_cons_of_mem _ List.mem_cons_self,
      mem_walk.mpr (.inl rfl)⟩
  refine ⟨hread, ?_, hordered⟩
  rcases hspans vector hvector _ rfl with ⟨m, -, hmark⟩ | ⟨hvector, -⟩
  · rcases hmark with hmark | ⟨_, hmark⟩
    · exact nomatch hmark
    · exact nomatch hmark
  · exact hvector

end Reader

end TinyLisp
