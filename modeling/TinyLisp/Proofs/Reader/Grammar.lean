import TinyLisp.Engine
import TinyLisp.Proofs.Reader.Basic

/-!
# The reader accepts exactly the grammar

Which tokens make which form can be said without a reader: an atom and a string
stand alone, brackets enclose forms, a mark leads one. `Derives` says so, with
the spans that forms carry.

That derived tokens are read is what `Delivers` is for: it holds of derived
tokens whatever is open in front of them. For the converse the stack of open
brackets and marks is taken as a derivation that is not finished. `Opened` says
which tokens have gone into it; each token that is read is put to them, and when
a form comes out they derive it. No token is lost or used twice on the way, so
what is left behind a form is the rest of the input.

The reader is a function, and so it also settles that no tokens can be divided
in two ways.
-/

namespace TinyLisp.Reader

/-! ## The grammar -/

mutual

/-- The tokens make this form. -/
inductive Derives : List Token → Value → Prop where
  | atom {t : Token} (h : t.kind = .atom) : Derives [t] (classify t.text t.span)
  | string {t : Token} {content : String} (h : t.kind = .string content) :
      Derives [t] (.string content)
  | list {opener closer : Token} {ts : List Token} {forms : List Value}
      (ho : opener.kind = .opening .round) (h : DerivesAll ts forms)
      (hc : closer.kind = .closing .round) :
      Derives (opener :: (ts ++ [closer])) (.list forms (between opener closer))
  | vector {opener closer : Token} {ts : List Token} {forms : List Value}
      (ho : opener.kind = .opening .square) (h : DerivesAll ts forms)
      (hc : closer.kind = .closing .square) :
      Derives (opener :: (ts ++ [closer]))
        (.vector (.ofList forms) (between opener closer))
  | mapForm {opener closer : Token} {ts : List Token}
      {pairs : List (Value × Value)} (ho : opener.kind = .opening .curly)
      (h : DerivesPairs ts pairs) (hc : closer.kind = .closing .curly) :
      Derives (opener :: (ts ++ [closer]))
        (.mapForm pairs (between opener closer))
  | marked {t : Token} {m : Mark} {ts : List Token} {form : Value}
      (ht : t.kind = .mark m) (h : Derives ts form) :
      Derives (t :: ts) (marked m t form)

/-- The tokens make these forms, one after the other. -/
inductive DerivesAll : List Token → List Value → Prop where
  | nil : DerivesAll [] []
  | cons {ts ts' : List Token} {form : Value} {forms : List Value}
      (h : Derives ts form) (h' : DerivesAll ts' forms) :
      DerivesAll (ts ++ ts') (form :: forms)

/-- The tokens make these pairs of forms, one after the other. -/
inductive DerivesPairs : List Token → List (Value × Value) → Prop where
  | nil : DerivesPairs [] []
  | cons {ks vs ts : List Token} {key value : Value}
      {pairs : List (Value × Value)} (hk : Derives ks key)
      (hv : Derives vs value) (h : DerivesPairs ts pairs) :
      DerivesPairs (ks ++ (vs ++ ts)) ((key, value) :: pairs)

end

theorem Derives.ne_nil {ts : List Token} {form : Value} (h : Derives ts form) :
    ts ≠ [] := by
  cases h <;> exact List.cons_ne_nil _ _

theorem DerivesAll.snoc {ts us : List Token} {forms : List Value} {form : Value}
    (h : DerivesAll ts forms) (hu : Derives us form) :
    DerivesAll (ts ++ us) (forms ++ [form]) := by
  induction forms generalizing ts with
  | nil =>
      cases h
      simpa using DerivesAll.cons hu .nil
  | cons first forms ih =>
      cases h with
      | cons hfirst hrest =>
          rw [List.append_assoc]
          exact .cons hfirst (ih hrest)

theorem DerivesPairs.snoc {ts ks vs : List Token} {pairs : List (Value × Value)}
    {key value : Value} (h : DerivesPairs ts pairs) (hk : Derives ks key)
    (hv : Derives vs value) :
    DerivesPairs (ts ++ ks ++ vs) (pairs ++ [(key, value)]) := by
  induction pairs generalizing ts with
  | nil =>
      cases h
      simpa using DerivesPairs.cons hk hv .nil
  | cons first pairs ih =>
      cases h with
      | cons hfirst hsecond hrest =>
          simpa only [List.append_assoc, List.cons_append] using
            DerivesPairs.cons hfirst hsecond (ih hrest)

/-! ## What is derived is read -/

theorem delivers_marked {t : Token} {m : Mark} {ts : List Token} {form : Value}
    (ht : t.kind = .mark m) (h : Delivers ts form) :
    Delivers (t :: ts) (marked m t form) := by
  refine ⟨t, ts, rfl, fun stack rest => ?_⟩
  obtain ⟨t', ts', rfl, hread⟩ := h
  have hfeed : feed stack t = .more (.mark m t) stack := by rw [feed, ht]
  unfold readWith
  rw [hfeed]
  exact hread (.mark m t :: stack) rest

mutual

theorem Derives.delivers {ts : List Token} {form : Value}
    (h : Derives ts form) : Delivers ts form := by
  match h with
  | .atom h => exact delivers_token fun stack => by rw [feed, h]
  | .string h => exact delivers_token fun stack => by rw [feed, h]
  | .list ho h hc =>
      obtain ⟨tss, rfl, hforms⟩ := h.delivers
      exact delivers_list hforms ho hc
  | .vector ho h hc =>
      obtain ⟨tss, rfl, hforms⟩ := h.delivers
      exact delivers_vector hforms ho hc
  | .mapForm ho h hc =>
      obtain ⟨tss, rfl, hforms⟩ := h.delivers
      exact delivers_mapForm hforms ho hc
  | .marked ht h => exact delivers_marked ht h.delivers

theorem DerivesAll.delivers {ts : List Token} {forms : List Value}
    (h : DerivesAll ts forms) :
    ∃ tss : List (List Token),
      ts = tss.flatten ∧ List.Forall₂ Delivers tss forms := by
  match h with
  | .nil => exact ⟨[], rfl, .nil⟩
  | .cons h h' =>
      obtain ⟨tss, rfl, hforms⟩ := h'.delivers
      exact ⟨_ :: tss, rfl, .cons h.delivers hforms⟩

theorem DerivesPairs.delivers {ts : List Token} {pairs : List (Value × Value)}
    (h : DerivesPairs ts pairs) :
    ∃ tss : List (List Token), ts = tss.flatten ∧
      List.Forall₂ Delivers tss (pairs.flatMap fun p => [p.1, p.2]) := by
  match h with
  | .nil => exact ⟨[], rfl, .nil⟩
  | .cons hk hv h =>
      obtain ⟨tss, rfl, hforms⟩ := h.delivers
      exact ⟨_ :: _ :: tss, rfl, .cons hk.delivers (.cons hv.delivers hforms)⟩

end

theorem Derives.next? {ts : List Token} {form : Value} (h : Derives ts form)
    (rest : List Token) : next? (ts ++ rest) = some (.form form rest) := by
  obtain ⟨t, ts', rfl, hread⟩ := h.delivers
  exact congrArg some (hread [] rest)

/-! ## What is read is derived -/

/-- The tokens that have gone into an open bracket or mark. -/
inductive Pending.Holds : Pending → List Token → Prop where
  | list {opener : Token} {items : List Value} {ts : List Token}
      (ho : opener.kind = .opening .round) (h : DerivesAll ts items.reverse) :
      Holds (.list opener items) (opener :: ts)
  | vector {opener : Token} {items : List Value} {ts : List Token}
      (ho : opener.kind = .opening .square) (h : DerivesAll ts items.reverse) :
      Holds (.vector opener items) (opener :: ts)
  | pairs {opener : Token} {pairs : List (Value × Value)} {ts : List Token}
      (ho : opener.kind = .opening .curly) (h : DerivesPairs ts pairs.reverse) :
      Holds (.map opener pairs none) (opener :: ts)
  | key {opener : Token} {pairs : List (Value × Value)} {key : Value}
      {ts ks : List Token} (ho : opener.kind = .opening .curly)
      (h : DerivesPairs ts pairs.reverse) (hk : Derives ks key) :
      Holds (.map opener pairs (some key)) (opener :: (ts ++ ks))
  | mark {t : Token} {m : Mark} (ht : t.kind = .mark m) : Holds (.mark m t) [t]

/-- The tokens that have gone into all that is open, the outermost first. -/
inductive Opened : List Pending → List Token → Prop where
  | nil : Opened [] []
  | cons {top : Pending} {stack : List Pending} {used ts : List Token}
      (h : Opened stack used) (hp : top.Holds ts) :
      Opened (top :: stack) (used ++ ts)

/-- What reading has come to accounts for the tokens used so far. -/
def Progress.Accounts (used : List Token) : Progress → Prop
  | .done form => Derives used form
  | .more top stack => Opened (top :: stack) used
  | .stuck _ => True

theorem deliver_accounts {form : Value} {stack : List Pending}
    {used ts : List Token} (hs : Opened stack used) (h : Derives ts form) :
    (deliver form stack).Accounts (used ++ ts) := by
  fun_induction deliver form stack generalizing used ts with
  | case1 form =>
      cases hs
      exact h
  | case2 form m token stack ih =>
      cases hs with
      | cons hs hp => cases hp with
        | mark ht =>
            rw [List.append_assoc, List.singleton_append]
            exact ih hs (.marked ht h)
  | case3 form opener items stack =>
      cases hs with
      | cons hs hp => cases hp with
        | list ho hitems =>
            rw [List.append_assoc, List.cons_append]
            refine .cons hs (.list ho ?_)
            rw [List.reverse_cons]
            exact hitems.snoc h
  | case4 form opener items stack =>
      cases hs with
      | cons hs hp => cases hp with
        | vector ho hitems =>
            rw [List.append_assoc, List.cons_append]
            refine .cons hs (.vector ho ?_)
            rw [List.reverse_cons]
            exact hitems.snoc h
  | case5 form opener pairs stack =>
      cases hs with
      | cons hs hp => cases hp with
        | pairs ho hpairs =>
            rw [List.append_assoc, List.cons_append]
            exact .cons hs (.key ho hpairs h)
  | case6 form opener pairs key stack =>
      cases hs with
      | cons hs hp => cases hp with
        | key ho hpairs hk =>
            rw [List.append_assoc, List.cons_append]
            refine .cons hs (.pairs ho ?_)
            rw [List.reverse_cons]
            exact hpairs.snoc hk h

theorem close_accounts {b : Bracket} {token : Token} {stack : List Pending}
    {used : List Token} (hs : Opened stack used)
    (ht : token.kind = .closing b) :
    (close b token stack).Accounts (used ++ [token]) := by
  unfold close
  split
  · cases hs with
    | cons hs hp => cases hp with
      | list ho hitems =>
          rw [List.append_assoc, List.cons_append]
          exact deliver_accounts hs (.list ho hitems ht)
  · cases hs with
    | cons hs hp => cases hp with
      | vector ho hitems =>
          rw [List.append_assoc, List.cons_append]
          exact deliver_accounts hs (.vector ho hitems ht)
  · cases hs with
    | cons hs hp => cases hp with
      | pairs ho hpairs =>
          rw [List.append_assoc, List.cons_append]
          exact deliver_accounts hs (.mapForm ho hpairs ht)
  · exact trivial
  · exact trivial

/-- One token more is put to those used. -/
theorem feed_accounts {stack : List Pending} {used : List Token}
    (hs : Opened stack used) (token : Token) :
    (feed stack token).Accounts (used ++ [token]) := by
  unfold feed
  split
  · next b hk =>
      refine .cons hs ?_
      cases b with
      | round => exact .list hk .nil
      | square => exact .vector hk .nil
      | curly => exact .pairs hk .nil
  · next b hk => exact close_accounts hs hk
  · next m hk => exact .cons hs (.mark hk)
  · next content hk => exact deliver_accounts hs (.string hk)
  · next hk => exact deliver_accounts hs (.atom hk)

theorem derives_of_readWith {stack : List Pending} {used : List Token}
    {token : Token} {tokens rest : List Token} {form : Value}
    (hs : Opened stack used)
    (h : readWith stack token tokens = .form form rest) :
    ∃ more, token :: tokens = more ++ rest ∧ Derives (used ++ more) form := by
  fun_induction readWith stack token tokens generalizing used with
  | case1 stack token form' tokens hf =>
      cases h
      have hfeed := feed_accounts hs token
      rw [hf] at hfeed
      exact ⟨[token], rfl, hfeed⟩
  | case2 stack token e tokens hf => cases h
  | case3 stack token top stack' hf => cases h
  | case4 stack token top stack' t ts hf ih =>
      have hfeed := feed_accounts hs token
      rw [hf] at hfeed
      obtain ⟨more, htokens, hform⟩ := ih hfeed h
      refine ⟨token :: more, by rw [htokens, List.cons_append], ?_⟩
      rwa [List.append_assoc, List.singleton_append] at hform

theorem next?_eq_form_iff {ts rest : List Token} {form : Value} :
    next? ts = some (.form form rest) ↔
      ∃ used, ts = used ++ rest ∧ Derives used form := by
  constructor
  · intro h
    cases ts with
    | nil => cases h
    | cons t ts => exact derives_of_readWith .nil (Option.some.inj h)
  · rintro ⟨used, rfl, h⟩
    exact h.next? rest

/-- Derived tokens can be divided from what follows in one way only. -/
theorem Derives.unique {used used' rest rest' : List Token} {form form' : Value}
    (h : Derives used form) (h' : Derives used' form')
    (heq : used ++ rest = used' ++ rest') : used = used' ∧ form = form' := by
  have hread := h.next? rest
  rw [heq, h'.next? rest'] at hread
  cases hread
  exact ⟨List.append_cancel_right heq, rfl⟩

/-! ## Whole inputs -/

theorem ofTokens_of_next? {ts : List Token} :
    Program.ofTokens ts = match next? ts with
      | none => ⟨[], none⟩
      | some (.error e _) => ⟨[], some e⟩
      | some (.form form rest) => (Program.ofTokens rest).cons form := by
  rw [Program.ofTokens]
  split <;> simp_all

theorem derivesAll_of_ofTokens {ts : List Token}
    (h : (Program.ofTokens ts).error = none) :
    DerivesAll ts (Program.ofTokens ts).forms := by
  fun_induction Program.ofTokens ts with
  | case1 ts hnext =>
      cases ts with
      | nil => exact .nil
      | cons t ts => cases hnext
  | case2 ts e rest hnext => cases h
  | case3 ts form rest hnext ih =>
      obtain ⟨used, rfl, hform⟩ := next?_eq_form_iff.mp hnext
      exact .cons hform (ih h)

theorem DerivesAll.ofTokens {ts : List Token} {forms : List Value}
    (h : DerivesAll ts forms) : Program.ofTokens ts = ⟨forms, none⟩ := by
  induction forms generalizing ts with
  | nil =>
      cases h
      rw [ofTokens_of_next?]
      rfl
  | cons form forms ih =>
      cases h with
      | cons hform hrest =>
          rw [ofTokens_of_next?, hform.next?]
          simp only [ih hrest, Program.cons]

theorem complete_eq_ok_iff {ts : List Token} {forms : List Value} :
    (Program.ofTokens ts).complete = .ok forms ↔ DerivesAll ts forms := by
  constructor
  · intro h
    unfold Program.complete at h
    split at h
    · next herror =>
        cases h
        exact derivesAll_of_ofTokens herror
    · cases h
  · intro h
    rw [h.ofTokens]
    rfl

/-- A text is read to forms when its tokens make them. -/
theorem readAll_eq_ok_iff {source file : String} {forms : List Value} :
    readAll source file = .ok forms ↔
      ∃ ts, tokenize source file = .ok ts ∧ DerivesAll ts forms := by
  constructor
  · intro h
    unfold readAll at h
    split at h
    · cases h
    · next ts htokens =>
        cases hforms : (Program.ofTokens ts).complete with
        | error e => rw [hforms] at h; cases h
        | ok forms' =>
            rw [hforms] at h
            cases h
            exact ⟨ts, htokens, complete_eq_ok_iff.mp hforms⟩
  · rintro ⟨ts, htokens, hforms⟩
    rw [readAll, htokens]
    dsimp only
    rw [complete_eq_ok_iff.mpr hforms]
    rfl

/-! ## Progress -/

/-- The tokens that are left. -/
def Result.rest : Result → List Token
  | form _ rest => rest
  | error _ rest => rest

/-- A closing bracket is left in front of the rest only where it ends a literal
too early, so something is open then. -/
theorem exists_used_of_stuck {stack : List Pending} {token : Token}
    {e : ReadError} (h : feed stack token = .stuck e) (rest : List Token) :
    ∃ used, token :: rest = used ++ leftAfter e token rest ∧
      (stack = [] → used ≠ []) := by
  by_cases hfault : e.fault = .missingValue
  · refine ⟨[], by rw [leftAfter, hfault]; rfl, ?_⟩
    rintro rfl
    unfold feed at h
    split at h
    · cases h
    · next b _ => cases b <;> (cases h; cases hfault)
    · cases h
    · cases h
    · cases h
  · refine ⟨[token], ?_, fun _ => List.cons_ne_nil _ _⟩
    rw [leftAfter, List.singleton_append]
    split
    · contradiction
    · rfl

/-- What is left is the end of the input. -/
theorem exists_used (stack : List Pending) (token : Token)
    (tokens : List Token) :
    ∃ used, token :: tokens = used ++ (readWith stack token tokens).rest ∧
      (stack = [] → used ≠ []) := by
  fun_induction readWith stack token tokens with
  | case1 stack token form tokens hf =>
      exact ⟨[token], rfl, fun _ => List.cons_ne_nil _ _⟩
  | case2 stack token e tokens hf => exact exists_used_of_stuck hf tokens
  | case3 stack token top stack' hf =>
      exact ⟨[token], rfl, fun _ => List.cons_ne_nil _ _⟩
  | case4 stack token top stack' t ts hf ih =>
      obtain ⟨used, htokens, -⟩ := ih
      exact ⟨token :: used, congrArg (token :: ·) htokens,
        fun _ => List.cons_ne_nil _ _⟩

theorem next?_progress {ts : List Token} (h : ts ≠ []) :
    ∃ result used, next? ts = some result ∧ used ≠ [] ∧
      ts = used ++ result.rest := by
  cases ts with
  | nil => exact absurd rfl h
  | cons token tokens =>
      obtain ⟨used, htokens, hused⟩ := exists_used [] token tokens
      exact ⟨_, used, rfl, hused rfl, htokens⟩

/-! ## The reader and the grammar -/

/-- Reading a form succeeds with the form and the rest exactly when the tokens
in front of the rest make the form, and no tokens can be divided so in two ways.
Reading all forms succeeds exactly when the tokens make them one after the
other. As long as there are tokens, reading comes to a form or an error, and
takes at least one token from the front and nothing else. -/
theorem reader_accepts_grammar (ts : List Token) :
    (∀ form rest, next? ts = some (.form form rest) ↔
      ∃ used, ts = used ++ rest ∧ Derives used form) ∧
    (∀ used used' rest rest' form form', ts = used ++ rest → Derives used form →
      ts = used' ++ rest' → Derives used' form' → used = used' ∧ form = form') ∧
    (∀ forms, (Program.ofTokens ts).complete = .ok forms ↔ DerivesAll ts forms) ∧
    (ts ≠ [] → ∃ result used, next? ts = some result ∧ used ≠ [] ∧
      ts = used ++ result.rest) := by
  refine ⟨fun form rest => next?_eq_form_iff, ?_,
    fun forms => complete_eq_ok_iff, next?_progress⟩
  intro used used' rest rest' form form' hts h hts' h'
  exact h.unique h' (hts.symm.trans hts')

/-- The tokens of a quoted literal with one pair, and a closing bracket behind
them. The first are one form, which is all there is to read in them; the bracket
alone is used up by an error. -/
theorem reader_accepts_grammar_quoted :
    let span : Span := ⟨"", ⟨1, 1, 0⟩, ⟨1, 2, 1⟩⟩
    let token (kind : TokenKind) (text : String) : Token := ⟨kind, text, span⟩
    let used := [token (.mark .quote) "\x27", token (.opening .curly) "\x7b",
      token .atom ":a", token (.string "b") "\"b\"",
      token (.closing .curly) "\x7d"]
    let stray := token (.closing .round) ")"
    let form : Value := .list [.symbol "quote" (some span),
      .mapForm [(.keyword "a", .string "b")] (some span)] (some span)
    next? (used ++ [stray]) = some (.form form [stray]) ∧
      (∀ used' rest form', used ++ [stray] = used' ++ rest →
        Derives used' form' →
        used = used' ∧ form = form') ∧
      (Program.ofTokens used).complete = .ok [form] ∧
      ∃ result used', next? [stray] = some result ∧ used' ≠ [] ∧
        [stray] = used' ++ result.rest := by
  intro span token used stray form
  have hkey : Derives [token .atom ":a"] (.keyword "a") := by
    have hclass : classify ":a" span = .keyword "a" := rfl
    rw [← hclass]
    exact .atom rfl
  have hpair : DerivesPairs [token .atom ":a", token (.string "b") "\"b\""]
      [(.keyword "a", .string "b")] := .cons hkey (.string rfl) .nil
  have hform : Derives used form :=
    .marked (m := .quote) rfl (.mapForm rfl hpair rfl)
  obtain ⟨hread, hunique, -, -⟩ := reader_accepts_grammar (used ++ [stray])
  refine ⟨(hread form [stray]).mpr ⟨used, rfl, hform⟩, ?_, ?_, ?_⟩
  · intro used' rest form' hts h
    exact hunique used used' [stray] rest form form' rfl hform hts h
  · exact ((reader_accepts_grammar used).2.2.1 [form]).mpr (.cons hform .nil)
  · exact (reader_accepts_grammar [stray]).2.2.2 (List.cons_ne_nil _ _)

end TinyLisp.Reader
