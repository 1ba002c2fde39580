import TinyLisp.Proofs.Reader.Descent
import TinyLisp.Proofs.Token.Slices
import TinyLisp.Proofs.Value.Render

/-!
# Errors point at tokens

An error has the place of the one token that is to blame for it. Which one this
is can be said by the grammar: a closing bracket that nothing open waits for, a
mark that is the last token, or else the innermost bracket that is open, when
the tokens end there or when a map ends behind a key. `Blames` says so.

Tokens that have been read leave something open, and all that comes later
depends on nothing else of them. So tokens that open the same in the sense of
the grammar can be read in any of the ways in which the grammar divides them,
and this settles both directions: where the reader fails a token is to blame,
and where one is to blame the reader fails, at this token and with this fault.
-/

namespace TinyLisp.Reader

open Value (inRow)
open Descent (Refuses)

/-! ## Which token is to blame -/

/-- Behind the opening bracket stand these forms and nothing else: it is the
innermost bracket that is open, and no mark waits for a form. -/
def Innermost (ts : List Token) (opener : Token) (b : Bracket)
    (forms : List Value) : Prop :=
  ∃ stack before inner, ts = before ++ opener :: inner ∧ Opened stack before ∧
    opener.kind = .opening b ∧ DerivesAll inner forms

/-- Tokens in front of which nothing is wrong are no form because
of this one. -/
inductive Blames : List Token → Token → Fault → Prop where
  /-- A closing bracket, and the innermost bracket that is open, if any, is
  of another kind. -/
  | stray {stack : List Pending} {before behind : List Token} {t : Token}
      {b : Bracket} (hb : Opened stack before) (ht : t.kind = .closing b)
      (h : ∀ opener forms, ¬ Innermost before opener b forms) :
      Blames (before ++ t :: behind) t (.unexpected t.text)
  /-- A mark with no token behind it. -/
  | mark {stack : List Pending} {before : List Token} {t : Token} {m : Mark}
      (hb : Opened stack before) (ht : t.kind = .mark m) :
      Blames (before ++ [t]) t (.missingForm t.text)
  /-- The innermost bracket that is open at the end. In a map, each key
  has its value. -/
  | unclosed {ts : List Token} {t : Token} {b : Bracket} {forms : List Value}
      (h : Innermost ts t b forms)
      (hpairs : b = .curly → forms.length % 2 = 0) : Blames ts t (.unclosed b)
  /-- The innermost bracket opens a map, and behind a key the tokens or
  the map end. -/
  | missingValue {before behind : List Token} {t : Token} {forms : List Value}
      (h : Innermost before t .curly forms) (hkey : forms.length % 2 = 1)
      (hends : ∀ u ∈ behind.head?, u.kind = .closing .curly) :
      Blames (before ++ behind) t .missingValue

theorem Innermost.mem {ts : List Token} {opener : Token} {b : Bracket}
    {forms : List Value} (h : Innermost ts opener b forms) : opener ∈ ts := by
  obtain ⟨stack, before, inner, rfl, -, -, -⟩ := h
  exact List.mem_append_right _ List.mem_cons_self

theorem Blames.mem {ts : List Token} {t : Token} {fault : Fault}
    (h : Blames ts t fault) : t ∈ ts := by
  cases h with
  | stray _ _ _ => exact List.mem_append_right _ List.mem_cons_self
  | mark _ _ => exact List.mem_append_right _ List.mem_cons_self
  | unclosed h _ => exact h.mem
  | missingValue h _ _ => exact List.mem_append_left _ h.mem

/-! ## Forms in a row and pairs of forms -/

theorem exists_pairs : ∀ forms : List Value,
    ∃ pairs, ∃ key : Option Value, forms = inRow pairs ++ key.toList
  | [] => ⟨[], none, rfl⟩
  | [key] => ⟨[], some key, rfl⟩
  | key :: value :: forms => by
      obtain ⟨pairs, key', rfl⟩ := exists_pairs forms
      exact ⟨(key, value) :: pairs, key', rfl⟩

theorem length_inRow (pairs : List (Value × Value)) :
    (inRow pairs).length = 2 * pairs.length := by
  induction pairs with
  | nil => rfl
  | cons p pairs ih =>
      rw [Value.inRow_cons, List.length_cons, List.length_cons, ih,
        List.length_cons]
      omega

theorem derivesPairs_iff {ts : List Token} {pairs : List (Value × Value)} :
    DerivesPairs ts pairs ↔ DerivesAll ts (inRow pairs) := by
  constructor
  · intro h
    induction pairs generalizing ts with
    | nil =>
        cases h
        exact .nil
    | cons p pairs ih => cases h with
      | cons hk hv h => exact .cons hk (.cons hv (ih h))
  · intro h
    induction pairs generalizing ts with
    | nil =>
        cases h
        exact .nil
    | cons p pairs ih => cases h with
      | cons hk h => cases h with
        | cons hv h => exact .cons hk hv (ih h)

theorem derivesAll_concat_iff {ts : List Token} {forms : List Value}
    {form : Value} :
    DerivesAll ts (forms ++ [form]) ↔
      ∃ us vs, ts = us ++ vs ∧ DerivesAll us forms ∧ Derives vs form := by
  constructor
  · intro h
    induction forms generalizing ts with
    | nil => cases h with
      | @cons vs us _ _ hform hnil =>
          cases hnil
          exact ⟨[], vs, by rw [List.append_nil, List.nil_append], .nil, hform⟩
    | cons first forms ih => cases h with
      | @cons ws _ _ _ hfirst hrest =>
          obtain ⟨us, vs, rfl, hforms, hform⟩ := ih hrest
          exact ⟨ws ++ us, vs, (List.append_assoc ..).symm,
            .cons hfirst hforms, hform⟩
  · rintro ⟨us, vs, rfl, hforms, hform⟩
    exact hforms.snoc hform

/-! ## What is open -/

/-- The opening bracket with these forms behind it, as it stands on the
stack. -/
inductive Fills (opener : Token) : Bracket → List Value → Pending → Prop where
  | list (items : List Value) :
      Fills opener .round items.reverse (.list opener items)
  | vector (items : List Value) :
      Fills opener .square items.reverse (.vector opener items)
  | pairs (pairs : List (Value × Value)) :
      Fills opener .curly (inRow pairs.reverse) (.map opener pairs none)
  | key (pairs : List (Value × Value)) (key : Value) :
      Fills opener .curly (inRow pairs.reverse ++ [key])
        (.map opener pairs (some key))

theorem Pending.Holds.mark_or_fills {top : Pending} {ts : List Token}
    (h : top.Holds ts) :
    (∃ m t, top = .mark m t ∧ ts = [t] ∧ t.kind = .mark m) ∨
      ∃ opener b forms inner, ts = opener :: inner ∧ opener.kind = .opening b ∧
        DerivesAll inner forms ∧ Fills opener b forms top := by
  cases h with
  | list ho h => exact .inr ⟨_, _, _, _, rfl, ho, h, .list _⟩
  | vector ho h => exact .inr ⟨_, _, _, _, rfl, ho, h, .vector _⟩
  | pairs ho h =>
      exact .inr ⟨_, _, _, _, rfl, ho, derivesPairs_iff.mp h, .pairs _⟩
  | key ho h hk =>
      exact .inr ⟨_, _, _, _, rfl, ho, (derivesPairs_iff.mp h).snoc hk, .key _ _⟩
  | mark ht => exact .inl ⟨_, _, rfl, rfl, ht⟩

theorem exists_fills {opener : Token} {b : Bracket} {inner : List Token}
    {forms : List Value} (ho : opener.kind = .opening b)
    (h : DerivesAll inner forms) :
    ∃ top : Pending, top.Holds (opener :: inner) ∧ Fills opener b forms top := by
  obtain ⟨items, rfl⟩ : ∃ items : List Value, forms = items.reverse :=
    ⟨_, (List.reverse_reverse _).symm⟩
  cases b with
  | round => exact ⟨_, .list ho h, .list items⟩
  | square => exact ⟨_, .vector ho h, .vector items⟩
  | curly =>
      obtain ⟨pairs, key, hforms⟩ := exists_pairs items.reverse
      obtain ⟨ps, rfl⟩ : ∃ ps : List (Value × Value), pairs = ps.reverse :=
        ⟨_, (List.reverse_reverse _).symm⟩
      rw [hforms] at h ⊢
      cases key with
      | none =>
          rw [Option.toList_none, List.append_nil] at h ⊢
          exact ⟨_, .pairs ho (derivesPairs_iff.mpr h), .pairs ps⟩
      | some key =>
          obtain ⟨us, ks, rfl, hpairs, hkey⟩ := derivesAll_concat_iff.mp h
          exact ⟨_, .key ho (derivesPairs_iff.mpr hpairs) hkey, .key ps key⟩

theorem Innermost.opened {ts : List Token} {opener : Token} {b : Bracket}
    {forms : List Value} (h : Innermost ts opener b forms) :
    ∃ top stack, Opened (top :: stack) ts ∧ Fills opener b forms top := by
  obtain ⟨stack, before, inner, rfl, hbefore, ho, hforms⟩ := h
  obtain ⟨top, htop, hfills⟩ := exists_fills ho hforms
  exact ⟨top, stack, .cons hbefore htop, hfills⟩

section

variable {opener : Token} {b : Bracket} {forms : List Value} {top : Pending}

theorem Fills.unfinished (h : Fills opener b forms top)
    (hpairs : b = .curly → forms.length % 2 = 0) :
    top.unfinished = ⟨.unclosed b, opener.span⟩ := by
  cases h with
  | list items => rfl
  | vector items => rfl
  | pairs pairs => rfl
  | key pairs key =>
      have hlength := hpairs rfl
      rw [List.length_append, length_inRow, List.length_singleton] at hlength
      omega

theorem Fills.exists_key (h : Fills opener .curly forms top)
    (hodd : forms.length % 2 = 1) :
    ∃ pairs key, top = .map opener pairs (some key) := by
  cases h with
  | pairs pairs =>
      rw [length_inRow] at hodd
      omega
  | key pairs key => exact ⟨pairs, key, rfl⟩

/-- A closing bracket of this kind is not unexpected. -/
theorem Fills.close_ne (h : Fills opener b forms top) (token : Token)
    (stack : List Pending) (text : String) (place : Span) :
    close b token (top :: stack) ≠ .stuck ⟨.unexpected text, place⟩ := by
  cases h with
  | list items => exact deliver_ne_stuck _ _ _
  | vector items => exact deliver_ne_stuck _ _ _
  | pairs pairs => exact deliver_ne_stuck _ _ _
  | key pairs key => exact nofun

theorem Fills.refuses (h : Fills opener b forms top) {token : Token}
    (ht : token.kind ≠ .closing b) (stack : List Pending) :
    Refuses (top :: stack) token := by
  cases h with
  | list items => exact (Descent.keeps_list opener).refuses items token stack ht
  | vector items =>
      exact (Descent.keeps_vector opener).refuses items token stack ht
  | pairs pairs => exact Descent.refuses_map ht opener pairs none stack
  | key pairs key => exact Descent.refuses_map ht opener pairs (some key) stack

end

/-! ## Reading on from what is open -/

/-- Read on with this open. -/
def reads : List Pending → List Token → Option Result
  | [], ts => next? ts
  | top :: stack, ts => some (resume (.more top stack) ts)

theorem reads_cons (stack : List Pending) (token : Token) (ts : List Token) :
    reads stack (token :: ts) = some (readWith stack token ts) := by
  cases stack <;> rfl

theorem reads_opener {opener : Token} {b : Bracket}
    (ho : opener.kind = .opening b) (stack : List Pending) (ts : List Token) :
    reads stack (opener :: ts) =
      some (resume (.more (.ofOpener b opener) stack) ts) := by
  rw [reads_cons, readWith_of_more (feed_opening ho stack)]

theorem Pending.Holds.reads {top : Pending} {ts : List Token} (h : top.Holds ts)
    (stack : List Pending) (rest : List Token) :
    reads stack (ts ++ rest) = reads (top :: stack) rest := by
  cases h with
  | @list opener items ts ho h =>
      obtain ⟨tss, rfl, hforms⟩ := h.delivers
      rw [List.cons_append, reads_opener ho]
      show some (resume (.more (.list opener []) stack) _) = _
      rw [resume_items hforms (.list opener) (fun _ _ _ => rfl),
        List.reverse_reverse, List.append_nil, Reader.reads]
  | @vector opener items ts ho h =>
      obtain ⟨tss, rfl, hforms⟩ := h.delivers
      rw [List.cons_append, reads_opener ho]
      show some (resume (.more (.vector opener []) stack) _) = _
      rw [resume_items hforms (.vector opener) (fun _ _ _ => rfl),
        List.reverse_reverse, List.append_nil, Reader.reads]
  | @pairs opener pairs ts ho h =>
      obtain ⟨tss, rfl, hforms⟩ := h.delivers
      rw [List.cons_append, reads_opener ho]
      show some (resume (.more (.map opener [] none) stack) _) = _
      rw [resume_pairs hforms, List.reverse_reverse, List.append_nil,
        Reader.reads]
  | @key opener pairs key ts ks ho h hk =>
      obtain ⟨tss, rfl, hforms⟩ := h.delivers
      rw [List.cons_append, reads_opener ho, List.append_assoc]
      show some (resume (.more (.map opener [] none) stack) _) = _
      rw [resume_pairs hforms, List.reverse_reverse, List.append_nil,
        hk.delivers.resume_more, deliver, Reader.reads]
  | @mark t m ht =>
      rw [List.singleton_append, reads_cons,
        readWith_of_more (feed_mark ht stack), Reader.reads]

/-- What has been read matters by what it leaves open. -/
theorem Opened.reads {stack : List Pending} {used : List Token}
    (h : Opened stack used) (rest : List Token) :
    next? (used ++ rest) = reads stack rest := by
  induction h generalizing rest with
  | nil => rfl
  | cons _ htop ih => rw [List.append_assoc, ih, htop.reads]

/-! ## Where reading fails, a token is to blame -/

theorem unfinished_ne (top : Pending) (text : String) (place : Span) :
    top.unfinished ≠ ⟨.unexpected text, place⟩ := by
  cases top with
  | map opener pairs key => cases key <;> exact nofun
  | _ => exact nofun

/-- A bracket that is refused once is refused however what is in front of
it is divided. -/
theorem not_innermost_of_refuses {stack : List Pending} {used : List Token}
    {t : Token} {b : Bracket} (hs : Opened stack used)
    (ht : t.kind = .closing b)
    (hstuck : close b t stack = .stuck ⟨.unexpected t.text, t.span⟩)
    (opener : Token) (forms : List Value) :
    ¬ Innermost used opener b forms := by
  intro h
  obtain ⟨top, stack', hopened, hfills⟩ := h.opened
  have hread := (hs.reads [t]).symm.trans (hopened.reads [t])
  rw [reads_cons, reads_cons,
    readWith_of_stuck ((feed_closing ht stack).trans hstuck)] at hread
  have hread := (Option.some.inj hread).symm
  unfold readWith at hread
  rw [feed_closing ht] at hread
  cases hclose : close b t (top :: stack') with
  | done form => rw [hclose] at hread; cases hread
  | more top' rest =>
      rw [hclose] at hread
      exact unfinished_ne top' _ _ (Result.error.inj hread).1
  | stuck e =>
      rw [hclose] at hread
      have he := (Result.error.inj hread).1
      rw [he] at hclose
      exact hfills.close_ne t stack' _ _ hclose

theorem close_stuck {stack : List Pending} {b : Bracket} {token : Token}
    {e : ReadError} (h : close b token stack = .stuck e) :
    e = ⟨.unexpected token.text, token.span⟩ ∨
      ∃ opener pairs key rest,
        b = .curly ∧ stack = .map opener pairs (some key) :: rest ∧
        e = ⟨.missingValue, opener.span⟩ := by
  unfold close at h
  split at h
  · exact absurd h (deliver_ne_stuck _ _ _)
  · exact absurd h (deliver_ne_stuck _ _ _)
  · exact absurd h (deliver_ne_stuck _ _ _)
  · next opener pairs key rest =>
      cases h
      exact .inr ⟨opener, pairs, key, rest, rfl, rfl, rfl⟩
  · cases h
    exact .inl rfl

theorem blames_of_stuck {stack : List Pending} {used : List Token}
    {token : Token} {e : ReadError} (hs : Opened stack used)
    (h : feed stack token = .stuck e) (behind : List Token) :
    ∃ t, t.span = e.span ∧ Blames (used ++ token :: behind) t e.fault := by
  obtain ⟨b, hb⟩ : ∃ b, token.kind = .closing b := by
    unfold feed at h
    split at h
    · cases h
    · next b hb => exact ⟨b, hb⟩
    · cases h
    · exact absurd h (deliver_ne_stuck _ _ _)
    · exact absurd h (deliver_ne_stuck _ _ _)
  rw [feed_closing hb] at h
  rcases close_stuck h with rfl | ⟨opener, pairs, key, rest, rfl, rfl, rfl⟩
  · exact ⟨token, rfl, .stray hs hb (not_innermost_of_refuses hs hb h)⟩
  · cases hs with
    | @cons _ _ used ts hs hp => cases hp with
      | @key _ _ _ ts ks ho hpairs hk =>
          have hforms := (derivesPairs_iff.mp hpairs).snoc hk
          refine ⟨opener, rfl,
            .missingValue ⟨_, used, _, rfl, hs, ho, hforms⟩ ?_ ?_⟩
          · rw [List.length_append, length_inRow, List.length_singleton]
            omega
          · intro u hu
            obtain rfl := Option.some.inj hu
            exact hb

theorem blames_of_unfinished {top : Pending} {stack : List Pending}
    {used : List Token} (hs : Opened (top :: stack) used) :
    ∃ t, t.span = top.unfinished.span ∧ Blames used t top.unfinished.fault := by
  cases hs with
  | @cons _ _ used ts hs hp =>
      rcases hp.mark_or_fills with ⟨m, t, rfl, rfl, ht⟩ |
        ⟨opener, b, forms, inner, rfl, ho, hforms, hfills⟩
      · exact ⟨t, rfl, .mark hs ht⟩
      · have hinner : Innermost (used ++ opener :: inner) opener b forms :=
          ⟨stack, used, inner, rfl, hs, ho, hforms⟩
        by_cases hodd : b = .curly ∧ forms.length % 2 = 1
        · obtain ⟨rfl, hodd⟩ := hodd
          obtain ⟨pairs, key, rfl⟩ := hfills.exists_key hodd
          have hblames :
              Blames (used ++ opener :: inner ++ []) opener .missingValue :=
            .missingValue hinner hodd nofun
          rw [List.append_nil] at hblames
          exact ⟨opener, rfl, hblames⟩
        · have hpairs : b = .curly → forms.length % 2 = 0 := fun hb =>
            (Nat.mod_two_eq_zero_or_one _).resolve_right fun h => hodd ⟨hb, h⟩
          rw [hfills.unfinished hpairs]
          exact ⟨opener, rfl, .unclosed hinner hpairs⟩

theorem blames_of_readWith {stack : List Pending} {used : List Token}
    {token : Token} {tokens rest : List Token} {e : ReadError}
    (hs : Opened stack used) (h : readWith stack token tokens = .error e rest) :
    ∃ t, t.span = e.span ∧ Blames (used ++ token :: tokens) t e.fault := by
  fun_induction readWith stack token tokens generalizing used with
  | case1 stack token form tokens hf => cases h
  | case2 stack token e tokens hf =>
      cases h
      exact blames_of_stuck hs hf tokens
  | case3 stack token top stack' hf =>
      have hfeed := feed_accounts hs token
      rw [hf] at hfeed
      cases h
      exact blames_of_unfinished hfeed
  | case4 stack token top stack' t ts hf ih =>
      have hfeed := feed_accounts hs token
      rw [hf] at hfeed
      have hblames := ih hfeed h
      rwa [List.append_assoc, List.singleton_append] at hblames

/-! ## Where a token is to blame, reading fails -/

theorem close_of_not_innermost {stack : List Pending} {used : List Token}
    {t : Token} {b : Bracket} (hs : Opened stack used)
    (ht : t.kind = .closing b)
    (h : ∀ opener forms, ¬ Innermost used opener b forms) :
    close b t stack = .stuck ⟨.unexpected t.text, t.span⟩ := by
  cases hs with
  | nil => cases b <;> rfl
  | @cons top stack used ts hs hp =>
      rcases hp.mark_or_fills with ⟨m, t', rfl, rfl, -⟩ |
        ⟨opener, b', forms, inner, rfl, ho, hforms, hfills⟩
      · exact Descent.refuses_mark m t' t stack b ht
      · refine hfills.refuses (fun hb => ?_) stack b ht
        rw [ht] at hb
        cases hb
        exact h opener forms ⟨stack, used, inner, rfl, hs, ho, hforms⟩

theorem Blames.next? {ts : List Token} {t : Token} {fault : Fault}
    (h : Blames ts t fault) :
    ∃ rest, Reader.next? ts = some (.error ⟨fault, t.span⟩ rest) := by
  cases h with
  | @stray stack before behind _ b hb ht h =>
      have hclose := close_of_not_innermost hb ht h
      rw [hb.reads, reads_cons,
        readWith_of_stuck ((feed_closing ht stack).trans hclose)]
      exact ⟨_, rfl⟩
  | @mark stack before _ m hb ht =>
      rw [hb.reads, reads_cons, readWith_of_more (feed_mark ht stack)]
      exact ⟨_, rfl⟩
  | @unclosed _ _ b forms h hpairs =>
      obtain ⟨top, stack, hopened, hfills⟩ := h.opened
      have hread := hopened.reads []
      rw [List.append_nil] at hread
      refine ⟨[], hread.trans ?_⟩
      rw [reads, resume, hfills.unfinished hpairs]
  | @missingValue before behind _ forms h hkey hends =>
      obtain ⟨top, stack, hopened, hfills⟩ := h.opened
      obtain ⟨pairs, key, rfl⟩ := hfills.exists_key hkey
      rw [hopened.reads]
      cases behind with
      | nil => exact ⟨[], rfl⟩
      | cons u behind =>
          have hclose :=
            feed_closing (hends u rfl) (.map t pairs (some key) :: stack)
          rw [reads_cons, readWith_of_stuck (hclose.trans rfl)]
          exact ⟨_, rfl⟩

theorem next?_eq_error_iff {ts : List Token} {e : ReadError} :
    (∃ rest, next? ts = some (.error e rest)) ↔
      ∃ t, t.span = e.span ∧ Blames ts t e.fault := by
  constructor
  · rintro ⟨rest, h⟩
    cases ts with
    | nil => cases h
    | cons token ts => exact blames_of_readWith .nil (Option.some.inj h)
  · rintro ⟨t, ht, h⟩
    have hread := h.next?
    rwa [ht] at hread

/-! ## Runs -/

/-- What is left of the tokens after some calls, each of which has read a
form or failed. -/
inductive Left (ts : List Token) : List Token → Prop where
  | start : Left ts ts
  | call {us : List Token} {result : Result} (h : Left ts us)
      (hnext : next? us = some result) : Left ts result.rest

theorem Left.suffix {ts us : List Token} (h : Left ts us) : us <:+ ts := by
  induction h with
  | start => exact List.suffix_rfl
  | @call us result _ hnext ih =>
      have hne : us ≠ [] := by
        rintro rfl
        cases hnext
      obtain ⟨result', used, hresult, -, hus⟩ := next?_progress hne
      rw [hnext] at hresult
      obtain rfl := Option.some.inj hresult
      exact List.IsSuffix.trans ⟨used, hus.symm⟩ ih

/-- However often forms are read from the tokens of a source, a call fails
exactly when one of these tokens is to blame, and the error has its place and
says what it is blamed for. Reading by descent, which would notice if a form
were to be read or a closing bracket to be taken where there is no token, comes
to the same. -/
theorem errors_point_at_tokens {source file : String} {ts : List Token}
    (h : tokenize source file = .ok ts) {us : List Token} (hleft : Left ts us) :
    Descent.next? us = (next? us).map .ok ∧
    ∀ e, (∃ rest, next? us = some (.error e rest)) ↔
      ∃ t ∈ ts, t.IsSlice source.toList ∧ t.span = e.span ∧
        Blames us t e.fault := by
  refine ⟨Descent.next?_eq us, fun e => ?_⟩
  rw [next?_eq_error_iff]
  refine exists_congr fun t =>
    ⟨fun ⟨hspan, hblames⟩ => ?_, fun ⟨_, _, hboth⟩ => hboth⟩
  have ht : t ∈ ts := hleft.suffix.subset hblames.mem
  exact ⟨ht, ((Lexer.layout_of_tokensFrom h).stands t ht).isSlice, hspan, hblames⟩

/-- The first call fails at the round bracket. What it leaves is a map with
a key alone. -/
theorem errors_point_at_tokens_again :
    let place (index width : Nat) : Span :=
      ⟨"a", ⟨1, index + 1, index⟩, ⟨1, index + 1 + width, index + width⟩⟩
    let closer : Token := ⟨.closing .round, ")", place 5 1⟩
    ∃ ts us, tokenize "\x7b:a \x27) \x7b:b\x7d" "a" = .ok ts ∧
      next? ts = some (.error ⟨.unexpected ")", place 5 1⟩ us) ∧
      Blames ts closer (.unexpected ")") ∧
      ∃ t ∈ ts, t.text = "\x7b" ∧ t.span = place 7 1 ∧
        Blames us t .missingValue := by
  intro place closer
  let us : List Token := [
    ⟨.opening .curly, "\x7b", place 7 1⟩, ⟨.atom, ":b", place 8 2⟩,
    ⟨.closing .curly, "\x7d", place 10 1⟩]
  let ts : List Token := [
    ⟨.opening .curly, "\x7b", place 0 1⟩, ⟨.atom, ":a", place 1 2⟩,
    ⟨.mark .quote, "\x27", place 4 1⟩, closer] ++ us
  have htokens : tokenize "\x7b:a \x27) \x7b:b\x7d" "a" = .ok ts := by
    decide +kernel
  have hfirst : next? ts = some (.error ⟨.unexpected ")", place 5 1⟩ us) := rfl
  have hsecond : next? us =
      some (.error ⟨.missingValue, place 7 1⟩ [us[2]]) := rfl
  have hblames {us' : List Token} (hleft : Left ts us') (e : ReadError) :=
    ((errors_point_at_tokens htokens hleft).2 e).mp
  obtain ⟨t, ht, -, hspan, hstray⟩ := hblames .start _ ⟨us, hfirst⟩
  obtain ⟨t', ht', -, hspan', hmissing⟩ :=
    hblames (.call .start hfirst) _ ⟨_, hsecond⟩
  have hplaced : ∀ u ∈ ts, (u.span = place 5 1 → u = closer) ∧
      (u.span = place 7 1 → u.text = "\x7b") := by decide +kernel
  obtain rfl := (hplaced t ht).1 hspan
  exact ⟨ts, us, htokens, hfirst, hstray, t', ht', (hplaced t' ht').2 hspan',
    hspan', hmissing⟩

end TinyLisp.Reader
