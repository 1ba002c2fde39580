import Mathlib.Data.List.Forall2
import TinyLisp.Reader.Program

/-!
# Tokens that are one form

Some tokens in a row are one form if, whatever is open in front of them and
whatever follows, reading them comes to handing that form to the innermost open
bracket. Said this way, the forms between two brackets can be taken one after
the other, and so the tokens of a bracketed form are one form again.
-/

namespace TinyLisp.Reader

/-- Go on with what is left after a token has been read. -/
def resume : Progress → List Token → Result
  | .done form, rest => .form form rest
  | .stuck e, rest => .error e rest
  | .more top _, [] => .error top.unfinished []
  | .more top stack, token :: rest => readWith (top :: stack) token rest

theorem deliver_ne_stuck (form : Value) (stack : List Pending) (e : ReadError) :
    deliver form stack ≠ .stuck e := by
  fun_induction deliver form stack with
  | case2 form m token stack ih => exact ih
  | _ => exact nofun

/-- A token that completes a form. -/
theorem readWith_of_feed {stack stack' : List Pending} {token : Token}
    {form : Value} (h : feed stack token = deliver form stack')
    (rest : List Token) :
    readWith stack token rest = resume (deliver form stack') rest := by
  unfold readWith
  rw [h]
  cases hd : deliver form stack' with
  | done form => cases rest <;> rfl
  | more top stack => cases rest <;> rfl
  | stuck e => exact absurd hd (deliver_ne_stuck form stack' e)

/-- The tokens are one form. -/
def Delivers (ts : List Token) (form : Value) : Prop :=
  ∃ t ts', ts = t :: ts' ∧
    ∀ stack rest, readWith stack t (ts' ++ rest) =
      resume (deliver form stack) rest

theorem delivers_token {token : Token} {form : Value}
    (h : ∀ stack, feed stack token = deliver form stack) :
    Delivers [token] form :=
  ⟨token, [], rfl, fun stack rest => readWith_of_feed (h stack) rest⟩

theorem delivers_string (content text : String) (span : Span) :
    Delivers [⟨.string content, text, span⟩] (.string content) :=
  delivers_token fun _ => rfl

theorem delivers_atom (text : String) (span : Span) :
    Delivers [⟨.atom, text, span⟩] (classify text span) :=
  delivers_token fun _ => rfl

/-- With something open, one form more goes to the innermost. -/
theorem Delivers.resume_more {ts : List Token} {form : Value}
    (h : Delivers ts form) (top : Pending) (stack : List Pending)
    (rest : List Token) :
    resume (.more top stack) (ts ++ rest) =
      resume (deliver form (top :: stack)) rest := by
  obtain ⟨t, ts', rfl, hread⟩ := h
  exact hread (top :: stack) rest

/-- Forms in a row go one after the other to an open list or vector. -/
theorem resume_items {tss : List (List Token)} {fs : List Value}
    (h : List.Forall₂ Delivers tss fs) (top : List Value → Pending)
    (htop : ∀ form items stack,
      deliver form (top items :: stack) = .more (top (form :: items)) stack)
    (items : List Value) (stack : List Pending) (rest : List Token) :
    resume (.more (top items) stack) (tss.flatten ++ rest) =
      resume (.more (top (fs.reverse ++ items)) stack) rest := by
  induction h generalizing items with
  | nil => rfl
  | @cons ts form tss fs hform _ ih =>
      rw [List.flatten_cons, List.append_assoc, hform.resume_more, htop, ih,
        List.reverse_cons, List.append_assoc, List.singleton_append]

/-- Forms in a row go two by two to an open map. -/
theorem resume_pairs {tss : List (List Token)} {ps : List (Value × Value)}
    (h : List.Forall₂ Delivers tss (ps.flatMap fun p => [p.1, p.2]))
    (opener : Token) (pairs : List (Value × Value)) (stack : List Pending)
    (rest : List Token) :
    resume (.more (.map opener pairs none) stack) (tss.flatten ++ rest) =
      resume (.more (.map opener (ps.reverse ++ pairs) none) stack) rest := by
  induction ps generalizing tss pairs with
  | nil =>
      cases h
      rfl
  | cons p ps ih =>
      rw [List.flatMap_cons] at h
      cases h with
      | cons hkey h => cases h with
        | cons hvalue h =>
            rw [List.flatten_cons, List.flatten_cons, List.append_assoc,
              List.append_assoc, hkey.resume_more, deliver, hvalue.resume_more,
              deliver, ih h, List.reverse_cons, List.append_assoc,
              List.singleton_append]

/-! ## Brackets -/

section

variable {opener closer : Token}

theorem feed_closing {b : Bracket} (h : closer.kind = .closing b)
    (stack : List Pending) : feed stack closer = close b closer stack := by
  rw [feed, h]

/-- What stands between brackets turns what is open from its first state into
its last, which the closing bracket makes a form of. -/
theorem delivers_bracketed {b : Bracket} (ho : opener.kind = .opening b)
    (hc : closer.kind = .closing b) {body : List Token} {last : Pending}
    {form : Value}
    (hbody : ∀ stack rest, resume (.more (.ofOpener b opener) stack)
      (body ++ rest) = resume (.more last stack) rest)
    (hclose : ∀ stack, close b closer (last :: stack) = deliver form stack) :
    Delivers (opener :: (body ++ [closer])) form := by
  refine ⟨opener, body ++ [closer], rfl, fun stack rest => ?_⟩
  have hopen : readWith stack opener (body ++ [closer] ++ rest) =
      resume (.more (.ofOpener b opener) stack) (body ++ [closer] ++ rest) := by
    unfold readWith
    rw [feed, ho]
    cases body ++ [closer] ++ rest <;> rfl
  rw [hopen, List.append_assoc, hbody, List.singleton_append]
  exact readWith_of_feed ((feed_closing hc _).trans (hclose stack)) rest

theorem delivers_list {tss : List (List Token)} {fs : List Value}
    (h : List.Forall₂ Delivers tss fs) (ho : opener.kind = .opening .round)
    (hc : closer.kind = .closing .round) :
    Delivers (opener :: (tss.flatten ++ [closer]))
      (.list fs (between opener closer)) := by
  refine delivers_bracketed ho hc
    (resume_items h (.list opener) (fun _ _ _ => rfl) [])
    fun stack => ?_
  rw [List.append_nil, close, List.reverse_reverse]

theorem delivers_vector {tss : List (List Token)} {fs : List Value}
    (h : List.Forall₂ Delivers tss fs) (ho : opener.kind = .opening .square)
    (hc : closer.kind = .closing .square) :
    Delivers (opener :: (tss.flatten ++ [closer]))
      (.vector (.ofList fs) (between opener closer)) := by
  refine delivers_bracketed ho hc
    (resume_items h (.vector opener) (fun _ _ _ => rfl) [])
    fun stack => ?_
  rw [List.append_nil, close, List.reverse_reverse]

theorem delivers_mapForm {tss : List (List Token)} {ps : List (Value × Value)}
    (h : List.Forall₂ Delivers tss (ps.flatMap fun p => [p.1, p.2]))
    (ho : opener.kind = .opening .curly) (hc : closer.kind = .closing .curly) :
    Delivers (opener :: (tss.flatten ++ [closer]))
      (.mapForm ps (between opener closer)) := by
  refine delivers_bracketed ho hc (resume_pairs h opener []) fun stack => ?_
  rw [List.append_nil, close, List.reverse_reverse]

end

/-! ## Whole texts -/

theorem ofTokens_of_delivers {ts : List Token} {form : Value}
    (h : Delivers ts form) : Program.ofTokens ts = ⟨[form], none⟩ := by
  obtain ⟨t, ts', rfl, hread⟩ := h
  have hnext : next? (t :: ts') = some (.form form []) := by
    have := hread [] []
    rw [List.append_nil] at this
    exact congrArg some this
  have hnil : Program.ofTokens [] = ⟨[], none⟩ := by
    rw [Program.ofTokens]
    rfl
  rw [Program.ofTokens]
  split
  · next h => rw [hnext] at h; cases h
  · next h => rw [hnext] at h; cases h
  · next form' rest h =>
      rw [hnext] at h
      cases h
      rw [hnil, Program.cons]

end TinyLisp.Reader
