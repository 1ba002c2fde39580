import TinyLisp.Reader.Basic

/-!
# Programs

A program is the forms of a source text in order. When the tokens go wrong
behind some forms, those forms are still read: the program holds them, and the
error comes after them.
-/

namespace TinyLisp

namespace Reader

/-- Reading a form leaves no more tokens than came behind its first. -/
theorem readWith_form_length {stack : List Pending} {token : Token}
    {tokens rest : List Token} {form : Value}
    (h : readWith stack token tokens = .form form rest) :
    rest.length ≤ tokens.length := by
  induction tokens generalizing stack token with
  | nil =>
      unfold readWith at h
      cases hf : feed stack token with
      | done form => rw [hf] at h; cases h; exact Nat.le_refl _
      | more top stack => rw [hf] at h; cases h
      | stuck e => rw [hf] at h; cases h
  | cons t ts ih =>
      unfold readWith at h
      cases hf : feed stack token with
      | done form => rw [hf] at h; cases h; exact Nat.le_refl _
      | more top stack => rw [hf] at h; exact Nat.le_succ_of_le (ih h)
      | stuck e => rw [hf] at h; cases h

theorem next?_form_length {tokens rest : List Token} {form : Value}
    (h : next? tokens = some (.form form rest)) :
    rest.length < tokens.length := by
  cases tokens with
  | nil => cases h
  | cons token tokens =>
      exact Nat.lt_succ_of_le (readWith_form_length (Option.some.inj h))

end Reader

/-- The forms of a source text, and the error that follows them if
there is one. -/
structure Program where
  forms : List Value
  error : Option ReadError

namespace Program

def cons (form : Value) (p : Program) : Program :=
  ⟨form :: p.forms, p.error⟩

def ofTokens (tokens : List Token) : Program :=
  match _h : Reader.next? tokens with
  | none => ⟨[], none⟩
  | some (.error e _) => ⟨[], some e⟩
  | some (.form form rest) => (ofTokens rest).cons form
termination_by tokens.length
decreasing_by exact Reader.next?_form_length _h

def complete (p : Program) : Except ReadError (List Value) :=
  match p.error with
  | none => .ok p.forms
  | some e => .error e

/-- The first form, if there is one. Only an error in that form counts. -/
def first (p : Program) : Except ReadError (Option Value) :=
  match p.forms, p.error with
  | form :: _, _ => .ok (some form)
  | [], some e => .error e
  | [], none => .ok none

end Program

end TinyLisp
