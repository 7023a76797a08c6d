import VariationalForms.Expr.Basic

/-! Products as lists of factors and sums as lists of signed terms. -/

set_option autoImplicit false

namespace VariationalForms

inductive Sign
  | plus
  | minus
  deriving DecidableEq, Repr

namespace Sign

def flip : Sign → Sign
  | plus => minus
  | minus => plus

def text : Sign → String
  | plus => "1"
  | minus => "-1"

end Sign

namespace Expr

variable {κ : Type}

/-- Takes nested products apart; any other expression is its own single factor. -/
def factors : Expr κ → List (Expr κ)
  | .mul l r => l.factors ++ r.factors
  | e => [e]

/-- Takes nested sums and differences apart; what is subtracted changes its sign. -/
def terms : Expr κ → List (Sign × Expr κ)
  | .add l r => l.terms ++ r.terms
  | .sub l r => l.terms ++ r.terms.map fun t => (t.1.flip, t.2)
  | e => [(.plus, e)]

def product? : List (Expr κ) → Option (Expr κ)
  | [] => none
  | e :: es => some (es.foldl mul e)

def sum? : List (Expr κ) → Option (Expr κ)
  | [] => none
  | e :: es => some (es.foldl add e)

theorem product?_eq_none_iff {es : List (Expr κ)} : product? es = none ↔ es = [] := by
  cases es <;> simp [product?]

theorem sum?_eq_none_iff {es : List (Expr κ)} : sum? es = none ↔ es = [] := by
  cases es <;> simp [sum?]

theorem product?_induct {P : Expr κ → Prop} (hmul : ∀ l r, P l → P r → P (mul l r))
    {es : List (Expr κ)} {p : Expr κ} (h : product? es = some p) (hes : ∀ e ∈ es, P e) : P p := by
  cases es with
  | nil => cases h
  | cons e es =>
    cases h
    exact List.foldlRecOn es mul (hes e (.head _)) fun l hl r hr => hmul l r hl (hes r (.tail _ hr))

theorem sum?_induct {P : Expr κ → Prop} (hadd : ∀ l r, P l → P r → P (add l r))
    {es : List (Expr κ)} {s : Expr κ} (h : sum? es = some s) (hes : ∀ e ∈ es, P e) : P s := by
  cases es with
  | nil => cases h
  | cons e es =>
    cases h
    exact List.foldlRecOn es add (hes e (.head _)) fun l hl r hr => hadd l r hl (hes r (.tail _ hr))

theorem forall_factors {P : Expr κ → Prop} (hmul : ∀ l r, P (mul l r) → P l ∧ P r) {e : Expr κ}
    (he : P e) : ∀ f ∈ e.factors, P f := by
  fun_induction factors e with
  | case1 l r ihl ihr =>
    obtain ⟨hl, hr⟩ := hmul l r he
    exact List.forall_mem_append.2 ⟨ihl hl, ihr hr⟩
  | case2 e h => exact List.forall_mem_singleton.2 he

theorem factors_ne_nil (e : Expr κ) : e.factors ≠ [] := by
  fun_induction factors e with
  | case1 l r hl hr => simp [hl]
  | case2 e h => simp

end Expr

end VariationalForms
