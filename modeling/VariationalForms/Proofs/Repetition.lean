import Mathlib.Data.List.Forall2
import VariationalForms.Expr.Numerals
import VariationalForms.Proofs.Arrangement
import VariationalForms.Proofs.Completeness

/-! Resolving a second time.
An integrand without generic operators is only arranged when it is resolved
(`Expr.resolveIn_of_resolved`). The rules build products that are not arranged, so a second run can
move factors about; it keeps the meaning, and a third run finds nothing to do
(`WeakForm.resolve_resolve`).
-/

set_option autoImplicit false

namespace VariationalForms

universe u

variable {κ : Type}

namespace Expr

theorem madeOf_true (e : Expr κ) : e.MadeOf (fun _ => True) fun _ => True := by
  intro n _
  cases n <;> trivial

theorem containsGeneric_eq_false_iff {e : Expr κ} :
    e.containsGeneric = false ↔ e.MadeOf (fun _ => True) Head.Resolved := by
  refine ⟨fun h => resolved_of_not_containsGeneric h (madeOf_true e), fun h => ?_⟩
  rw [containsGeneric_eq_false_iff_nodes]
  intro n hn
  have hroot := h n hn
  unfold generic?
  split
  · exact absurd rfl (hroot _)
  · rfl

variable {p : Leaf κ → Prop} {e : Expr κ}

theorem madeOf_operandTerms {q : Head → Prop} {cs : Coefficients} (he : e.MadeOf p q) :
    ∀ t ∈ cs.operandTerms e, t.MadeOf p q := by
  induction e with
  | leaf l => simpa [Coefficients.operandTerms] using he
  | node k args => simpa [Coefficients.operandTerms] using he
  | arith op l r hl hr =>
    rw [Coefficients.operandTerms.eq_def]
    cases op with
    | mul =>
      intro t ht
      refine (madeOf_product? (Option.mem_toList.1 ht)).2 fun f hf => ?_
      exact madeOf_factors.1 he f (List.mem_filter.1 hf).1
    | _ =>
      obtain ⟨hel, her⟩ := madeOf_arith.1 he
      exact List.forall_mem_append.2 ⟨hl hel, hr her⟩

theorem madeOf_arrange [One κ] {q : Head → Prop} {cs : Coefficients} (he : e.MadeOf p q) :
    (cs.arrange e).MadeOf p q := by
  have harranged : cs.distribute (fun t => .ok t) e = (.ok (cs.arrange e) : Except Fault _) :=
    Coefficients.distribute_ok id e
  refine Coefficients.madeOf_distribute (fun _ _ hl => hl) (fun t x hx ht => ?_) harranged he
  cases hx
  exact ht

variable [Zero κ] {d : Nat}

theorem resolveTerm_of_resolved (he : e.MadeOf p Head.Resolved) : resolveTerm d e = .ok e := by
  have hnone : e.operators = [] := List.eq_nil_iff_forall_not_mem.2 fun o ho => by
    obtain ⟨args, hn⟩ := mem_operators.1 ho
    exact absurd rfl (he _ hn o)
  rw [resolveTerm, hnone]
  rfl

/-- Without generic operators, resolving only arranges. -/
theorem resolveIn_of_resolved [One κ] {cs : Coefficients} (he : e.MadeOf p Head.Resolved) :
    e.resolveIn cs d = .ok (cs.arrange e) :=
  Coefficients.distribute_eq_ok fun t ht => resolveTerm_of_resolved (madeOf_operandTerms he t ht)

end Expr

namespace WeakForm

def withIntegrand : WeakForm κ → Expr κ → WeakForm κ
  | .bilinear a, e => .bilinear (a.withIntegrand e)
  | .linear l, e => .linear (l.withIntegrand e)
  | .raw _, e => .raw e

/-- The dimension of the spaces of a form, if it declares any. -/
def declaredDim? : WeakForm κ → Option Nat
  | .bilinear a => a.ldim?
  | .linear l => l.ldim?
  | .raw _ => none

@[simp] theorem integrand_withIntegrand (w : WeakForm κ) (e : Expr κ) :
    (w.withIntegrand e).integrand = e := by
  cases w <;> rfl

@[simp] theorem withIntegrand_withIntegrand (w : WeakForm κ) (e e' : Expr κ) :
    (w.withIntegrand e).withIntegrand e' = w.withIntegrand e' := by
  cases w <;> rfl

@[simp] theorem declaredDim?_withIntegrand (w : WeakForm κ) (e : Expr κ) :
    (w.withIntegrand e).declaredDim? = w.declaredDim? := by
  cases w <;> rfl

theorem withIntegrand_inj {w : WeakForm κ} {e e' : Expr κ} :
    w.withIntegrand e = w.withIntegrand e' ↔ e = e' :=
  ⟨fun h => by simpa using congrArg integrand h, fun h => h ▸ rfl⟩

variable [Zero κ] [One κ] [NumberText κ] {cs : Coefficients} {d : Nat} {w w' : WeakForm κ}

theorem resolve_eq_ok_iff (hd : w.declaredDim? = some d) :
    w.resolve cs = .ok w' ↔ ∃ x, w.integrand.resolveIn cs d = .ok x ∧ w.withIntegrand x = w' := by
  cases w with
  | bilinear a =>
    simp only [declaredDim?] at hd
    simp [resolve, BilinearForm.resolve, BilinearForm.dimension, hd, bind_eq_ok_iff, integrand,
      withIntegrand, -bind_pure_comp]
  | linear l =>
    simp only [declaredDim?] at hd
    simp [resolve, LinearForm.resolve, LinearForm.dimension, hd, bind_eq_ok_iff, integrand,
      withIntegrand, -bind_pure_comp]
  | raw e => cases hd

theorem resolve_withIntegrand {p : Leaf κ → Prop} {x : Expr κ} (hd : w.declaredDim? = some d)
    (hx : x.MadeOf p Head.Resolved) :
    (w.withIntegrand x).resolve cs = .ok (w.withIntegrand (cs.arrange x)) := by
  refine (resolve_eq_ok_iff (by simpa using hd)).2 ⟨cs.arrange x, ?_, by simp⟩
  rw [integrand_withIntegrand]
  exact Expr.resolveIn_of_resolved hx

/-- A form that declares a space is settled by one run exactly when the outcome is arranged. In any
case a second run keeps the spaces and the meaning, and a third changes nothing. -/
theorem resolve_resolve (hd : w.declaredDim?.isSome) (h : w.resolve cs = .ok w') :
    (w'.resolve cs = .ok w' ↔ cs.isArranged w'.integrand) ∧
      ∃ x, w'.resolve cs = .ok (w'.withIntegrand x) ∧
        (w'.withIntegrand x).resolve cs = .ok (w'.withIntegrand x) ∧
        ∀ {V : Type u} [Add V] [Sub V] [CommMonoid V] (M : Reading κ V),
          M.value x = M.value w'.integrand := by
  obtain ⟨d, hd⟩ := Option.isSome_iff_exists.1 hd
  obtain ⟨y, hy, rfl⟩ := (resolve_eq_ok_iff hd).1 h
  have hmade : y.MadeOf (fun _ => True) Head.Resolved :=
    Expr.madeOf_resolveIn ⟨trivial, fun _ _ _ _ => trivial⟩ hy (Expr.madeOf_true w.integrand)
  have hsecond : (w.withIntegrand y).resolve cs = .ok (w.withIntegrand (cs.arrange y)) :=
    resolve_withIntegrand hd hmade
  have hthird : (w.withIntegrand (cs.arrange y)).resolve cs =
      .ok (w.withIntegrand (cs.arrange y)) := by
    rw [resolve_withIntegrand hd (Expr.madeOf_arrange hmade), Coefficients.arrange_arrange]
  simp only [withIntegrand_withIntegrand, integrand_withIntegrand]
  constructor
  · rw [hsecond, Except.ok.injEq, withIntegrand_inj, Coefficients.arrange_eq_self_iff]
  · exact ⟨cs.arrange y, hsecond, hthird, fun M => M.value_arrange cs y⟩

def planeSpace : Space := ⟨"W", 0, 2, .scalar⟩

def doubledMass : WeakForm Float :=
  .bilinear
    ⟨.generic .inner [.mul (.number 2) (.function ⟨"w", .test, planeSpace⟩),
        .function ⟨"u", .trial, planeSpace⟩],
      ⟨some planeSpace, some planeSpace, by simp⟩⟩

def resolvedMass : WeakForm Float :=
  doubledMass.withIntegrand (.mul (.mul (.number 2) (.function ⟨"w", .test, planeSpace⟩))
    (.function ⟨"u", .trial, planeSpace⟩))

theorem resolve_resolve_doubledMass :
    doubledMass.declaredDim?.isSome ∧ doubledMass.resolve .standard = .ok resolvedMass ∧
      resolvedMass.resolve .standard ≠ .ok resolvedMass := by
  have h : doubledMass.resolve .standard = .ok resolvedMass := by with_unfolding_all rfl
  refine ⟨rfl, h, fun hsame => ?_⟩
  have harranged := (resolve_resolve.{0} rfl h).1.1 hsame
  cases harranged

end WeakForm

end VariationalForms
