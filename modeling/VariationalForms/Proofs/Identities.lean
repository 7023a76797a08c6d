import VariationalForms.Expr.Numerals
import VariationalForms.Proofs.Completeness
import VariationalForms.Proofs.Jets
import VariationalForms.Proofs.Resolution

/-! The identities of vector calculus in normal integrands.
The rotation and the curl of a gradient and the divergence of a curl are normalized to sums of flat
symbols that cancel, whatever the symbols stand for.
-/

set_option autoImplicit false

namespace VariationalForms

universe u

variable {κ : Type}

namespace Expr

def isArithmetic : Expr κ → Bool
  | .leaf (.function f) => f.space.shape?.isNone
  | .leaf _ => true
  | .arith _ l r => l.isArithmetic && r.isArithmetic
  | .node _ _ => false

abbrev rotGrad (f : Expr κ) : Expr κ := .generic .rot [.generic .grad [f]]

abbrev curlGrad (f : Expr κ) : Expr κ := .generic .curl [.generic .grad [f]]

abbrev divCurl (f₁ f₂ f₃ : Expr κ) : Expr κ := .generic .div [.generic .curl [.tuple [f₁, f₂, f₃]]]

section Arithmetic

variable {d : Nat} {f : Expr κ}

theorem isArithmetic_induct {P : Expr κ → Prop} (hf : f.isArithmetic)
    (leaf : ∀ l : Leaf κ, l.shape = .scalar → P (.leaf l))
    (arith : ∀ op l r, P l → P r → P (.arith op l r)) : P f := by
  induction f with
  | leaf l =>
    refine leaf l ?_
    cases l with
    | function f => simp_all [isArithmetic, Leaf.shape]
    | _ => rfl
  | arith op l r ihl ihr =>
    obtain ⟨hl, hr⟩ := Bool.and_eq_true_iff.1 hf
    exact arith op l r (ihl hl) (ihr hr)
  | node h args => cases hf

theorem shape_of_isArithmetic (hf : f.isArithmetic) : f.shape d = .scalar :=
  isArithmetic_induct hf (fun _ hl => hl) fun _ _ _ hl hr => Arith.shape_eq_scalar.2 ⟨hl, hr⟩

theorem isJet_of_isArithmetic (hf : f.isArithmetic) : f.IsJet :=
  isArithmetic_induct hf (fun l _ => .leaf l) fun op _ _ => .arith op

theorem expand_of_isArithmetic [Zero κ] (hf : f.isArithmetic) : expand d f = .ok f :=
  isArithmetic_induct (P := fun f => expand d f = .ok f) hf (fun _ _ => rfl)
    fun _ l r hl hr => expand_arith_eq_ok_iff.2 ⟨l, r, hl, hr, rfl⟩

theorem expand_grad [Zero κ] (hf : f.isArithmetic) (hd : d ≠ 1) :
    expand d (.generic .grad [f]) = .ok (.tuple ((Axis.spanning d).map fun a => derive a f)) := by
  refine expand_generic_eq_ok_iff.2 ⟨[f], .cons (expand_of_isArithmetic hf) .nil, ?_⟩
  have hnone : f.components? = none := components?_of_scalar (d := d) (shape_of_isArithmetic hf)
  simp [OperatorAt.apply, OperatorAt.gradient, hnone, hd]

end Arithmetic

end Expr

namespace Normalization

variable [Zero κ] [One κ] [Neg κ] [Add κ] [Sub κ] [Mul κ] [BEq κ] [NumberText κ]
  {n : Normalization}

theorem form_bilinear {o : Operator} {args : List (Expr κ)} {s : FormSpaces} {d : Nat} {x : Expr κ}
    (hn : n.simplify = false) (hd : BilinearForm.dimension ⟨.generic o args, s⟩ = .ok d)
    (hs : (Expr.generic o args).shape d ≠ .ill) (hx : Expr.expand d (.generic o args) = .ok x)
    (hok : ∀ m ∈ x.nodes, m.isDerivative → ∃ s, m.flatSymbol n.names = .ok s) :
    n.form (.bilinear ⟨.generic o args, s⟩) = .ok (.bilinear ⟨x.flattened n.names, s⟩) := by
  have hresolve : (Expr.generic o args).resolveIn n.coefficients d = .ok x :=
    Expr.resolveTerm_eq_ok_iff.2 ⟨fun _ => Expr.existsIn_of_mem_operators hs, hx⟩
  have hflat : n.flatten x = .ok (x.flattened n.names) := flatten_eq_ok_iff.2 ⟨hok, by rw [hn]; rfl⟩
  exact bind_eq_ok_iff.2 ⟨⟨x, s⟩,
    bind_eq_ok_iff.2 ⟨d, hd, bind_eq_ok_iff.2 ⟨x, hresolve, rfl⟩⟩,
    bind_eq_ok_iff.2 ⟨_, hflat, rfl⟩⟩

end Normalization

namespace Expr

section Mixed

variable [Zero κ] {f f₁ f₂ f₃ : Expr κ}

def mixed (f : Expr κ) (a b : Axis) : Expr κ :=
  .sub ((f.derive a).derive b) ((f.derive b).derive a)

theorem isJet_mixed (hf : f.IsJet) (a b : Axis) : (mixed f a b).IsJet :=
  .arith .sub ((hf.derive a).derive b) ((hf.derive b).derive a)

def divergenceOfCurl (f₁ f₂ f₃ : Expr κ) : Expr κ :=
  .add (.add
    ((Expr.sub (f₃.derive .y) (f₂.derive .z)).derive .x)
    ((Expr.sub (f₁.derive .z) (f₃.derive .x)).derive .y))
    ((Expr.sub (f₂.derive .x) (f₁.derive .y)).derive .z)

theorem isJet_divergenceOfCurl (h₁ : f₁.IsJet) (h₂ : f₂.IsJet) (h₃ : f₃.IsJet) :
    (divergenceOfCurl f₁ f₂ f₃).IsJet :=
  .arith .add (.arith .add
    ((IsJet.arith .sub (h₃.derive .y) (h₂.derive .z)).derive .x)
    ((IsJet.arith .sub (h₁.derive .z) (h₃.derive .x)).derive .y))
    ((IsJet.arith .sub (h₂.derive .x) (h₁.derive .y)).derive .z)

end Mixed

section Vanishing

variable [Zero κ] [NumberText κ]

/-- Worth zero once it is flattened, whatever the leaves and the flat symbols are worth. -/
def Vanishes (e : Expr κ) : Prop :=
  ∀ (R : Type u) [CommRing R] (M : Reading κ R), M.leaf (.number 0) = 0 → M.value e = 0

theorem IsJet.vanishes {e : Expr κ} (he : e.IsJet) (names : BasisNames)
    (h : ∀ (R : Type u) [CommRing R] (ρ : Leaf κ → R), ρ (.number 0) = 0 →
      (Jets.reading ρ).value e = 0) : (e.flattened names).Vanishes.{u} := by
  intro R _ M hM
  rw [he.value_flattened M, h R (fun l => M.value ((Expr.leaf l).flattened names)) hM, map_zero]

variable {f f₁ f₂ f₃ : Expr κ}

theorem vanishes_mixed (hf : f.IsJet) (names : BasisNames) (a b : Axis) :
    ((mixed f a b).flattened names).Vanishes := by
  refine (isJet_mixed hf a b).vanishes names ?_
  intro R _ ρ hρ
  have hD := Jets.reading_isDifferential (ρ := ρ) hρ
  rw [mixed, Reading.value_sub, hD.value_derive, hD.value_derive, hD.value_derive, hD.value_derive,
    Jets.derivation_comm, sub_self]

theorem vanishes_divergenceOfCurl (h₁ : f₁.IsJet) (h₂ : f₂.IsJet) (h₃ : f₃.IsJet)
    (names : BasisNames) : ((divergenceOfCurl f₁ f₂ f₃).flattened names).Vanishes := by
  refine (isJet_divergenceOfCurl h₁ h₂ h₃).vanishes names ?_
  intro R _ ρ hρ
  have hD := Jets.reading_isDifferential (ρ := ρ) hρ
  simp only [divergenceOfCurl, Reading.value_add, Reading.value_sub, hD.value_derive, map_sub]
  rw [Jets.derivation_comm .x .z, Jets.derivation_comm .x .y, Jets.derivation_comm .y .z]
  ring

end Vanishing

end Expr

namespace Normalization

variable [Zero κ] [One κ] [Neg κ] [Add κ] [Sub κ] [Mul κ] [BEq κ] [NumberText κ]
  {n : Normalization} {s : FormSpaces} {f f₁ f₂ f₃ : Expr κ}

theorem form_rot_grad (hn : n.simplify = false) (hf : f.isArithmetic)
    (hd : BilinearForm.dimension ⟨.rotGrad f, s⟩ = .ok 2) :
    ∃ r, n.form (.bilinear ⟨.rotGrad f, s⟩) = .ok (.bilinear ⟨r, s⟩) ∧ r.Vanishes := by
  have hshape : (Expr.rotGrad f).shape 2 ≠ .ill := by
    simp [Head.shape, Expr.shape_of_isArithmetic hf, Operator.shape, Operator.existsIn, Shape.grad,
      Shape.rot]
  have hx : Expr.expand 2 (.rotGrad f) = .ok (Expr.mixed f .x .y) :=
    Expr.expand_generic_eq_ok_iff.2 ⟨_, .cons (Expr.expand_grad hf (by decide)) .nil, rfl⟩
  have hjet := Expr.isJet_of_isArithmetic hf
  refine ⟨_, form_bilinear hn hd hshape hx ?_, Expr.vanishes_mixed hjet n.names .x .y⟩
  exact (Expr.isJet_mixed hjet .x .y).exists_flatSymbol

theorem form_curl_grad (hn : n.simplify = false) (hf : f.isArithmetic)
    (hd : BilinearForm.dimension ⟨.curlGrad f, s⟩ = .ok 3) :
    ∃ r₁ r₂ r₃, n.form (.bilinear ⟨.curlGrad f, s⟩) = .ok (.bilinear ⟨.tuple [r₁, r₂, r₃], s⟩) ∧
      r₁.Vanishes ∧ r₂.Vanishes ∧ r₃.Vanishes := by
  have hshape : (Expr.curlGrad f).shape 3 ≠ .ill := by
    simp [Head.shape, Expr.shape_of_isArithmetic hf, Operator.shape, Operator.existsIn, Shape.grad,
      Shape.curl]
  have hx : Expr.expand 3 (.curlGrad f) =
      .ok (.tuple [Expr.mixed f .z .y, Expr.mixed f .x .z, Expr.mixed f .y .x]) :=
    Expr.expand_generic_eq_ok_iff.2 ⟨_, .cons (Expr.expand_grad hf (by decide)) .nil, rfl⟩
  have hjet := Expr.isJet_of_isArithmetic hf
  have hok : ∀ m ∈ (Expr.tuple [Expr.mixed f .z .y, Expr.mixed f .x .z, Expr.mixed f .y .x]).nodes,
      m.isDerivative → ∃ s, m.flatSymbol n.names = .ok s := by
    refine Expr.forall_mem_nodes.2 ⟨by simp [Expr.isDerivative], fun e he => ?_⟩
    simp only [Expr.children, List.mem_cons, List.not_mem_nil, or_false] at he
    rcases he with rfl | rfl | rfl
    · exact (Expr.isJet_mixed hjet .z .y).exists_flatSymbol
    · exact (Expr.isJet_mixed hjet .x .z).exists_flatSymbol
    · exact (Expr.isJet_mixed hjet .y .x).exists_flatSymbol
  have hform := form_bilinear hn hd hshape hx hok
  rw [Expr.flattened_node (by simp)] at hform
  exact ⟨_, _, _, hform, Expr.vanishes_mixed hjet n.names .z .y,
    Expr.vanishes_mixed hjet n.names .x .z, Expr.vanishes_mixed hjet n.names .y .x⟩

theorem form_div_curl (hn : n.simplify = false) (h₁ : f₁.isArithmetic) (h₂ : f₂.isArithmetic)
    (h₃ : f₃.isArithmetic) (hd : BilinearForm.dimension ⟨.divCurl f₁ f₂ f₃, s⟩ = .ok 3) :
    ∃ r, n.form (.bilinear ⟨.divCurl f₁ f₂ f₃, s⟩) = .ok (.bilinear ⟨r, s⟩) ∧ r.Vanishes := by
  have hshape : (Expr.divCurl f₁ f₂ f₃).shape 3 ≠ .ill := by
    simp [Head.shape, Expr.shape_of_isArithmetic h₁, Expr.shape_of_isArithmetic h₂,
      Expr.shape_of_isArithmetic h₃, Operator.shape, Operator.existsIn, Shape.tuple, Shape.curl,
      Shape.div]
  have htuple : Expr.expand 3 (.tuple [f₁, f₂, f₃]) = .ok (.tuple [f₁, f₂, f₃]) :=
    (Expr.expand_node_eq_ok_iff (by simp) (by simp)).2 ⟨_,
      .cons (Expr.expand_of_isArithmetic h₁) (.cons (Expr.expand_of_isArithmetic h₂)
        (.cons (Expr.expand_of_isArithmetic h₃) .nil)), rfl⟩
  have hcurl : Expr.expand 3 (.generic .curl [.tuple [f₁, f₂, f₃]]) =
      .ok (.tuple [.sub (f₃.derive .y) (f₂.derive .z), .sub (f₁.derive .z) (f₃.derive .x),
        .sub (f₂.derive .x) (f₁.derive .y)]) :=
    Expr.expand_generic_eq_ok_iff.2 ⟨_, .cons htuple .nil, rfl⟩
  have hx : Expr.expand 3 (.divCurl f₁ f₂ f₃) = .ok (Expr.divergenceOfCurl f₁ f₂ f₃) :=
    Expr.expand_generic_eq_ok_iff.2 ⟨_, .cons hcurl .nil, rfl⟩
  have hj₁ := Expr.isJet_of_isArithmetic h₁
  have hj₂ := Expr.isJet_of_isArithmetic h₂
  have hj₃ := Expr.isJet_of_isArithmetic h₃
  refine ⟨_, form_bilinear hn hd hshape hx ?_, Expr.vanishes_divergenceOfCurl hj₁ hj₂ hj₃ n.names⟩
  exact (Expr.isJet_divergenceOfCurl hj₁ hj₂ hj₃).exists_flatSymbol

/-- The rotation and the curl of a gradient and the divergence of a curl vanish once they are
normalized. -/
theorem form_identities (hn : n.simplify = false) (hf : f.isArithmetic) (h₁ : f₁.isArithmetic)
    (h₂ : f₂.isArithmetic) (h₃ : f₃.isArithmetic) :
    (∀ s, BilinearForm.dimension ⟨.rotGrad f, s⟩ = .ok 2 →
      ∃ r, n.form (.bilinear ⟨.rotGrad f, s⟩) = .ok (.bilinear ⟨r, s⟩) ∧ r.Vanishes) ∧
    (∀ s, BilinearForm.dimension ⟨.curlGrad f, s⟩ = .ok 3 →
      ∃ r₁ r₂ r₃, n.form (.bilinear ⟨.curlGrad f, s⟩) =
          .ok (.bilinear ⟨.tuple [r₁, r₂, r₃], s⟩) ∧
        r₁.Vanishes ∧ r₂.Vanishes ∧ r₃.Vanishes) ∧
    (∀ s, BilinearForm.dimension ⟨.divCurl f₁ f₂ f₃, s⟩ = .ok 3 →
      ∃ r, n.form (.bilinear ⟨.divCurl f₁ f₂ f₃, s⟩) = .ok (.bilinear ⟨r, s⟩) ∧ r.Vanishes) :=
  ⟨fun _ => form_rot_grad hn hf, fun _ => form_curl_grad hn hf,
    fun _ => form_div_curl hn h₁ h₂ h₃⟩

def spacesOn (d : Nat) : FormSpaces := ⟨none, some ⟨"V", 0, d, .scalar⟩, by simp⟩

def scaledField : Expr Float := .mul (.constant "nu") (.mul (.field "w") (.symbol "x"))

theorem form_identities_scaledField :
    (∃ r, form ⟨.standard, .empty, false⟩ (.bilinear ⟨.rotGrad scaledField, spacesOn 2⟩) =
        .ok (.bilinear ⟨r, spacesOn 2⟩) ∧ r.Vanishes) ∧
      (∃ r₁ r₂ r₃, form ⟨.standard, .empty, false⟩ (.bilinear ⟨.curlGrad scaledField, spacesOn 3⟩) =
          .ok (.bilinear ⟨.tuple [r₁, r₂, r₃], spacesOn 3⟩) ∧
        r₁.Vanishes ∧ r₂.Vanishes ∧ r₃.Vanishes) ∧
      ∃ r, form ⟨.standard, .empty, false⟩
          (.bilinear ⟨.divCurl scaledField (.symbol "y") scaledField, spacesOn 3⟩) =
        .ok (.bilinear ⟨r, spacesOn 3⟩) ∧ r.Vanishes := by
  have hw : scaledField.isArithmetic := rfl
  have hy : (Expr.symbol "y" : Expr Float).isArithmetic := rfl
  obtain ⟨hrot, hcurl, hdiv⟩ :=
    form_identities (n := ⟨.standard, .empty, false⟩) rfl hw hw hy hw
  exact ⟨hrot _ rfl, hcurl _ rfl, hdiv _ rfl⟩

end Normalization

end VariationalForms
