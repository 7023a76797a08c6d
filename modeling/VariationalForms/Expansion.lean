import VariationalForms.Expr.Derivative
import VariationalForms.Fault

/-! The rules of the operators.
An operator in a known dimension becomes derivatives, sums and products of the components of its
operands. Operands of a shape that its rule does not speak of leave the operator unevaluated.
-/

set_option autoImplicit false

namespace VariationalForms

variable {κ : Type}

namespace Argument

def component? (f : Argument) (i : Nat) : Except Fault (Expr κ) :=
  if i < f.space.shape?.getD 0 then .ok (.component f i) else .error (.componentRange f i)

def components (f : Argument) : List (Expr κ) :=
  (List.range (f.space.shape?.getD 0)).map (Expr.component f)

theorem length_components (f : Argument) :
    (f.components : List (Expr κ)).length = f.space.shape?.getD 0 := by
  simp [components]

end Argument

/-- The parts of a tuple or of a vector function; anything else is not seen to have parts. -/
def Expr.components? : Expr κ → Option (List (Expr κ))
  | .tuple items => some items
  | .function f => if f.space.isVectorValued then some f.components else none
  | _ => none

namespace OperatorAt

/-- Passes on as many parts as the dimension has axes, and refuses any other number. -/
def checkParts (o : OperatorAt) (parts : List (Expr κ)) : Except Fault (List (Expr κ)) :=
  if parts.length = o.dim then .ok parts
  else .error (.shapeMismatch o.operator o.dim parts.length)

theorem checkParts_eq_ok_iff {o : OperatorAt} {parts qs : List (Expr κ)} :
    o.checkParts parts = .ok qs ↔ parts = qs ∧ qs.length = o.dim := by
  unfold checkParts
  split
  · simp only [Except.ok.injEq]
    exact ⟨fun h => ⟨h, h ▸ ‹_›⟩, And.left⟩
  · simp only [reduceCtorEq, false_iff]
    rintro ⟨rfl, h⟩
    contradiction

theorem checkParts_bind_eq_ok_iff {α : Type} {o : OperatorAt} {parts : List (Expr κ)}
    {f : List (Expr κ) → Except Fault α} {r : α} :
    o.checkParts parts >>= f = .ok r ↔ parts.length = o.dim ∧ f parts = .ok r := by
  rw [bind_eq_ok_iff]
  constructor
  · rintro ⟨qs, hqs, h⟩
    obtain ⟨rfl, hlen⟩ := checkParts_eq_ok_iff.1 hqs
    exact ⟨hlen, h⟩
  · rintro ⟨hlen, h⟩
    exact ⟨parts, checkParts_eq_ok_iff.2 ⟨rfl, hlen⟩, h⟩

section Rules

variable [Zero κ]

def gradient (o : OperatorAt) (u : Expr κ) : Expr κ :=
  match u.components? with
  | some _ => .concrete o [u]
  | none =>
    if o.dim = 1 then Expr.derive .x u
    else .tuple ((Axis.spanning o.dim).map fun a => Expr.derive a u)

def divergence (o : OperatorAt) (u : Expr κ) : Except Fault (Expr κ) :=
  match u.components? with
  | some parts => do
    let parts ← o.checkParts parts
    let derived := List.zipWith Expr.derive (Axis.spanning o.dim) parts
    return (Expr.sum? derived).getD (.concrete o [u])
  | none => .ok (if o.dim = 1 then Expr.derive .x u else .concrete o [u])

theorem divergence_eq_ok_iff {o : OperatorAt} {u r : Expr κ} :
    o.divergence u = .ok r ↔
      (∃ parts, u.components? = some parts ∧ parts.length = o.dim ∧
        (Expr.sum? (List.zipWith Expr.derive (Axis.spanning o.dim) parts)).getD
          (.concrete o [u]) = r) ∨
      u.components? = none ∧ (if o.dim = 1 then u.derive .x else .concrete o [u]) = r := by
  unfold divergence
  cases u.components? with
  | none => simp
  | some parts => simp [checkParts_bind_eq_ok_iff, -bind_pure_comp]

def rotation (o : OperatorAt) (u : Expr κ) : Except Fault (Expr κ) :=
  match u.components? with
  | some parts => do
    match ← o.checkParts parts with
    | u₀ :: u₁ :: _ => return .sub (u₀.derive .y) (u₁.derive .x)
    | _ => throw (.missingComponent o)
  | none => .ok (.concrete o [u])

theorem rotation_eq_ok_iff {o : OperatorAt} {u r : Expr κ} :
    o.rotation u = .ok r ↔
      (∃ u₀ u₁ rest, u.components? = some (u₀ :: u₁ :: rest) ∧
        (u₀ :: u₁ :: rest).length = o.dim ∧ .sub (u₀.derive .y) (u₁.derive .x) = r) ∨
      u.components? = none ∧ .concrete o [u] = r := by
  unfold rotation
  cases u.components? with
  | none => simp
  | some parts =>
    match parts with
    | [] | [_] | _ :: _ :: _ => simp [checkParts_bind_eq_ok_iff, and_assoc]

def curl (o : OperatorAt) (u : Expr κ) : Except Fault (Expr κ) :=
  match u.components? with
  | some parts => do
    match ← o.checkParts parts with
    | u₀ :: u₁ :: u₂ :: _ =>
      return .tuple [
        .sub (u₂.derive .y) (u₁.derive .z),
        .sub (u₀.derive .z) (u₂.derive .x),
        .sub (u₁.derive .x) (u₀.derive .y)]
    | _ => throw (.missingComponent o)
  | none => .ok (.concrete o [u])

theorem curl_eq_ok_iff {o : OperatorAt} {u r : Expr κ} :
    o.curl u = .ok r ↔
      (∃ u₀ u₁ u₂ rest, u.components? = some (u₀ :: u₁ :: u₂ :: rest) ∧
        (u₀ :: u₁ :: u₂ :: rest).length = o.dim ∧
        .tuple [.sub (u₂.derive .y) (u₁.derive .z), .sub (u₀.derive .z) (u₂.derive .x),
          .sub (u₁.derive .x) (u₀.derive .y)] = r) ∨
      u.components? = none ∧ .concrete o [u] = r := by
  unfold curl
  cases u.components? with
  | none => simp
  | some parts =>
    match parts with
    | [] | [_] | [_, _] | _ :: _ :: _ :: _ => simp [checkParts_bind_eq_ok_iff, and_assoc]

end Rules

def innerProduct (o : OperatorAt) (u v : Expr κ) : Except Fault (Expr κ) :=
  match u.components?, v.components? with
  | some us, some vs => do
    let us ← o.checkParts us
    let vs ← o.checkParts vs
    return (Expr.sum? (List.zipWith Expr.mul us vs)).getD (.concrete o [u, v])
  | none, none => .ok (.mul u v)
  | _, _ => .ok (.concrete o [u, v])

theorem innerProduct_eq_ok_iff {o : OperatorAt} {u v r : Expr κ} :
    o.innerProduct u v = .ok r ↔
      (∃ us vs, u.components? = some us ∧ v.components? = some vs ∧ us.length = o.dim ∧
        vs.length = o.dim ∧
        (Expr.sum? (List.zipWith Expr.mul us vs)).getD (.concrete o [u, v]) = r) ∨
      u.components? = none ∧ v.components? = none ∧ .mul u v = r ∨
      u.components?.isSome ≠ v.components?.isSome ∧ .concrete o [u, v] = r := by
  unfold innerProduct
  cases u.components? <;> cases v.components? <;>
    simp [checkParts_bind_eq_ok_iff, -bind_pure_comp]

def crossProduct (o : OperatorAt) (u v : Expr κ) : Except Fault (Expr κ) :=
  match u.components?, v.components? with
  | some us, some vs => do
    let us ← o.checkParts us
    let vs ← o.checkParts vs
    if o.dim = 2 then
      match us, vs with
      | u₀ :: u₁ :: _, v₀ :: v₁ :: _ => return .sub (.mul u₀ v₁) (.mul u₁ v₀)
      | _, _ => throw (.missingComponent o)
    else
      match us, vs with
      | u₀ :: u₁ :: u₂ :: _, v₀ :: v₁ :: v₂ :: _ =>
        return .tuple [
          .sub (.mul u₁ v₂) (.mul u₂ v₁),
          .sub (.mul u₂ v₀) (.mul u₀ v₂),
          .sub (.mul u₀ v₁) (.mul u₁ v₀)]
      | _, _ => throw (.missingComponent o)
  | _, _ => .ok (.concrete o [u, v])

theorem crossProduct_eq_ok_iff {o : OperatorAt} {u v r : Expr κ} :
    o.crossProduct u v = .ok r ↔
      (∃ u₀ u₁ v₀ v₁, u.components? = some [u₀, u₁] ∧ v.components? = some [v₀, v₁] ∧
        o.dim = 2 ∧ .sub (.mul u₀ v₁) (.mul u₁ v₀) = r) ∨
      (∃ u₀ u₁ u₂ us v₀ v₁ v₂ vs, u.components? = some (u₀ :: u₁ :: u₂ :: us) ∧
        v.components? = some (v₀ :: v₁ :: v₂ :: vs) ∧ us.length + 3 = o.dim ∧
        vs.length + 3 = o.dim ∧
        .tuple [.sub (.mul u₁ v₂) (.mul u₂ v₁), .sub (.mul u₂ v₀) (.mul u₀ v₂),
          .sub (.mul u₀ v₁) (.mul u₁ v₀)] = r) ∨
      (u.components? = none ∨ v.components? = none) ∧ .concrete o [u, v] = r := by
  unfold crossProduct
  cases u.components? with
  | none => simp
  | some us =>
    cases v.components? with
    | none => simp
    | some vs =>
      simp only [checkParts_bind_eq_ok_iff]
      by_cases hd : o.dim = 2
      · match us, vs with
        | [u₀, u₁], [v₀, v₁] => simp [hd, and_assoc]
        | [], _ | [_], _ | _ :: _ :: _ :: _, _ | _, [] | _, [_] | _, _ :: _ :: _ :: _ =>
          simp [hd]
      · match us, vs with
        | _ :: _ :: _ :: _, _ :: _ :: _ :: _ => simp [hd, and_assoc]
        | [], _ | [_], _ | [_, _], _ | _, [] | _, [_] | _, [_, _] =>
          simp [hd, @eq_comm _ 2]

/-- Applies the rule of an operator to its operands. -/
def apply [Zero κ] (o : OperatorAt) (args : List (Expr κ)) : Except Fault (Expr κ) :=
  match o.operator, args with
  | .grad, [u] => .ok (o.gradient u)
  | .div, [u] => o.divergence u
  | .rot, [u] => o.rotation u
  | .curl, [u] => o.curl u
  | .dot, [u, v] => o.innerProduct u v
  | .inner, [u, v] => o.innerProduct u v
  | .cross, [u, v] => o.crossProduct u v
  | _, _ => .error (.operandCount o args.length)

end OperatorAt

def Operator.inDimension (o : Operator) (dim : Nat) : Except Fault OperatorAt :=
  if o.existsIn dim then .ok ⟨o, dim⟩ else .error (.unsupportedDimension o dim)

end VariationalForms
