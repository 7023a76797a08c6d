import VariationalForms.Proofs.Simplification

/-! The faults that can arise.
A rule that reads its operands and their components by position finds something at every position,
in a dimension in which its operator exists (`OperatorAt.applyByPosition_eq`). So an integrand is
resolved and normalized, or it is refused for one of a few causes, whatever its nodes look like
(`reads_in_bounds`).
-/

set_option autoImplicit false

namespace VariationalForms

variable {κ : Type}

/-- If a computation fails, then by one of these faults. -/
def FaultsIn {α : Type} (S : Fault → Prop) (x : Except Fault α) : Prop := ∀ f, x = .error f → S f

namespace FaultsIn

variable {α β : Type} {S T : Fault → Prop} {x : Except Fault α}

theorem ok (a : α) : FaultsIn S (.ok a) := by
  intro f hf
  cases hf

theorem error {f : Fault} (hf : S f) : FaultsIn S (.error f : Except Fault α) := by
  intro g hg
  cases hg
  exact hf

theorem mono (hST : ∀ f, S f → T f) (hx : FaultsIn S x) : FaultsIn T x :=
  fun f hf => hST f (hx f hf)

theorem bind {g : α → Except Fault β} (hx : FaultsIn S x)
    (hg : ∀ a, x = .ok a → FaultsIn S (g a)) : FaultsIn S (x >>= g) := by
  intro f hf
  cases x with
  | error f' => cases hf; exact hx f rfl
  | ok a => exact hg a rfl f hf

theorem mapM {f : α → Except Fault β} {as : List α} (hf : ∀ a ∈ as, FaultsIn S (f a)) :
    FaultsIn S (as.mapM f) := by
  induction as with
  | nil => exact ok _
  | cons a as ih =>
    rw [List.mapM_cons]
    refine bind (hf a (.head _)) fun b _ => bind (ih fun a' ha' => hf a' (.tail _ ha')) ?_
    exact fun bs _ => ok _

end FaultsIn

/-- How a rule that reads by position can stop: by a fault, or at a position behind the last operand
or behind the last component. -/
inductive Stop
  | fault (f : Fault)
  | operand (position count : Nat)
  | component (position count : Nat)

namespace OperatorAt

section Positions

variable {o : OperatorAt} {args : List (Expr κ)} {u v : Expr κ}

def operandAt (args : List (Expr κ)) (i : Nat) : Except Stop (Expr κ) :=
  match args[i]? with
  | some e => .ok e
  | none => .error (.operand i args.length)

def componentAt (parts : List (Expr κ)) (i : Nat) : Except Stop (Expr κ) :=
  match parts[i]? with
  | some e => .ok e
  | none => .error (.component i parts.length)

variable [Zero κ]

def rotationByPosition (o : OperatorAt) (u : Expr κ) : Except Stop (Expr κ) :=
  match u.components? with
  | some parts => do
    let u ← (o.checkParts parts).mapError .fault
    return .sub ((← componentAt u 0).derive .y) ((← componentAt u 1).derive .x)
  | none => .ok (.concrete o [u])

def curlByPosition (o : OperatorAt) (u : Expr κ) : Except Stop (Expr κ) :=
  match u.components? with
  | some parts => do
    let u ← (o.checkParts parts).mapError .fault
    return .tuple [
      .sub ((← componentAt u 2).derive .y) ((← componentAt u 1).derive .z),
      .sub ((← componentAt u 0).derive .z) ((← componentAt u 2).derive .x),
      .sub ((← componentAt u 1).derive .x) ((← componentAt u 0).derive .y)]
  | none => .ok (.concrete o [u])

omit [Zero κ] in
def crossProductByPosition (o : OperatorAt) (u v : Expr κ) : Except Stop (Expr κ) :=
  match u.components?, v.components? with
  | some us, some vs => do
    let u ← (o.checkParts us).mapError .fault
    let v ← (o.checkParts vs).mapError .fault
    if o.dim = 2 then
      return .sub (.mul (← componentAt u 0) (← componentAt v 1))
        (.mul (← componentAt u 1) (← componentAt v 0))
    else
      return .tuple [
        .sub (.mul (← componentAt u 1) (← componentAt v 2))
          (.mul (← componentAt u 2) (← componentAt v 1)),
        .sub (.mul (← componentAt u 2) (← componentAt v 0))
          (.mul (← componentAt u 0) (← componentAt v 2)),
        .sub (.mul (← componentAt u 0) (← componentAt v 1))
          (.mul (← componentAt u 1) (← componentAt v 0))]
  | _, _ => .ok (.concrete o [u, v])

/-- The rule of an operator, with its operands and their components read by position once their
number has been checked. -/
def applyByPosition (o : OperatorAt) (args : List (Expr κ)) : Except Stop (Expr κ) :=
  if args.length ≠ o.operator.arity then .error (.fault (.operandCount o args.length))
  else
    match o.operator with
    | .grad => do return o.gradient (← operandAt args 0)
    | .div => do (o.divergence (← operandAt args 0)).mapError .fault
    | .rot => do o.rotationByPosition (← operandAt args 0)
    | .curl => do o.curlByPosition (← operandAt args 0)
    | .dot | .inner => do
      (o.innerProduct (← operandAt args 0) (← operandAt args 1)).mapError .fault
    | .cross => do o.crossProductByPosition (← operandAt args 0) (← operandAt args 1)

/-- Two readings agree: they have one outcome or one fault, or the one by position has run past the
components and the other one reports that there are too few. -/
def Agrees (o : OperatorAt) (x : Except Stop (Expr κ)) (y : Except Fault (Expr κ)) : Prop :=
  x = y.mapError .fault ∨
    (∃ i n, n ≤ i ∧ x = .error (.component i n)) ∧ y = .error (.missingComponent o)

omit [Zero κ] in
theorem agrees_checkParts {x : List (Expr κ) → Except Stop (Expr κ)}
    {y : List (Expr κ) → Except Fault (Expr κ)} {parts : List (Expr κ)}
    (h : parts.length = o.dim → o.Agrees (x parts) (y parts)) :
    o.Agrees ((o.checkParts parts).mapError .fault >>= x) (o.checkParts parts >>= y) := by
  unfold checkParts
  split
  case isTrue hlen => exact h hlen
  case isFalse => exact .inl rfl

omit [Zero κ] in
theorem agrees_beyond {i n : Nat} (h : n ≤ i) :
    o.Agrees (.error (.component i n) : Except Stop (Expr κ)) (.error (.missingComponent o)) :=
  .inr ⟨⟨i, n, h, rfl⟩, rfl⟩

theorem agrees_rotation (o : OperatorAt) (u : Expr κ) :
    o.Agrees (o.rotationByPosition u) (o.rotation u) := by
  unfold rotationByPosition rotation
  cases u.components? with
  | none => exact .inl rfl
  | some parts =>
    refine agrees_checkParts fun _ => ?_
    match parts with
    | [] => exact agrees_beyond (i := 0) (n := 0) (by omega)
    | [_] => exact agrees_beyond (i := 1) (n := 1) (by omega)
    | _ :: _ :: _ => exact .inl rfl

theorem agrees_curl (o : OperatorAt) (u : Expr κ) :
    o.Agrees (o.curlByPosition u) (o.curl u) := by
  unfold curlByPosition curl
  cases u.components? with
  | none => exact .inl rfl
  | some parts =>
    refine agrees_checkParts fun _ => ?_
    match parts with
    | [] => exact agrees_beyond (i := 2) (n := 0) (by omega)
    | [_] => exact agrees_beyond (i := 2) (n := 1) (by omega)
    | [_, _] => exact agrees_beyond (i := 2) (n := 2) (by omega)
    | _ :: _ :: _ :: _ => exact .inl rfl

omit [Zero κ] in
theorem agrees_crossProduct (o : OperatorAt) (u v : Expr κ) :
    o.Agrees (o.crossProductByPosition u v) (o.crossProduct u v) := by
  unfold crossProductByPosition crossProduct
  cases u.components? with
  | none => exact .inl rfl
  | some us =>
    cases v.components? with
    | none => exact .inl rfl
    | some vs =>
      refine agrees_checkParts fun hus => agrees_checkParts fun hvs => ?_
      by_cases hd : o.dim = 2
      · rw [if_pos hd, if_pos hd]
        obtain ⟨u₀, u₁, rfl⟩ := List.length_eq_two.1 (hus.trans hd)
        obtain ⟨v₀, v₁, rfl⟩ := List.length_eq_two.1 (hvs.trans hd)
        exact .inl rfl
      · rw [if_neg hd, if_neg hd]
        match us, vs with
        | _ :: _ :: _ :: _, _ :: _ :: _ :: _ => exact .inl rfl
        | [], _ => exact agrees_beyond (i := 1) (n := 0) (by omega)
        | [_], _ => exact agrees_beyond (i := 1) (n := 1) (by omega)
        | [_, _], _ => exact absurd hus.symm hd
        | _ :: _ :: _ :: _, [] | _ :: _ :: _ :: _, [_] =>
          simp only [List.length_cons, List.length_nil] at hus hvs
          omega
        | _ :: _ :: _ :: _, [_, _] => exact absurd hvs.symm hd

/-- Reading by position never runs past the operands. It runs past the components exactly where the
rule reports that there are too few, and it does what the rule does everywhere else. -/
theorem agrees_apply (o : OperatorAt) (args : List (Expr κ)) :
    o.Agrees (o.applyByPosition args) (o.apply args) := by
  obtain ⟨operator, dim⟩ := o
  unfold applyByPosition
  split
  case isTrue hlen =>
    have hcount : apply ⟨operator, dim⟩ args =
        .error (.operandCount ⟨operator, dim⟩ args.length) := by
      rcases args with _ | ⟨u, _ | ⟨v, _ | ⟨w, rest⟩⟩⟩ <;> cases operator <;>
        simp_all [apply, Operator.arity]
    exact .inl (by rw [hcount]; rfl)
  case isFalse hlen =>
    have hlen : args.length = operator.arity := by simpa using hlen
    cases operator with
    | grad | div =>
      obtain ⟨u, rfl⟩ := List.length_eq_one_iff.1 hlen
      exact .inl rfl
    | rot =>
      obtain ⟨u, rfl⟩ := List.length_eq_one_iff.1 hlen
      exact agrees_rotation _ u
    | curl =>
      obtain ⟨u, rfl⟩ := List.length_eq_one_iff.1 hlen
      exact agrees_curl _ u
    | dot | inner =>
      obtain ⟨u, v, rfl⟩ := List.length_eq_two.1 hlen
      exact .inl rfl
    | cross =>
      obtain ⟨u, v, rfl⟩ := List.length_eq_two.1 hlen
      exact agrees_crossProduct _ u v

example : applyByPosition ⟨.rot, 1⟩ [(.tuple [.field "f"] : Expr Float)] =
    .error (.component 1 1) := rfl

end Positions

end OperatorAt

/-- The operands of an operator do not fit: their number, or the number of their components. -/
inductive Fault.OfOperands : Fault → Prop
  | shape (o : Operator) (expected found : Nat) : OfOperands (.shapeMismatch o expected found)
  | count (o : OperatorAt) (found : Nat) : OfOperands (.operandCount o found)

/-- The causes for which an integrand in a known dimension is refused. -/
inductive Fault.OfResolving : Fault → Prop
  | operands {f : Fault} (h : f.OfOperands) : OfResolving f
  | dimension (o : Operator) (dim : Nat) : OfResolving (.unsupportedDimension o dim)

inductive Fault.OfInference : Fault → Prop
  | leaf (k : Kind) : OfInference (.inputKind k)
  | noOperator (text : String) : OfInference (.noGenericOperator text)
  | noFunction (o : Operator) : OfInference (.noFunctionOperand o)

inductive Fault.OfFlattening : Fault → Prop
  | atom (k : Kind) : OfFlattening (.derivativeOf k)
  | count (found : Nat) (text : String) : OfFlattening (.derivativeOperandCount found text)

namespace OperatorAt

variable {o : OperatorAt} {args : List (Expr κ)} {u v : Expr κ}

theorem faultsIn_checkParts {parts : List (Expr κ)} :
    FaultsIn Fault.OfOperands (o.checkParts parts) := by
  unfold checkParts
  split
  case isTrue => exact .ok _
  case isFalse => exact .error (.shape _ _ _)

theorem faultsIn_checkParts_bind {parts : List (Expr κ)}
    {f : List (Expr κ) → Except Fault (Expr κ)}
    (hf : ∀ qs, qs.length = o.dim → FaultsIn Fault.OfOperands (f qs)) :
    FaultsIn Fault.OfOperands (o.checkParts parts >>= f) :=
  faultsIn_checkParts.bind fun qs hqs => hf qs (checkParts_eq_ok_iff.1 hqs).2

theorem faultsIn_innerProduct : FaultsIn Fault.OfOperands (o.innerProduct u v) := by
  unfold innerProduct
  split
  case h_1 => exact faultsIn_checkParts_bind fun _ _ => faultsIn_checkParts_bind fun _ _ => .ok _
  case h_2 => exact .ok _
  case h_3 => exact .ok _

theorem faultsIn_crossProduct (hd : 2 ≤ o.dim) :
    FaultsIn Fault.OfOperands (o.crossProduct u v) := by
  unfold crossProduct
  split
  case h_2 => exact .ok _
  case h_1 =>
    refine faultsIn_checkParts_bind fun us hus => faultsIn_checkParts_bind fun vs hvs => ?_
    split
    case isTrue hdim =>
      obtain ⟨u₀, u₁, rfl⟩ := List.length_eq_two.1 (hus.trans hdim)
      obtain ⟨v₀, v₁, rfl⟩ := List.length_eq_two.1 (hvs.trans hdim)
      exact .ok _
    case isFalse hdim =>
      match us, vs with
      | _ :: _ :: _ :: _, _ :: _ :: _ :: _ => exact .ok _
      | [], _ | [_], _ | [_, _], _ | _, [] | _, [_] | _, [_, _] =>
        simp only [List.length_cons, List.length_nil] at hus hvs
        omega

variable [Zero κ]

theorem faultsIn_divergence : FaultsIn Fault.OfOperands (o.divergence u) := by
  unfold divergence
  split
  case h_1 => exact faultsIn_checkParts_bind fun _ _ => .ok _
  case h_2 => exact .ok _

theorem faultsIn_rotation (hd : 2 ≤ o.dim) : FaultsIn Fault.OfOperands (o.rotation u) := by
  unfold rotation
  split
  case h_2 => exact .ok _
  case h_1 =>
    refine faultsIn_checkParts_bind fun parts hlen => ?_
    match parts with
    | _ :: _ :: _ => exact .ok _
    | [] | [_] =>
      simp only [List.length_cons, List.length_nil] at hlen
      omega

theorem faultsIn_curl (hd : 3 ≤ o.dim) : FaultsIn Fault.OfOperands (o.curl u) := by
  unfold curl
  split
  case h_2 => exact .ok _
  case h_1 =>
    refine faultsIn_checkParts_bind fun parts hlen => ?_
    match parts with
    | _ :: _ :: _ :: _ => exact .ok _
    | [] | [_] | [_, _] =>
      simp only [List.length_cons, List.length_nil] at hlen
      omega

/-- Where its operator exists, a rule fails only for operands that do not fit. -/
theorem faultsIn_apply (hd : o.operator.existsIn o.dim) :
    FaultsIn Fault.OfOperands (o.apply args) := by
  unfold apply
  split
  case h_1 => exact .ok _
  case h_2 => exact faultsIn_divergence
  case h_3 ho =>
    rw [ho] at hd
    exact faultsIn_rotation (by simp only [Operator.existsIn, beq_iff_eq] at hd; omega)
  case h_4 ho =>
    rw [ho] at hd
    exact faultsIn_curl (by simp only [Operator.existsIn, beq_iff_eq] at hd; omega)
  case h_5 => exact faultsIn_innerProduct
  case h_6 => exact faultsIn_innerProduct
  case h_7 ho =>
    rw [ho] at hd
    exact faultsIn_crossProduct (by
      simp only [Operator.existsIn, Bool.or_eq_true, beq_iff_eq] at hd
      omega)
  case h_8 => exact .error (.count _ _)

theorem applyByPosition_eq (hd : o.operator.existsIn o.dim) :
    o.applyByPosition args = (o.apply args).mapError .fault := by
  rcases agrees_apply o args with h | ⟨-, hmissing⟩
  · exact h
  · cases faultsIn_apply hd _ hmissing

end OperatorAt

theorem mapError_bind {ε ε' α β : Type} (g : ε → ε') (x : Except ε α) (f : α → Except ε β) :
    (x >>= f).mapError g = x.mapError g >>= fun a => (f a).mapError g := by
  cases x <;> rfl

namespace Expr

variable [Zero κ] {d : Nat} {e : Expr κ}

mutual

def expandByPosition (table : List OperatorAt) : Expr κ → Except Stop (Expr κ)
  | .leaf l => .ok (.leaf l)
  | .arith op l r => do return .arith op (← expandByPosition table l) (← expandByPosition table r)
  | .derivative a [u] => do
    let v ← expandByPosition table u
    return if u.containsGeneric then derive a v else .derivative a [v]
  | .generic o args => do
    let args ← expandArgsByPosition table args
    match table.find? (·.operator == o) with
    | some rule => rule.applyByPosition args
    | none => return .generic o args
  | .node h args => do return .node h (← expandArgsByPosition table args)

def expandArgsByPosition (table : List OperatorAt) : List (Expr κ) → Except Stop (List (Expr κ))
  | [] => .ok []
  | e :: es => do return (← expandByPosition table e) :: (← expandArgsByPosition table es)

end

def resolveTermByPosition (dim : Nat) (e : Expr κ) : Except Stop (Expr κ) := do
  if e.operators.isEmpty then return e
  e.expandByPosition (← (e.operators.mapM fun o : Operator => o.inDimension dim).mapError .fault)

variable {table : List OperatorAt}

theorem expandArgsByPosition_eq {args : List (Expr κ)}
    (h : ∀ e ∈ args, expandByPosition table e = (expandBy table e).mapError .fault) :
    expandArgsByPosition table args = (expandArgsBy table args).mapError .fault := by
  induction args with
  | nil => rfl
  | cons e es ih =>
    rw [expandArgsByPosition, expandArgsBy, mapError_bind, h e (.head _)]
    refine bind_congr fun _ => ?_
    rw [mapError_bind, ih fun e' he' => h e' (.tail _ he')]
    rfl

theorem expandByPosition_eq (h : ∀ rule ∈ table, rule.operator.existsIn rule.dim) :
    expandByPosition table e = (expandBy table e).mapError .fault := by
  induction e with
  | leaf l => rfl
  | arith op l r hl hr =>
    rw [expandByPosition, expandBy, mapError_bind, hl]
    refine bind_congr fun _ => ?_
    rw [mapError_bind, hr]
    rfl
  | node k args ih =>
    have hrest := expandArgsByPosition_eq ih
    have hnode : (do return .node k (← expandArgsByPosition table args) : Except Stop (Expr κ)) =
        (do return .node k (← expandArgsBy table args) :
          Except Fault (Expr κ)).mapError .fault := by
      rw [mapError_bind, hrest]
      rfl
    cases k with
    | generic o =>
      rw [expandByPosition, expandBy, mapError_bind, hrest]
      refine bind_congr fun rs => ?_
      cases hfind : table.find? (·.operator == o) with
      | none => rfl
      | some rule => exact OperatorAt.applyByPosition_eq (h rule (List.mem_of_find?_eq_some hfind))
    | derivative a =>
      rcases args with _ | ⟨u, _ | ⟨v, rest⟩⟩
      · exact hnode
      · rw [expandByPosition, expandBy, mapError_bind, ih u (.head _)]
        rfl
      · exact hnode
    | tuple => exact hnode
    | concrete o => exact hnode

theorem existsIn_of_mapM_inDimension {os : List Operator}
    (htable : (os.mapM fun o => o.inDimension d) = .ok table) :
    ∀ rule ∈ table, rule.operator.existsIn rule.dim := by
  intro rule hrule
  obtain ⟨o, -, ho⟩ := exists_of_mem_right (mapM_eq_ok_iff.1 htable) hrule
  obtain ⟨hd, rfl⟩ := Operator.inDimension_eq_ok_iff.1 ho
  exact hd

theorem resolveTermByPosition_eq (e : Expr κ) :
    e.resolveTermByPosition d = (e.resolveTerm d).mapError .fault := by
  unfold resolveTermByPosition resolveTerm
  split
  case isTrue => rfl
  case isFalse =>
    rw [mapError_bind]
    cases htable : e.operators.mapM fun o => o.inDimension d with
    | error f => rfl
    | ok table => exact expandByPosition_eq (existsIn_of_mapM_inDimension htable)

theorem faultsIn_expandArgsBy {args : List (Expr κ)}
    (h : ∀ e ∈ args, FaultsIn Fault.OfResolving (expandBy table e)) :
    FaultsIn Fault.OfResolving (expandArgsBy table args) := by
  induction args with
  | nil => exact .ok _
  | cons e es ih =>
    refine (h e (.head _)).bind fun _ _ => ?_
    exact (ih fun e' he' => h e' (.tail _ he')).bind fun _ _ => .ok _

theorem faultsIn_expandBy (h : ∀ rule ∈ table, rule.operator.existsIn rule.dim) :
    FaultsIn Fault.OfResolving (expandBy table e) := by
  induction e with
  | leaf l => exact .ok _
  | arith op l r hl hr => exact hl.bind fun _ _ => hr.bind fun _ _ => .ok _
  | node k args ih =>
    have hrest : FaultsIn Fault.OfResolving (expandArgsBy table args) := faultsIn_expandArgsBy ih
    cases k with
    | generic o =>
      refine hrest.bind fun rs _ => ?_
      split
      case h_1 rule hfind =>
        have hd := h rule (List.mem_of_find?_eq_some hfind)
        exact (OperatorAt.faultsIn_apply hd).mono fun _ => .operands
      case h_2 => exact .ok _
    | derivative a =>
      rcases args with _ | ⟨u, _ | ⟨v, rest⟩⟩
      · exact hrest.bind fun _ _ => .ok _
      · exact (ih u (.head _)).bind fun _ _ => .ok _
      · exact hrest.bind fun _ _ => .ok _
    | tuple => exact hrest.bind fun _ _ => .ok _
    | concrete o => exact hrest.bind fun _ _ => .ok _

theorem faultsIn_resolveTerm (e : Expr κ) : FaultsIn Fault.OfResolving (resolveTerm d e) := by
  unfold resolveTerm
  split
  case isTrue => exact .ok _
  case isFalse =>
    refine FaultsIn.bind (.mapM fun o _ => ?_) fun table htable =>
      faultsIn_expandBy (existsIn_of_mapM_inDimension htable)
    unfold Operator.inDimension
    split
    case isTrue => exact .ok _
    case isFalse => exact .error (.dimension _ _)

end Expr

namespace Coefficients

variable [One κ] {ε ε' : Type} {S : Fault → Prop}

theorem distribute_mapError (g : ε → ε') {f : Expr κ → Except ε (Expr κ)}
    {f' : Expr κ → Except ε' (Expr κ)} (hf : ∀ e, f' e = (f e).mapError g) (cs : Coefficients)
    (e : Expr κ) : cs.distribute f' e = (cs.distribute f e).mapError g := by
  induction e with
  | leaf l => exact hf _
  | node k args => exact hf _
  | arith op l r hl hr =>
    cases op with
    | add | sub =>
      rw [distribute, distribute, mapError_bind, hl]
      refine bind_congr fun _ => ?_
      rw [mapError_bind, hr]
      rfl
    | mul =>
      rw [distribute, distribute, onOperands, onOperands, split_eq]
      dsimp only
      cases Expr.product? ((Expr.mul l r).factors.filter cs.isCoefficient) <;>
        cases Expr.product? ((Expr.mul l r).factors.filter (! cs.isCoefficient ·)) <;>
          simp only [hf, mapError_bind] <;> rfl

theorem faultsIn_distribute {f : Expr κ → Except Fault (Expr κ)} (hf : ∀ e, FaultsIn S (f e))
    (cs : Coefficients) (e : Expr κ) : FaultsIn S (cs.distribute f e) := by
  induction e with
  | leaf l => exact hf _
  | node k args => exact hf _
  | arith op l r hl hr =>
    cases op with
    | add | sub => exact hl.bind fun _ _ => hr.bind fun _ _ => .ok _
    | mul =>
      rw [distribute, onOperands, split_eq]
      dsimp only
      split
      case h_1 => exact (hf _).bind fun _ _ => .ok _
      case h_2 => exact .ok _
      case h_3 => exact hf _
      case h_4 => exact .ok _

end Coefficients

def Fault.OfIntegrand (f : Fault) : Prop := f.OfResolving ∨ f.OfInference

def Fault.OfNormalizing (f : Fault) : Prop := f.OfIntegrand ∨ f.OfFlattening

namespace Expr

theorem faultsIn_rejectLeaf (e : Expr κ) : FaultsIn Fault.OfInference e.rejectLeaf := by
  unfold rejectLeaf
  split
  case h_1 => exact .error (.leaf _)
  case h_2 => exact .ok _

theorem faultsIn_resolveIn [Zero κ] [One κ] (cs : Coefficients) (d : Nat) (e : Expr κ) :
    FaultsIn Fault.OfResolving (e.resolveIn cs d) :=
  Coefficients.faultsIn_distribute faultsIn_resolveTerm cs e

variable [NumberText κ]

theorem faultsIn_dimension (e : Expr κ) : FaultsIn Fault.OfInference e.dimension := by
  unfold dimension
  split
  case h_1 =>
    split
    case h_1 => exact .ok _
    case h_2 => exact .error (.noFunction _)
  case h_2 => exact .error (.noOperator _)

theorem faultsIn_chain (e : Expr κ) : FaultsIn Fault.OfFlattening e.chain := by
  fun_induction chain e with
  | case1 a e ih => exact ih.bind fun _ _ => .ok _
  | case2 a args => exact .error (.count _ _)
  | case3 e => exact .ok _

theorem faultsIn_flatSymbol (names : BasisNames) (e : Expr κ) :
    FaultsIn Fault.OfFlattening (e.flatSymbol names) := by
  refine e.faultsIn_chain.bind fun p _ => ?_
  obtain ⟨axes, atom⟩ := p
  dsimp only
  split
  case h_5 => exact .error (.atom _)
  all_goals exact .ok _

theorem faultsIn_flatten [BEq κ] (names : BasisNames) (e : Expr κ) :
    FaultsIn Fault.OfFlattening (e.flatten names) :=
  (FaultsIn.mapM fun d _ => (d.faultsIn_flatSymbol names).bind fun _ _ => .ok _).bind
    fun _ _ => .ok _

variable [Zero κ] [One κ]

theorem faultsIn_resolve (cs : Coefficients) (e : Expr κ) :
    FaultsIn Fault.OfIntegrand (e.resolve cs) := by
  refine (e.faultsIn_rejectLeaf.mono fun _ => .inr).bind fun _ _ => ?_
  split
  case isTrue => exact .ok _
  case isFalse =>
    exact (e.faultsIn_dimension.mono fun _ => .inr).bind fun d _ =>
      (e.faultsIn_resolveIn cs d).mono fun _ => .inl

end Expr

theorem faultsIn_ldim [NumberText κ] (ldim? : Option Nat) (e : Expr κ) :
    FaultsIn Fault.OfIntegrand (ldim?.elim e.dimension .ok) := by
  cases ldim? with
  | some d => exact .ok d
  | none => exact e.faultsIn_dimension.mono fun _ => .inr

section Pipeline

variable [Zero κ] [One κ] [NumberText κ]

theorem BilinearForm.faultsIn_resolve (cs : Coefficients) (a : BilinearForm κ) :
    FaultsIn Fault.OfIntegrand (a.resolve cs) :=
  (faultsIn_ldim a.ldim? a.integrand).bind fun d _ =>
    ((a.integrand.faultsIn_resolveIn cs d).mono fun _ => .inl).bind fun _ _ => .ok _

theorem LinearForm.faultsIn_resolve (cs : Coefficients) (l : LinearForm κ) :
    FaultsIn Fault.OfIntegrand (l.resolve cs) :=
  (faultsIn_ldim l.ldim? l.integrand).bind fun d _ =>
    ((l.integrand.faultsIn_resolveIn cs d).mono fun _ => .inl).bind fun _ _ => .ok _

theorem WeakForm.faultsIn_resolve (cs : Coefficients) (w : WeakForm κ) :
    FaultsIn Fault.OfIntegrand (w.resolve cs) := by
  cases w with
  | bilinear a => exact (a.faultsIn_resolve cs).bind fun _ _ => .ok _
  | linear l => exact (l.faultsIn_resolve cs).bind fun _ _ => .ok _
  | raw e => exact (e.faultsIn_resolve cs).bind fun _ _ => .ok _

namespace Normalization

variable [Neg κ] [Add κ] [Sub κ] [Mul κ] [BEq κ] (n : Normalization)

theorem faultsIn_flatten (e : Expr κ) : FaultsIn Fault.OfNormalizing (n.flatten e) :=
  ((e.faultsIn_flatten n.names).mono fun _ => .inr).bind fun _ _ => .ok _

theorem faultsIn_term (e : Expr κ) : FaultsIn Fault.OfNormalizing (n.term e) := by
  unfold term
  split
  case isTrue =>
    exact ((e.faultsIn_resolve n.coefficients).mono fun _ => .inl).bind fun r _ =>
      n.faultsIn_flatten r
  case isFalse => exact n.faultsIn_flatten e

theorem faultsIn_expr (e : Expr κ) : FaultsIn Fault.OfNormalizing (n.expr e) :=
  Coefficients.faultsIn_distribute n.faultsIn_term n.coefficients e

theorem faultsIn_form (w : WeakForm κ) :
    FaultsIn (fun f => f.OfNormalizing ∨ f = .linearNormalization) (n.form w) := by
  cases w with
  | bilinear a =>
    refine ((a.faultsIn_resolve n.coefficients).mono fun _ h => .inl (.inl h)).bind fun r _ => ?_
    exact ((n.faultsIn_flatten r.integrand).mono fun _ => .inl).bind fun _ _ => .ok _
  | linear l => exact .error (.inr rfl)
  | raw e =>
    refine (e.faultsIn_rejectLeaf.mono fun _ h => .inl (.inl (.inr h))).bind fun _ _ => ?_
    exact ((n.faultsIn_expr e).mono fun _ => .inl).bind fun _ _ => .ok _

end Normalization

/-- Read by position, a rule runs past the components only where it reports a missing component, and
never past the operands. In a dimension in which its operator exists it does neither, whatever
operands it is given, and neither does the resolution of any integrand. The resolution and the
normalization of any form give an outcome or a fault of one of the listed causes; a missing component
is none of them. -/
theorem reads_in_bounds [Neg κ] [Add κ] [Sub κ] [Mul κ] [BEq κ] :
    (∀ (o : OperatorAt) (args : List (Expr κ)), o.Agrees (o.applyByPosition args) (o.apply args)) ∧
    (∀ (operator : Operator) (dim : Nat) (o : OperatorAt) (args : List (Expr κ)),
      operator.inDimension dim = .ok o →
        o.applyByPosition args = (o.apply args).mapError .fault ∧
        FaultsIn Fault.OfOperands (o.apply args)) ∧
    (∀ (cs : Coefficients) (dim : Nat) (e : Expr κ),
      cs.distribute (Expr.resolveTermByPosition dim) e = (e.resolveIn cs dim).mapError .fault ∧
        FaultsIn Fault.OfResolving (e.resolveIn cs dim)) ∧
    (∀ (cs : Coefficients) (w : WeakForm κ), FaultsIn Fault.OfIntegrand (w.resolve cs)) ∧
    ∀ (n : Normalization) (w : WeakForm κ),
      FaultsIn (fun f => f.OfNormalizing ∨ f = .linearNormalization) (n.form w) := by
  refine ⟨OperatorAt.agrees_apply, fun operator dim o args ho => ?_, fun cs dim e => ?_, ?_, ?_⟩
  · obtain ⟨hd, rfl⟩ := Operator.inDimension_eq_ok_iff.1 ho
    exact ⟨OperatorAt.applyByPosition_eq hd, OperatorAt.faultsIn_apply hd⟩
  · exact ⟨Coefficients.distribute_mapError Stop.fault Expr.resolveTermByPosition_eq cs e,
      e.faultsIn_resolveIn cs dim⟩
  · exact fun cs w => w.faultsIn_resolve cs
  · exact fun n w => n.faultsIn_form w

end Pipeline

def planeVelocity : Argument := ⟨"v", .test, ⟨"V", 1, 2, .vector 2⟩⟩

theorem reads_in_bounds_planeVelocity :
    Operator.rot.inDimension 2 = .ok ⟨.rot, 2⟩ ∧
      OperatorAt.applyByPosition ⟨.rot, 2⟩ [(.function planeVelocity : Expr Float)] =
        .ok (.sub (.derivative .y [.component planeVelocity 0])
          (.derivative .x [.component planeVelocity 1])) := by
  have ho : Operator.rot.inDimension 2 = .ok ⟨.rot, 2⟩ := rfl
  have happly : OperatorAt.apply ⟨.rot, 2⟩ [(.function planeVelocity : Expr Float)] =
      .ok (.sub (.derivative .y [.component planeVelocity 0])
        (.derivative .x [.component planeVelocity 1])) := rfl
  refine ⟨ho, (reads_in_bounds.2.1 _ _ _ [.function planeVelocity] ho).1.trans ?_⟩
  rw [happly]
  rfl

end VariationalForms
