import VariationalForms.Proofs.Conservation

/-! Exchanging functions before or after resolving.
Whether a rule applies, and what it makes of its operands, depends on how many components a function
has and on nothing else about it. So functions can be exchanged for others with as many components,
several of them for one, and it does not matter whether that comes before resolving or afterwards
(`Expr.resolveIn_mapFunctions`). The faults are the same as well, since none of them names a function.
-/

set_option autoImplicit false

namespace VariationalForms

variable {κ : Type} {σ : Argument → Argument}

namespace Argument

/-- Every function has as many components as what it is exchanged for. -/
def KeepsShapes (σ : Argument → Argument) : Prop :=
  ∀ f, (σ f).space.shape? = f.space.shape?

theorem keepsShapes_renamed {pairs : List (Argument × Argument)}
    (h : ∀ p ∈ pairs, p.2.space.shape? = p.1.space.shape?) : KeepsShapes (renamed pairs) := by
  intro f
  unfold renamed
  cases hf : pairs.lookup f with
  | none => rfl
  | some g =>
    obtain ⟨before, after, rfl, -⟩ := List.lookup_eq_some_iff.1 hf
    exact h (f, g) (by simp)

end Argument

namespace Expr

@[simp] theorem mapFunctions_leaf (l : Leaf κ) :
    (leaf l).mapFunctions σ = leaf (l.mapFunction σ) := rfl

@[simp] theorem mapFunctions_arith (op : Arith) (l r : Expr κ) :
    (arith op l r).mapFunctions σ = arith op (l.mapFunctions σ) (r.mapFunctions σ) := rfl

@[simp] theorem mapFunctions_node (h : Head) (args : List (Expr κ)) :
    (node h args).mapFunctions σ = node h (args.map (mapFunctions σ)) := by
  rw [mapFunctions, fold_node]; rfl

theorem foldl_map_mapFunctions (op : Arith) (es : List (Expr κ)) (e : Expr κ) :
    (es.map (mapFunctions σ)).foldl (arith op) (e.mapFunctions σ) =
      (es.foldl (arith op) e).mapFunctions σ := by
  rw [List.foldl_map]
  exact List.foldl_hom _ fun _ _ => rfl

theorem product?_map_mapFunctions (es : List (Expr κ)) :
    product? (es.map (mapFunctions σ)) = (product? es).map (mapFunctions σ) := by
  cases es with
  | nil => rfl
  | cons e es => exact congrArg some (foldl_map_mapFunctions .mul es e)

theorem sum?_map_mapFunctions (es : List (Expr κ)) :
    sum? (es.map (mapFunctions σ)) = (sum? es).map (mapFunctions σ) := by
  cases es with
  | nil => rfl
  | cons e es => exact congrArg some (foldl_map_mapFunctions .add es e)

theorem factors_mapFunctions (e : Expr κ) :
    (e.mapFunctions σ).factors = e.factors.map (mapFunctions σ) := by
  induction e with
  | leaf l => rfl
  | node h args => simp [factors]
  | arith op l r hl hr =>
    cases op with
    | mul => rw [mapFunctions_arith, factors, factors, hl, hr, List.map_append]
    | _ => rfl

section Nodes

@[simp] theorem generic?_mapFunctions (e : Expr κ) : (e.mapFunctions σ).generic? = e.generic? := by
  cases e with
  | leaf l => rfl
  | arith op l r => rfl
  | node h args => rw [mapFunctions_node]; cases h <;> rfl

theorem nodes_mapFunctions (e : Expr κ) :
    (e.mapFunctions σ).nodes = e.nodes.map (mapFunctions σ) := by
  induction e with
  | leaf l => rfl
  | arith op l r hl hr => simp [nodes, hl, hr]
  | node h args ih =>
    rw [mapFunctions_node, nodes_eq, nodes_eq, children, children, List.map_cons,
      mapFunctions_node, List.flatMap_map, List.map_flatMap]
    exact congrArg _ (List.flatMap_congr fun e he => ih e he)

theorem operators_mapFunctions (e : Expr κ) : (e.mapFunctions σ).operators = e.operators := by
  simp only [operators, preorder_eq_nodes, nodes_mapFunctions, List.filterMap_map,
    Function.comp_def, generic?_mapFunctions]

theorem containsGeneric_mapFunctions (e : Expr κ) :
    (e.mapFunctions σ).containsGeneric = e.containsGeneric := by
  simp only [containsGeneric, preorder_eq_nodes, nodes_mapFunctions, List.any_map,
    Function.comp_def, generic?_mapFunctions]

end Nodes

section Derivative

@[simp] theorem isConstant_mapFunctions (e : Expr κ) :
    (e.mapFunctions σ).isConstant = e.isConstant := by
  cases e with
  | leaf l => cases l <;> rfl
  | arith op l r => rfl
  | node h args => rw [mapFunctions_node]; rfl

def mapPair (σ : Argument → Argument) (f : Expr κ × Expr κ) : Expr κ × Expr κ :=
  (f.1.mapFunctions σ, f.2.mapFunctions σ)

theorem map_fst_mapPair (fs : List (Expr κ × Expr κ)) :
    (fs.map (mapPair σ)).map Prod.fst = (fs.map Prod.fst).map (mapFunctions σ) := by
  rw [List.map_map, List.map_map]; rfl

theorem derivedProducts_map_mapPair (fs : List (Expr κ × Expr κ)) :
    derivedProducts (fs.map (mapPair σ)) =
      (derivedProducts fs).map (List.map (mapFunctions σ)) := by
  induction fs with
  | nil => rfl
  | cons f fs ih =>
    simp only [List.map_cons, derivedProducts, ih, List.map_map]
    rfl

theorem constants_map_mapPair (fs : List (Expr κ × Expr κ)) :
    constants (fs.map (mapPair σ)) = (constants fs).map (mapFunctions σ) := by
  rw [constants, constants, ← map_fst_mapPair, List.filter_map]
  simp only [Function.comp_def, mapPair, isConstant_mapFunctions]

theorem varying_map_mapPair (fs : List (Expr κ × Expr κ)) :
    varying (fs.map (mapPair σ)) = (varying fs).map (mapPair σ) := by
  rw [varying, varying, List.filter_map]
  simp only [Function.comp_def, mapPair, isConstant_mapFunctions]

theorem derivedSum?_map_mapPair (fs : List (Expr κ × Expr κ)) :
    derivedSum? (fs.map (mapPair σ)) = (derivedSum? fs).map (mapFunctions σ) := by
  rw [derivedSum?, derivedSum?, varying_map_mapPair, derivedProducts_map_mapPair,
    ← sum?_map_mapFunctions, List.filterMap_map, List.map_filterMap]
  simp only [Function.comp_def, product?_map_mapFunctions]

variable [Zero κ]

theorem leibniz_map_mapPair (fs : List (Expr κ × Expr κ)) :
    leibniz (fs.map (mapPair σ)) = (leibniz fs).mapFunctions σ := by
  rw [leibniz_eq, leibniz_eq, derivedSum?_map_mapPair, constants_map_mapPair,
    product?_map_mapFunctions]
  cases derivedSum? fs with
  | none => rfl
  | some s => cases product? (constants fs) <;> rfl

theorem derivedFactors_mapFunctions (a : Axis) (e : Expr κ) :
    derivedFactors a (e.mapFunctions σ) = (derivedFactors a e).map (mapPair σ) := by
  induction e with
  | leaf l => rfl
  | arith op l r hl hr =>
    cases op with
    | mul => rw [mapFunctions_arith, derivedFactors, derivedFactors, hl, hr, List.map_append]
    | _ =>
      rw [mapFunctions_arith, derivedFactors, derivedFactors, hl, hr, leibniz_map_mapPair,
        leibniz_map_mapPair]
      rfl
  | node h args ih =>
    cases h with
    | tuple =>
      have hitems : (args.map (mapFunctions σ)).map (derive a) =
          (args.map (derive a)).map (mapFunctions σ) := by
        rw [List.map_map, List.map_map]
        refine List.map_congr_left fun e he => ?_
        rw [Function.comp_apply, derive, ih e he, leibniz_map_mapPair]
        rfl
      rw [mapFunctions_node, derivedFactors, derivedFactors, derivedItems_eq_map,
        derivedItems_eq_map, hitems]
      simp [mapPair]
    | _ => simp [derivedFactors, mapPair]

theorem derive_mapFunctions (a : Axis) (e : Expr κ) :
    derive a (e.mapFunctions σ) = (derive a e).mapFunctions σ := by
  rw [derive, derivedFactors_mapFunctions, leibniz_map_mapPair, derive]

end Derivative

theorem components?_mapFunctions (hσ : Argument.KeepsShapes σ) (e : Expr κ) :
    (e.mapFunctions σ).components? = e.components?.map (List.map (mapFunctions σ)) := by
  cases e with
  | leaf l =>
    cases l with
    | function f =>
      simp only [mapFunctions_leaf, Leaf.mapFunction, components?, Space.isVectorValued,
        Argument.components, hσ f]
      by_cases hv : f.space.shape?.isSome <;> simp [hv, Leaf.mapFunction]
    | _ => rfl
  | arith op l r => rfl
  | node h args => rw [mapFunctions_node]; cases h <;> rfl

end Expr

namespace OperatorAt

open VariationalForms.Expr (mapFunctions components?_mapFunctions derive_mapFunctions
  sum?_map_mapFunctions mapFunctions_node)

variable (hσ : Argument.KeepsShapes σ) (o : OperatorAt)

theorem checkParts_map_mapFunctions (parts : List (Expr κ)) :
    o.checkParts (parts.map (mapFunctions σ)) =
      (o.checkParts parts).map (List.map (mapFunctions σ)) := by
  unfold checkParts
  rw [List.length_map]
  split <;> rfl

theorem mapFunctions_getD_concrete (s : Option (Expr κ)) (args : List (Expr κ)) :
    (s.map (mapFunctions σ)).getD (.concrete o (args.map (mapFunctions σ))) =
      (s.getD (.concrete o args)).mapFunctions σ := by
  cases s with
  | none => exact (mapFunctions_node _ _).symm
  | some s => rfl

section Derivatives

variable [Zero κ]

include hσ

theorem gradient_mapFunctions (u : Expr κ) :
    o.gradient (u.mapFunctions σ) = (o.gradient u).mapFunctions σ := by
  unfold gradient
  rw [components?_mapFunctions hσ]
  cases u.components? with
  | some parts => simp
  | none =>
    simp only [Option.map_none]
    split <;> simp [derive_mapFunctions, Function.comp_def]

theorem divergence_mapFunctions (u : Expr κ) :
    o.divergence (u.mapFunctions σ) = (o.divergence u).map (mapFunctions σ) := by
  unfold divergence
  rw [components?_mapFunctions hσ]
  cases u.components? with
  | none =>
    simp only [Option.map_none]
    split <;> simp [derive_mapFunctions, Except.map]
  | some parts =>
    simp only [Option.map_some, checkParts_map_mapFunctions]
    cases o.checkParts parts with
    | error fault => rfl
    | ok parts =>
      have hderived : List.zipWith Expr.derive (Axis.spanning o.dim) (parts.map (mapFunctions σ)) =
          (List.zipWith Expr.derive (Axis.spanning o.dim) parts).map (mapFunctions σ) := by
        rw [List.map_zipWith, List.zipWith_map_right]
        simp only [derive_mapFunctions]
      change Except.ok _ = Except.ok _
      rw [hderived, sum?_map_mapFunctions]
      exact congrArg Except.ok (o.mapFunctions_getD_concrete _ [u])

theorem rotation_mapFunctions (u : Expr κ) :
    o.rotation (u.mapFunctions σ) = (o.rotation u).map (mapFunctions σ) := by
  unfold rotation
  rw [components?_mapFunctions hσ]
  cases u.components? with
  | none => simp [Except.map]
  | some parts =>
    simp only [Option.map_some, checkParts_map_mapFunctions]
    cases o.checkParts parts with
    | error fault => rfl
    | ok parts =>
      match parts with
      | [] | [_] => rfl
      | u₀ :: u₁ :: rest =>
        change Except.ok (Expr.sub _ _) = _
        rw [derive_mapFunctions, derive_mapFunctions]
        rfl

theorem curl_mapFunctions (u : Expr κ) :
    o.curl (u.mapFunctions σ) = (o.curl u).map (mapFunctions σ) := by
  unfold curl
  rw [components?_mapFunctions hσ]
  cases u.components? with
  | none => simp [Except.map]
  | some parts =>
    simp only [Option.map_some, checkParts_map_mapFunctions]
    cases o.checkParts parts with
    | error fault => rfl
    | ok parts =>
      match parts with
      | [] | [_] | [_, _] => rfl
      | u₀ :: u₁ :: u₂ :: rest =>
        simp [Except.map, bind, Except.bind, pure, Except.pure, derive_mapFunctions]

end Derivatives

section Products

include hσ

theorem innerProduct_mapFunctions (u v : Expr κ) :
    o.innerProduct (u.mapFunctions σ) (v.mapFunctions σ) =
      (o.innerProduct u v).map (mapFunctions σ) := by
  unfold innerProduct
  rw [components?_mapFunctions hσ, components?_mapFunctions hσ]
  cases u.components? <;> cases v.components?
  case none.none => rfl
  case none.some => simp [Except.map]
  case some.none => simp [Except.map]
  case some.some us vs =>
    simp only [Option.map_some, checkParts_map_mapFunctions]
    cases o.checkParts us with
    | error fault => rfl
    | ok us =>
      cases o.checkParts vs with
      | error fault => rfl
      | ok vs =>
        have hproducts : List.zipWith Expr.mul (us.map (mapFunctions σ)) (vs.map (mapFunctions σ)) =
            (List.zipWith Expr.mul us vs).map (mapFunctions σ) := by
          rw [List.map_zipWith, List.zipWith_map]
          rfl
        change Except.ok _ = Except.ok _
        rw [hproducts, sum?_map_mapFunctions]
        exact congrArg Except.ok (o.mapFunctions_getD_concrete _ [u, v])

theorem crossProduct_mapFunctions (u v : Expr κ) :
    o.crossProduct (u.mapFunctions σ) (v.mapFunctions σ) =
      (o.crossProduct u v).map (mapFunctions σ) := by
  unfold crossProduct
  rw [components?_mapFunctions hσ, components?_mapFunctions hσ]
  cases u.components? <;> cases v.components?
  case none.none => simp [Except.map]
  case none.some => simp [Except.map]
  case some.none => simp [Except.map]
  case some.some us vs =>
    simp only [Option.map_some, checkParts_map_mapFunctions]
    cases o.checkParts us with
    | error fault => rfl
    | ok us =>
      cases o.checkParts vs with
      | error fault => rfl
      | ok vs =>
        simp only [Except.map, bind, Except.bind]
        split
        · match us, vs with
          | [], _ | [_], _ | _ :: _ :: _, [] | _ :: _ :: _, [_] | _ :: _ :: _, _ :: _ :: _ => rfl
        · match us, vs with
          | [], _ | [_], _ | [_, _], _ => rfl
          | _ :: _ :: _ :: _, [] | _ :: _ :: _ :: _, [_] | _ :: _ :: _ :: _, [_, _] => rfl
          | _ :: _ :: _ :: _, _ :: _ :: _ :: _ => simp [pure, Except.pure]

end Products

include hσ in
theorem apply_map_mapFunctions [Zero κ] (args : List (Expr κ)) :
    o.apply (args.map (mapFunctions σ)) = (o.apply args).map (mapFunctions σ) := by
  match args with
  | [] => cases h : o.operator <;> simp [apply, h, Except.map]
  | [u] =>
    cases h : o.operator <;>
      simp [apply, h, gradient_mapFunctions hσ, divergence_mapFunctions hσ,
        rotation_mapFunctions hσ, curl_mapFunctions hσ, Except.map]
  | [u, v] =>
    cases h : o.operator <;>
      simp [apply, h, innerProduct_mapFunctions hσ, crossProduct_mapFunctions hσ, Except.map]
  | _ :: _ :: _ :: _ => cases h : o.operator <;> simp [apply, h, Except.map]

end OperatorAt

section Resolve

variable (hσ : Argument.KeepsShapes σ)

namespace Expr

section Expand

variable [Zero κ] (d : Nat)

theorem expandArgs_map_mapFunctions {args : List (Expr κ)}
    (h : ∀ e ∈ args, expand d (e.mapFunctions σ) = (expand d e).map (mapFunctions σ)) :
    expandArgs d (args.map (mapFunctions σ)) =
      (expandArgs d args).map (List.map (mapFunctions σ)) := by
  induction args with
  | nil => rfl
  | cons e es ih =>
    rw [List.map_cons, expandArgs, expandArgs, h e (.head _), ih fun a ha => h a (.tail _ ha)]
    cases expand d e with
    | error fault => rfl
    | ok x => cases expandArgs d es <;> rfl

include hσ

theorem expand_mapFunctions (e : Expr κ) :
    expand d (e.mapFunctions σ) = (expand d e).map (mapFunctions σ) := by
  induction e with
  | leaf l => rfl
  | arith op l r hl hr =>
    rw [mapFunctions_arith, expand, expand, hl, hr]
    cases expand d l with
    | error fault => rfl
    | ok x => cases expand d r <;> rfl
  | node h args ih =>
    have hargs := expandArgs_map_mapFunctions d ih
    have hkeep : (∀ o, h ≠ .generic o) → (∀ a u, h = .derivative a → args ≠ [u]) →
        expand d ((node h args).mapFunctions σ) =
          (expand d (node h args)).map (mapFunctions σ) := by
      intro hg hd
      rw [mapFunctions_node, expand_node hg fun a u ha hu => ?_, expand_node hg hd, hargs]
      · cases expandArgs d args with
        | error fault => rfl
        | ok rs => exact congrArg Except.ok (mapFunctions_node h rs).symm
      · obtain ⟨u, rfl, -⟩ := List.map_eq_singleton_iff.1 hu
        exact hd a u ha rfl
    cases h with
    | generic o =>
      rw [mapFunctions_node, expand, expand, hargs]
      cases expandArgs d args with
      | error fault => rfl
      | ok rs => exact OperatorAt.apply_map_mapFunctions hσ ⟨o, d⟩ rs
    | derivative a =>
      rcases args with _ | ⟨u, _ | ⟨v, rest⟩⟩
      · exact hkeep (by simp) (by simp)
      · rw [mapFunctions_node, List.map_singleton, expand, expand, ih u (.head _),
          containsGeneric_mapFunctions]
        cases expand d u with
        | error fault => rfl
        | ok v =>
          cases u.containsGeneric
          · exact congrArg Except.ok (mapFunctions_node _ [v]).symm
          · exact congrArg Except.ok (derive_mapFunctions a v)
      · exact hkeep (by simp) (by simp)
    | _ => exact hkeep (by simp) (by simp)

theorem resolveTerm_mapFunctions (e : Expr κ) :
    resolveTerm d (e.mapFunctions σ) = (resolveTerm d e).map (mapFunctions σ) := by
  rw [resolveTerm_eq, resolveTerm_eq, operators_mapFunctions, expand_mapFunctions hσ]
  cases e.operators.mapM fun o => o.inDimension d <;> rfl

end Expand

end Expr

namespace Coefficients

open VariationalForms.Expr (mapFunctions factors_mapFunctions product?_map_mapFunctions
  mapFunctions_node)

variable (cs : Coefficients)

theorem isCoefficient_mapFunctions (e : Expr κ) :
    cs.isCoefficient (e.mapFunctions σ) = cs.isCoefficient e := by
  have hkind : CoefficientKind.of? (e.mapFunctions σ) = CoefficientKind.of? e := by
    cases e with
    | leaf l => cases l <;> rfl
    | arith op l r => rfl
    | node h args => rw [mapFunctions_node]; rfl
  rw [isCoefficient, hkind, isCoefficient]

theorem split_map_mapFunctions (es : List (Expr κ)) :
    cs.split (es.map (mapFunctions σ)) =
      ((cs.split es).1.map (mapFunctions σ), (cs.split es).2.map (mapFunctions σ)) := by
  simp only [split_eq, List.filter_map, Function.comp_def, isCoefficient_mapFunctions]

theorem distribute_mapFunctions [One κ] {f : Expr κ → Except Fault (Expr κ)}
    (hf : ∀ e, f (e.mapFunctions σ) = (f e).map (mapFunctions σ)) (e : Expr κ) :
    cs.distribute f (e.mapFunctions σ) = (cs.distribute f e).map (mapFunctions σ) := by
  induction e with
  | leaf l => exact hf (.leaf l)
  | node h args =>
    have hnode := hf (.node h args)
    rw [mapFunctions_node] at hnode ⊢
    exact hnode
  | arith op l r hl hr =>
    cases op with
    | mul =>
      change cs.onOperands f ((Expr.mul l r).mapFunctions σ) = (cs.onOperands f (.mul l r)).map _
      rw [onOperands, onOperands, factors_mapFunctions, split_map_mapFunctions]
      simp only [product?_map_mapFunctions]
      cases Expr.product? (cs.split (Expr.mul l r).factors).1 <;>
        cases Expr.product? (cs.split (Expr.mul l r).factors).2
      case none.none => rfl
      case none.some o => exact hf o
      case some.none => rfl
      case some.some c o =>
        simp only [Option.map_some, hf]
        cases f o <;> rfl
    | _ =>
      rw [Expr.mapFunctions_arith, distribute, distribute, hl, hr]
      cases cs.distribute f l with
      | error fault => rfl
      | ok x => cases cs.distribute f r <;> rfl

end Coefficients

include hσ in
theorem Expr.resolveIn_mapFunctions [Zero κ] [One κ] (cs : Coefficients) (d : Nat) (e : Expr κ) :
    (e.mapFunctions σ).resolveIn cs d = (e.resolveIn cs d).map (mapFunctions σ) :=
  cs.distribute_mapFunctions (resolveTerm_mapFunctions hσ d) e

end Resolve

namespace BilinearForm

variable {a b : BilinearForm κ} {pairs : List (Argument × Argument)}

theorem rebind_eq_ok (h : a.rebind pairs = .ok b) (x : Expr κ) :
    b = a.withIntegrand (a.integrand.rename pairs) ∧
      (a.withIntegrand x).rebind pairs = .ok (a.withIntegrand (x.rename pairs)) := by
  unfold rebind at h
  split at h
  case h_1 => cases h
  case h_2 hroles =>
    cases h
    refine ⟨rfl, ?_⟩
    rw [rebind, hroles]
    rfl

theorem rebind_eq_error {fault : Fault} (h : a.rebind pairs = .error fault) (x : Expr κ) :
    (a.withIntegrand x).rebind pairs = .error fault := by
  unfold rebind at h
  split at h
  case h_1 old new hroles =>
    cases h
    rw [rebind, hroles]
  case h_2 => cases h

variable [Zero κ] [One κ] [NumberText κ] {cs : Coefficients} {d : Nat}

theorem resolve_eq_map (hd : a.ldim? = some d) :
    a.resolve cs = (a.integrand.resolveIn cs d).map a.withIntegrand := by
  rw [resolve, dimension, hd]
  change (a.integrand.resolveIn cs d >>= fun x => .ok (a.withIntegrand x)) = _
  cases a.integrand.resolveIn cs d <;> rfl

theorem resolve_rename (cs : Coefficients) (hd : a.ldim?.isSome)
    (hpairs : ∀ p ∈ pairs, p.2.space.shape? = p.1.space.shape?) :
    (a.withIntegrand (a.integrand.rename pairs)).resolve cs =
      (a.resolve cs).map fun c => c.withIntegrand (c.integrand.rename pairs) := by
  obtain ⟨d, hd⟩ := Option.isSome_iff_exists.1 hd
  have hrenamed : (a.withIntegrand (a.integrand.rename pairs)).ldim? = some d := hd
  rw [resolve_eq_map hd, resolve_eq_map hrenamed]
  change ((a.integrand.mapFunctions _).resolveIn cs d).map _ = _
  rw [Expr.resolveIn_mapFunctions (Argument.keepsShapes_renamed hpairs)]
  cases a.integrand.resolveIn cs d <;> rfl

end BilinearForm

section Exchange

variable [Zero κ] [One κ] [NumberText κ]

/-- Functions are exchanged for others with as many components before resolving or afterwards, with
one outcome or one fault. A form that declares a space is rebound or applied to other functions
before it is resolved or afterwards. -/
theorem resolve_exchange (cs : Coefficients) {pairs : List (Argument × Argument)}
    (hpairs : ∀ p ∈ pairs, p.2.space.shape? = p.1.space.shape?) :
    (∀ d (e : Expr κ),
      (e.rename pairs).resolveIn cs d = (e.resolveIn cs d).map (Expr.rename pairs)) ∧
    ∀ a : BilinearForm κ, a.ldim?.isSome →
      (∀ b, a.rebind pairs = .ok b →
        b.resolve cs = a.resolve cs >>= fun c => c.rebind pairs) ∧
      (∀ fault, a.rebind pairs = .error fault →
        ∀ c, a.resolve cs = .ok c → c.rebind pairs = .error fault) ∧
      ∀ tests trials b, a.placements tests trials = .ok pairs → a.apply tests trials = .ok b →
        (b.resolve cs = (a.resolve cs).map fun c => c.withIntegrand (c.integrand.rename pairs)) ∧
        (a.integrand.SerialsIdentify →
          b.resolve cs = a.resolve cs >>= fun c => c.apply tests trials) := by
  refine ⟨fun d e => ?_, fun a hd => ⟨fun b hb => ?_, fun fault hfault c hc => ?_, ?_⟩⟩
  · exact Expr.resolveIn_mapFunctions (Argument.keepsShapes_renamed hpairs) cs d e
  · obtain ⟨rfl, -⟩ := BilinearForm.rebind_eq_ok hb a.integrand
    rw [BilinearForm.resolve_rename cs hd hpairs]
    cases hc : a.resolve cs with
    | error fault => rfl
    | ok c =>
      obtain ⟨d, x, -, rfl⟩ := BilinearForm.resolve_eq_ok hc
      exact (BilinearForm.rebind_eq_ok hb x).2.symm
  · obtain ⟨d, x, -, rfl⟩ := BilinearForm.resolve_eq_ok hc
    exact BilinearForm.rebind_eq_error hfault x
  · intro tests trials b hplaced hb
    rw [BilinearForm.apply_eq_map, hplaced] at hb
    cases hb
    have hrename := BilinearForm.resolve_rename cs hd hpairs
    refine ⟨hrename, fun hserials => ?_⟩
    rw [hrename]
    cases hc : a.resolve cs with
    | error fault => rfl
    | ok c =>
      change _ = c.apply tests trials
      rw [BilinearForm.apply_eq_map, BilinearForm.placements_resolve hc hserials, hplaced]
      rfl

end Exchange

section Swirl

def swirlSpace : Space := ⟨"V", 0, 2, .vector 2⟩

def swirlTrial : Argument := ⟨"u", .trial, swirlSpace⟩

def blockTest : Argument := ⟨"z", .test, ⟨"B", 1, 2, .block 2⟩⟩

def swirl : BilinearForm Float where
  integrand :=
    .add (.generic .inner [.function swirlTrial, .function ⟨"v", .test, swirlSpace⟩])
      (.mul (.generic .rot [.function ⟨"w", .test, swirlSpace⟩])
        (.generic .div [.function swirlTrial]))
  spaces := ⟨some swirlSpace, some swirlSpace, by simp⟩

def resolvedSwirl : BilinearForm Float :=
  swirl.withIntegrand
    (.add
      (.add (.mul (.component swirlTrial 0) (.component ⟨"v", .test, swirlSpace⟩ 0))
        (.mul (.component swirlTrial 1) (.component ⟨"v", .test, swirlSpace⟩ 1)))
      (.mul
        (.sub (.derivative .y [.component ⟨"w", .test, swirlSpace⟩ 0])
          (.derivative .x [.component ⟨"w", .test, swirlSpace⟩ 1]))
        (.add (.derivative .x [.component swirlTrial 0])
          (.derivative .y [.component swirlTrial 1]))))

def swirlPairs : List (Argument × Argument) :=
  [(⟨"v", .test, swirlSpace⟩, blockTest), (⟨"w", .test, swirlSpace⟩, blockTest),
    (swirlTrial, swirlTrial)]

theorem resolve_exchange_swirl :
    (∀ p ∈ swirlPairs, p.2.space.shape? = p.1.space.shape?) ∧ swirl.ldim?.isSome ∧
      swirl.placements [blockTest, blockTest] [swirlTrial] = .ok swirlPairs ∧
      swirl.integrand.SerialsIdentify ∧ swirl.resolve .standard = .ok resolvedSwirl ∧
      (swirl.withIntegrand (swirl.integrand.rename swirlPairs)).resolve .standard =
        resolvedSwirl.apply [blockTest, blockTest] [swirlTrial] := by
  have hpairs : ∀ p ∈ swirlPairs, p.2.space.shape? = p.1.space.shape? := by
    simp [swirlPairs, blockTest, swirlSpace, Space.shape?, Values.size?]
  have hfunctions : swirl.integrand.functions =
      [swirlTrial, ⟨"v", .test, swirlSpace⟩, ⟨"w", .test, swirlSpace⟩] := by
    with_unfolding_all rfl
  have htests : swirl.testFunctions =
      [⟨"v", .test, swirlSpace⟩, ⟨"w", .test, swirlSpace⟩] := by
    rw [BilinearForm.testFunctions, Expr.functionsOf, hfunctions]
    exact List.mergeSort_of_pairwise (by decide)
  have hplaced : swirl.placements [blockTest, blockTest] [swirlTrial] = .ok swirlPairs := by
    rw [BilinearForm.placements, htests]
    with_unfolding_all rfl
  have happly : swirl.apply [blockTest, blockTest] [swirlTrial] =
      .ok (swirl.withIntegrand (swirl.integrand.rename swirlPairs)) := by
    rw [BilinearForm.apply_eq_map, hplaced]; rfl
  have hserials : swirl.integrand.SerialsIdentify := by
    simp [Expr.SerialsIdentify, hfunctions, swirlTrial]
  have hresolved : swirl.resolve .standard = .ok resolvedSwirl := by with_unfolding_all rfl
  have hexchange :=
    (((resolve_exchange .standard hpairs).2 swirl rfl).2.2 _ _ _ hplaced happly).2 hserials
  rw [hresolved] at hexchange
  exact ⟨hpairs, rfl, hplaced, hserials, hresolved, hexchange⟩

end Swirl

end VariationalForms
