import Mathlib.Data.List.Forall2
import VariationalForms.Proofs.Nodes
import VariationalForms.Resolution

/-! What resolving does, case by case.
The table of a term has a rule for every operator in it (`Expr.resolveTerm_eq`), so that an
expansion in a dimension looks nothing up. It succeeds when it does for all operands and the rule
of the operator has an outcome (`Expr.expand_induct`); a distribution sees the terms of sums and
the operands of products.
-/

set_option autoImplicit false

namespace VariationalForms

universe u

variable {κ : Type}

theorem forall₂_of_mem {α β : Type} {P Q : α → β → Prop} {xs : List α} {ys : List β}
    (h : List.Forall₂ P xs ys) (hPQ : ∀ x ∈ xs, ∀ y, P x y → Q x y) : List.Forall₂ Q xs ys := by
  induction h with
  | nil => exact .nil
  | cons hxy _ ih =>
    exact .cons (hPQ _ (.head _) _ hxy) (ih fun x hx => hPQ x (.tail _ hx))

theorem exists_forall₂ {α β : Type} {P : α → β → Prop} {xs : List α} (h : ∀ x ∈ xs, ∃ y, P x y) :
    ∃ ys, List.Forall₂ P xs ys := by
  induction xs with
  | nil => exact ⟨[], .nil⟩
  | cons x xs ih =>
    obtain ⟨y, hy⟩ := h x (.head _)
    obtain ⟨ys, hys⟩ := ih fun x' hx' => h x' (.tail _ hx')
    exact ⟨y :: ys, .cons hy hys⟩

theorem exists_zip_of_mem {α β : Type} {P : α → β → Prop} {xs : List α} {ys : List β}
    (h : List.Forall₂ P xs ys) {x : α} (hx : x ∈ xs) : ∃ y, (x, y) ∈ xs.zip ys ∧ P x y := by
  induction h with
  | nil => cases hx
  | cons hxy _ ih =>
    cases hx with
    | head => exact ⟨_, .head _, hxy⟩
    | tail _ hx =>
      obtain ⟨y, hy, h⟩ := ih hx
      exact ⟨y, .tail _ hy, h⟩

theorem exists_of_mem_left {α β : Type} {P : α → β → Prop} {xs : List α} {ys : List β}
    (h : List.Forall₂ P xs ys) {x : α} (hx : x ∈ xs) : ∃ y ∈ ys, P x y := by
  obtain ⟨y, hy, hxy⟩ := exists_zip_of_mem h hx
  exact ⟨y, (List.of_mem_zip hy).2, hxy⟩

theorem exists_of_mem_right {α β : Type} {P : α → β → Prop} {xs : List α} {ys : List β}
    (h : List.Forall₂ P xs ys) {y : β} (hy : y ∈ ys) : ∃ x ∈ xs, P x y :=
  exists_of_mem_left h.flip hy

theorem forall_mem_of_forall₂ {α β : Type} {P : α → Prop} {Q : β → Prop} {xs : List α} {ys : List β}
    (h : List.Forall₂ (fun x y => P x → Q y) xs ys) (hxs : ∀ x ∈ xs, P x) : ∀ y ∈ ys, Q y := by
  intro y hy
  obtain ⟨x, -, hx⟩ := exists_of_mem_right (forall₂_of_mem h fun x hx _ hxy => hxy (hxs x hx)) hy
  exact hx

theorem forall_mem_zipWith {α β γ : Type} {f : α → β → γ} {P : γ → Prop} {xs : List α} {ys : List β}
    (h : ∀ x ∈ xs, ∀ y ∈ ys, P (f x y)) : ∀ z ∈ List.zipWith f xs ys, P z := by
  intro z hz
  obtain ⟨i, hi, rfl⟩ := List.mem_iff_getElem.1 hz
  rw [List.getElem_zipWith]
  exact h _ (List.getElem_mem _) _ (List.getElem_mem _)

theorem exists_mem_zipWith_left {α β γ : Type} (f : α → β → γ) {xs : List α} {ys : List β}
    (hlen : xs.length ≤ ys.length) {x : α} (hx : x ∈ xs) : ∃ y, f x y ∈ List.zipWith f xs ys := by
  obtain ⟨i, hi, rfl⟩ := List.mem_iff_getElem.1 hx
  refine ⟨ys[i], List.mem_iff_getElem.2 ⟨i, ?_, List.getElem_zipWith⟩⟩
  rw [List.length_zipWith]
  omega

theorem exists_mem_zipWith_right {α β γ : Type} (f : α → β → γ) {xs : List α} {ys : List β}
    (hlen : ys.length ≤ xs.length) {y : β} (hy : y ∈ ys) : ∃ x, f x y ∈ List.zipWith f xs ys := by
  obtain ⟨i, hi, rfl⟩ := List.mem_iff_getElem.1 hy
  refine ⟨xs[i], List.mem_iff_getElem.2 ⟨i, ?_, List.getElem_zipWith⟩⟩
  rw [List.length_zipWith]
  omega

theorem map_eq_map_of_forall₂ {α β : Type} {γ : Type u} {f : α → γ} {g : β → γ} {xs : List α}
    {ys : List β} (h : List.Forall₂ (fun x y => g y = f x) xs ys) : ys.map g = xs.map f := by
  induction h with
  | nil => rfl
  | cons hxy _ ih => rw [List.map_cons, List.map_cons, hxy, ih]

theorem Operator.inDimension_eq_ok_iff {o : Operator} {d : Nat} {p : OperatorAt} :
    o.inDimension d = .ok p ↔ o.existsIn d ∧ p = ⟨o, d⟩ := by
  unfold inDimension
  split
  case isTrue h =>
    rw [Except.ok.injEq]
    exact ⟨fun hp => ⟨h, hp.symm⟩, fun hp => hp.2.symm⟩
  case isFalse h => exact ⟨nofun, fun hp => absurd hp.1 h⟩

theorem mapM_eq_ok_iff {ε α β : Type} {f : α → Except ε β} {xs : List α} {ys : List β} :
    xs.mapM f = .ok ys ↔ List.Forall₂ (fun x y => f x = .ok y) xs ys := by
  induction xs generalizing ys with
  | nil => cases ys <;> simp
  | cons x xs ih =>
    simp only [List.mapM_cons, bind_eq_ok_iff, pure_eq_ok_iff, List.forall₂_cons_left_iff, ih]
    constructor
    · rintro ⟨y, hy, ys, hys, rfl⟩
      exact ⟨y, ys, hy, hys, rfl⟩
    · rintro ⟨y, ys, hy, hys, rfl⟩
      exact ⟨y, hy, ys, hys, rfl⟩

namespace Expr

section Expand

variable [Zero κ] {d : Nat}

mutual

/-- Replaces every generic operator by its rule in the dimension, whether it exists there or not. -/
def expand (dim : Nat) : Expr κ → Except Fault (Expr κ)
  | .leaf l => .ok (.leaf l)
  | .arith op l r => do return .arith op (← expand dim l) (← expand dim r)
  | .derivative a [u] => do
    let v ← expand dim u
    return if u.containsGeneric then derive a v else .derivative a [v]
  | .generic o args => do OperatorAt.apply ⟨o, dim⟩ (← expandArgs dim args)
  | .node h args => do return .node h (← expandArgs dim args)

def expandArgs (dim : Nat) : List (Expr κ) → Except Fault (List (Expr κ))
  | [] => .ok []
  | e :: es => do return (← expand dim e) :: (← expandArgs dim es)

end

theorem expandArgs_eq_ok_iff {es rs : List (Expr κ)} :
    expandArgs d es = .ok rs ↔ List.Forall₂ (fun e r => expand d e = .ok r) es rs := by
  induction es generalizing rs with
  | nil => cases rs <;> simp [expandArgs]
  | cons e es ih =>
    simp only [expandArgs, bind_eq_ok_iff, pure_eq_ok_iff, List.forall₂_cons_left_iff, ih]
    constructor
    · rintro ⟨r, hr, rs, hrs, rfl⟩
      exact ⟨r, rs, hr, hrs, rfl⟩
    · rintro ⟨r, rs, hr, hrs, rfl⟩
      exact ⟨r, hr, rs, hrs, rfl⟩

theorem expand_arith_eq_ok_iff {op : Arith} {l r x : Expr κ} :
    expand d (.arith op l r) = .ok x ↔
      ∃ l' r', expand d l = .ok l' ∧ expand d r = .ok r' ∧ .arith op l' r' = x := by
  simp only [expand, bind_eq_ok_iff, pure_eq_ok_iff, exists_and_left]

theorem expand_generic_eq_ok_iff {o : Operator} {args : List (Expr κ)} {x : Expr κ} :
    expand d (.generic o args) = .ok x ↔
      ∃ rs, List.Forall₂ (fun e r => expand d e = .ok r) args rs ∧
        OperatorAt.apply ⟨o, d⟩ rs = .ok x := by
  simp only [expand, bind_eq_ok_iff, expandArgs_eq_ok_iff]

theorem expand_derivative_eq_ok_iff {a : Axis} {u x : Expr κ} :
    expand d (.derivative a [u]) = .ok x ↔
      ∃ v, expand d u = .ok v ∧
        (if u.containsGeneric then derive a v else .derivative a [v]) = x := by
  simp only [expand, bind_eq_ok_iff, pure_eq_ok_iff]

theorem expand_node {h : Head} {args : List (Expr κ)} (hg : ∀ o, h ≠ .generic o)
    (hd : ∀ a u, h = .derivative a → args ≠ [u]) :
    expand d (.node h args) = (do return .node h (← expandArgs d args)) := by
  cases h with
  | generic o => exact absurd rfl (hg o)
  | derivative a =>
    match args with
    | [u] => exact absurd rfl (hd a u rfl)
    | [] | _ :: _ :: _ => rfl
  | _ => rfl

theorem expand_node_eq_ok_iff {h : Head} {args : List (Expr κ)} {x : Expr κ}
    (hg : ∀ o, h ≠ .generic o) (hd : ∀ a u, h = .derivative a → args ≠ [u]) :
    expand d (.node h args) = .ok x ↔
      ∃ rs, List.Forall₂ (fun e r => expand d e = .ok r) args rs ∧ .node h rs = x := by
  rw [expand_node hg hd]
  simp only [bind_eq_ok_iff, pure_eq_ok_iff, expandArgs_eq_ok_iff]

/-- What is kept by every case of the expansion holds between an integrand and what it is expanded
to. -/
theorem expand_induct {P : Expr κ → Expr κ → Prop} (leaf : ∀ l, P (.leaf l) (.leaf l))
    (arith : ∀ op l r l' r', expand d l = .ok l' → expand d r = .ok r' → P l l' → P r r' →
      P (.arith op l r) (.arith op l' r'))
    (derived : ∀ a u v, u.containsGeneric → expand d u = .ok v → P u v →
      P (.derivative a [u]) (derive a v))
    (generic : ∀ o args rs x, List.Forall₂ (fun e r => expand d e = .ok r ∧ P e r) args rs →
      OperatorAt.apply ⟨o, d⟩ rs = .ok x → P (.generic o args) x)
    (node : ∀ h args rs, (∀ o, h ≠ .generic o) →
      (∀ a u, h = .derivative a → args = [u] → u.containsGeneric = false) →
      List.Forall₂ (fun e r => expand d e = .ok r ∧ P e r) args rs → P (.node h args) (.node h rs))
    {e x : Expr κ} (h : expand d e = .ok x) : P e x := by
  induction e generalizing x with
  | leaf l => cases h; exact leaf l
  | arith op l r hl hr =>
    obtain ⟨l', r', hl', hr', rfl⟩ := expand_arith_eq_ok_iff.1 h
    exact arith op l r l' r' hl' hr' (hl hl') (hr hr')
  | node k args ih =>
    by_cases hg : ∃ o, k = .generic o
    · obtain ⟨o, rfl⟩ := hg
      obtain ⟨rs, hrs, hx⟩ := expand_generic_eq_ok_iff.1 h
      exact generic o args rs x (forall₂_of_mem hrs fun e he r hr => ⟨hr, ih e he hr⟩) hx
    · have hg : ∀ o, k ≠ .generic o := fun o ho => hg ⟨o, ho⟩
      by_cases hd : ∃ a u, k = .derivative a ∧ args = [u]
      · obtain ⟨a, u, rfl, rfl⟩ := hd
        obtain ⟨v, hv, rfl⟩ := expand_derivative_eq_ok_iff.1 h
        have huv : P u v := ih u (.head _) hv
        cases hu : u.containsGeneric with
        | true => exact derived a u v hu hv huv
        | false =>
          refine node _ [u] [v] hg (fun a' u' _ hargs => ?_) (.cons ⟨hv, huv⟩ .nil)
          cases hargs
          exact hu
      · have hd : ∀ a u, k = .derivative a → args ≠ [u] := fun a u ha hu => hd ⟨a, u, ha, hu⟩
        obtain ⟨rs, hrs, rfl⟩ := (expand_node_eq_ok_iff hg hd).1 h
        exact node k args rs hg (fun a u ha hu => absurd hu (hd a u ha))
          (forall₂_of_mem hrs fun e he r hr => ⟨hr, ih e he hr⟩)

omit [Zero κ] in
theorem containsGeneric_eq_false_iff_nodes {e : Expr κ} :
    e.containsGeneric = false ↔ ∀ n ∈ e.nodes, n.generic? = none := by
  simp [containsGeneric, preorder_eq_nodes]

theorem expand_of_not_containsGeneric {e : Expr κ} (he : e.containsGeneric = false) :
    expand d e = .ok e := by
  rw [containsGeneric_eq_false_iff_nodes] at he
  induction e with
  | leaf l => rfl
  | arith op l r hl hr =>
    obtain ⟨-, hargs⟩ := forall_mem_nodes.1 he
    exact expand_arith_eq_ok_iff.2
      ⟨l, r, hl (hargs l (.head _)), hr (hargs r (.tail _ (.head _))), rfl⟩
  | node h args ih =>
    obtain ⟨hroot, hargs⟩ := forall_mem_nodes.1 he
    have hg : ∀ o, h ≠ .generic o := by
      rintro o rfl
      cases hroot
    by_cases hd : ∃ a u, h = .derivative a ∧ args = [u]
    · obtain ⟨a, u, rfl, rfl⟩ := hd
      have hu := hargs u (.head _)
      refine expand_derivative_eq_ok_iff.2 ⟨u, ih u (.head _) hu, ?_⟩
      rw [containsGeneric_eq_false_iff_nodes.2 hu]
      rfl
    · have hd : ∀ a u, h = .derivative a → args ≠ [u] := fun a u ha hu => hd ⟨a, u, ha, hu⟩
      refine (expand_node_eq_ok_iff hg hd).2 ⟨args, List.forall₂_same.2 fun e he => ?_, rfl⟩
      exact ih e he (hargs e he)

omit [Zero κ] in
theorem mem_operators {e : Expr κ} {o : Operator} :
    o ∈ e.operators ↔ ∃ args, .generic o args ∈ e.nodes := by
  rw [operators, List.mem_eraseDups, List.mem_filterMap, preorder_eq_nodes]
  constructor
  · rintro ⟨n, hn, ho⟩
    unfold generic? at ho
    split at ho
    · cases ho; exact ⟨_, hn⟩
    · cases ho
  · rintro ⟨args, hn⟩
    exact ⟨_, hn, rfl⟩

omit [Zero κ] in
theorem operators_eq_nil_iff {e : Expr κ} : e.operators = [] ↔ e.containsGeneric = false := by
  rw [containsGeneric_eq_false_iff_nodes, List.eq_nil_iff_forall_not_mem]
  constructor
  · intro h n hn
    unfold generic?
    split
    case h_1 o args => exact absurd (mem_operators.2 ⟨args, hn⟩) (h o)
    case h_2 => rfl
  · intro h o ho
    obtain ⟨args, hn⟩ := mem_operators.1 ho
    cases h _ hn

theorem expandArgsBy_eq {table : List OperatorAt} {args : List (Expr κ)}
    (h : ∀ e ∈ args, expandBy table e = expand d e) :
    expandArgsBy table args = expandArgs d args := by
  induction args with
  | nil => rfl
  | cons e es ih =>
    rw [expandArgsBy, expandArgs, h e (.head _), ih fun e' he' => h e' (.tail _ he')]

theorem expandBy_eq {table : List OperatorAt} {e : Expr κ}
    (h : ∀ o ∈ e.operators, table.find? (·.operator == o) = some ⟨o, d⟩) :
    expandBy table e = expand d e := by
  simp only [mem_operators, forall_exists_index] at h
  induction e with
  | leaf l => rfl
  | arith op l r hl hr =>
    rw [expandBy, expand,
      hl fun o args hn => h o args (mem_nodes_of_mem_children (.head _) hn),
      hr fun o args hn => h o args (mem_nodes_of_mem_children (.tail _ (.head _)) hn)]
  | node k args ih =>
    have hargs : ∀ e ∈ args, expandBy table e = expand d e := fun e he =>
      ih e he fun o args hn => h o args (mem_nodes_of_mem_children he hn)
    have hrest : expandArgsBy table args = expandArgs d args := expandArgsBy_eq hargs
    have hkeep : (do return .node k (← expandArgsBy table args) : Except Fault (Expr κ)) =
        do return .node k (← expandArgs d args) := by rw [hrest]
    cases k with
    | generic o =>
      rw [expandBy, expand, hrest]
      simp only [h o args (self_mem_nodes _)]
    | derivative a =>
      rcases args with _ | ⟨u, _ | ⟨v, rest⟩⟩
      · exact hkeep
      · rw [expandBy, expand, hargs u (.head _)]
      · exact hkeep
    | tuple => exact hkeep
    | concrete o => exact hkeep

theorem find?_of_mem_operators {os : List Operator} {table : List OperatorAt}
    (h : (os.mapM fun o => o.inDimension d) = .ok table) {o : Operator} (ho : o ∈ os) :
    table.find? (·.operator == o) = some ⟨o, d⟩ := by
  have hall := mapM_eq_ok_iff.1 h
  cases hfind : table.find? (·.operator == o) with
  | none =>
    obtain ⟨p, hp, hop⟩ := exists_of_mem_left hall ho
    obtain ⟨-, rfl⟩ := Operator.inDimension_eq_ok_iff.1 hop
    exact absurd (beq_self_eq_true o) (List.find?_eq_none.1 hfind _ hp)
  | some p =>
    have hname := List.find?_some hfind
    obtain ⟨o', -, hop⟩ := exists_of_mem_right hall (List.mem_of_find?_eq_some hfind)
    obtain ⟨-, rfl⟩ := Operator.inDimension_eq_ok_iff.1 hop
    rw [← beq_iff_eq.1 hname]

/-- The table that resolves a term serves only to refuse operators: it has all that are there. -/
theorem resolveTerm_eq (e : Expr κ) :
    resolveTerm d e = (do
      let _ ← e.operators.mapM fun o => o.inDimension d
      expand d e) := by
  unfold resolveTerm
  split
  case isTrue h =>
    rw [List.isEmpty_iff] at h
    rw [h, expand_of_not_containsGeneric (operators_eq_nil_iff.1 h)]
    rfl
  case isFalse h =>
    cases htable : e.operators.mapM fun o => o.inDimension d with
    | error f => rfl
    | ok table => exact expandBy_eq fun o ho => find?_of_mem_operators htable ho

theorem resolveTerm_eq_ok_iff {e x : Expr κ} :
    resolveTerm d e = .ok x ↔ (∀ o ∈ e.operators, o.existsIn d) ∧ expand d e = .ok x := by
  simp only [resolveTerm_eq, bind_eq_ok_iff, mapM_eq_ok_iff]
  refine ⟨fun ⟨os, hos, hx⟩ => ⟨fun o ho => ?_, hx⟩, fun ⟨ho, hx⟩ => ?_⟩
  · obtain ⟨k, -, hk⟩ := exists_of_mem_left hos ho
    exact (Operator.inDimension_eq_ok_iff.1 hk).1
  · obtain ⟨os, hos⟩ := exists_forall₂ (P := fun o k => Operator.inDimension o d = .ok k)
      fun o h => ⟨⟨o, d⟩, Operator.inDimension_eq_ok_iff.2 ⟨ho o h, rfl⟩⟩
    exact ⟨os, hos, hx⟩

end Expand

end Expr

namespace Coefficients

variable [One κ] {ε : Type} {cs : Coefficients} {f : Expr κ → Except ε (Expr κ)}

omit [One κ] in
theorem operands_ne_nil {e : Expr κ} (h : e.factors.filter cs.isCoefficient = []) :
    e.factors.filter (! cs.isCoefficient ·) ≠ [] := by
  intro ho
  obtain ⟨f, hf⟩ := List.exists_mem_of_ne_nil _ e.factors_ne_nil
  have hnot := List.filter_eq_nil_iff.1 h f hf
  have hyes := List.filter_eq_nil_iff.1 ho f hf
  simp_all

theorem onOperands_eq_ok_iff {e x : Expr κ} :
    cs.onOperands f e = .ok x ↔
      (∃ c o y, Expr.product? (e.factors.filter cs.isCoefficient) = some c ∧
        Expr.product? (e.factors.filter (! cs.isCoefficient ·)) = some o ∧ f o = .ok y ∧
        .mul c y = x) ∨
      (e.factors.filter (! cs.isCoefficient ·) = [] ∧
        Expr.product? (e.factors.filter cs.isCoefficient) = some x) ∨
      e.factors.filter cs.isCoefficient = [] ∧
        ∃ o, Expr.product? (e.factors.filter (! cs.isCoefficient ·)) = some o ∧ f o = .ok x := by
  simp only [← Expr.product?_eq_none_iff]
  unfold onOperands
  rw [split_eq]
  cases hc : Expr.product? (e.factors.filter cs.isCoefficient) with
  | none =>
    cases ho : Expr.product? (e.factors.filter (! cs.isCoefficient ·)) with
    | none =>
      exact absurd (Expr.product?_eq_none_iff.1 ho)
        (operands_ne_nil (Expr.product?_eq_none_iff.1 hc))
    | some o => simp [hc, ho]
  | some c =>
    cases ho : Expr.product? (e.factors.filter (! cs.isCoefficient ·)) <;>
      simp [hc, ho, bind_eq_ok_iff, -bind_pure_comp]

theorem distribute_arith_eq_ok_iff {op : Arith} {l r x : Expr κ} (hop : op ≠ .mul) :
    cs.distribute f (.arith op l r) = .ok x ↔
      ∃ l' r', cs.distribute f l = .ok l' ∧ cs.distribute f r = .ok r' ∧ .arith op l' r' = x := by
  cases op with
  | mul => exact absurd rfl hop
  | _ => simp only [distribute, bind_eq_ok_iff, pure_eq_ok_iff, exists_and_left]

/-- What is kept by every case of the distribution holds between an integrand and the outcome. -/
theorem distribute_induct {P : Expr κ → Expr κ → Prop}
    (sum : ∀ op l r l' r', op ≠ .mul → P l l' → P r r' → P (.arith op l r) (.arith op l' r'))
    (product : ∀ l r x, cs.onOperands f (.mul l r) = .ok x → P (.mul l r) x)
    (other : ∀ e x, (∀ op l r, e ≠ .arith op l r) → f e = .ok x → P e x)
    {e x : Expr κ} (h : cs.distribute f e = .ok x) : P e x := by
  induction e generalizing x with
  | leaf l => exact other _ _ (by simp) h
  | node k args => exact other _ _ (by simp) h
  | arith op l r hl hr =>
    by_cases hop : op = .mul
    · cases hop
      exact product l r x h
    · obtain ⟨l', r', hl', hr', rfl⟩ := (distribute_arith_eq_ok_iff hop).1 h
      exact sum op l r l' r' hop (hl hl') (hr hr')

end Coefficients

end VariationalForms
