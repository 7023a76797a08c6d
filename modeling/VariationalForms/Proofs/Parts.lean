import VariationalForms.Expansion
import VariationalForms.Proofs.Meaning

/-! Which integrands show their parts, and what the parts are worth.
The rules of the operators look at an operand once: a tuple and a vector function have parts,
anything else is taken as a whole. Taking a derivative shows parts of tuples only
(`Expr.components?_derive`).
-/

set_option autoImplicit false

namespace VariationalForms

universe u

variable {κ : Type}

namespace Expr

theorem exists_add_of_sum? {e e' s : Expr κ} {es : List (Expr κ)}
    (h : sum? (e :: e' :: es) = some s) : ∃ l r, s = .add l r := by
  cases h
  rcases List.eq_nil_or_concat es with rfl | ⟨es, x, rfl⟩
  · exact ⟨e, e', rfl⟩
  · exact ⟨(e' :: es).foldl add e, x, by simp⟩

theorem exists_add_of_derivedSum? {fs : List (Expr κ × Expr κ)} {s : Expr κ}
    (hfs : 2 ≤ (varying fs).length) (h : derivedSum? fs = some s) : ∃ l r, s = .add l r := by
  match hv : varying fs with
  | [] | [_] => simp [hv] at hfs
  | (f, d) :: (g, d') :: rest =>
    rw [derivedSum?, hv] at h
    exact exists_add_of_sum? h

theorem length_constants_add_varying (fs : List (Expr κ × Expr κ)) :
    (constants fs).length + (varying fs).length = fs.length := by
  rw [constants, varying, List.length_map]
  induction fs with
  | nil => rfl
  | cons f fs ih => cases hf : f.1.isConstant <;> simp [hf] <;> omega

theorem length_derivedFactors_pos [Zero κ] (a : Axis) (e : Expr κ) :
    0 < (derivedFactors a e).length := by
  have h := congrArg List.length (map_fst_derivedFactors a e)
  rw [List.length_map] at h
  rw [h]
  exact List.length_pos_of_ne_nil e.factors_ne_nil

theorem derive_mul [Zero κ] (a : Axis) (l r : Expr κ) :
    derive a (.mul l r) = .number 0 ∨ ∃ op l' r', derive a (.mul l r) = .arith op l' r' := by
  have hl := length_derivedFactors_pos a l
  have hr := length_derivedFactors_pos a r
  rcases leibniz_cases (derivedFactors a (.mul l r)) with ⟨-, h⟩ | ⟨s, hs, ⟨hc, h⟩ | ⟨c, -, h⟩⟩
  · exact .inl h
  · have hlen := length_constants_add_varying (derivedFactors a (.mul l r))
    rw [hc, derivedFactors, List.length_append, List.length_nil] at hlen
    obtain ⟨l', r', rfl⟩ := exists_add_of_derivedSum? (by rw [derivedFactors]; omega) hs
    exact .inr ⟨.add, l', r', h⟩
  · exact .inr ⟨.mul, c, s, h⟩

theorem derive_leaf [Zero κ] (a : Axis) (l : Leaf κ) :
    derive a (.leaf l) = if (leaf l).isConstant then .number 0 else .derivative a [.leaf l] :=
  leibniz_singleton ..

theorem derive_node [Zero κ] (a : Axis) {h : Head} (hh : h ≠ .tuple) (args : List (Expr κ)) :
    derive a (.node h args) = .derivative a [.node h args] := by
  cases h with
  | tuple => exact absurd rfl hh
  | _ => exact leibniz_singleton ..

theorem components?_derive [Zero κ] (a : Axis) (e : Expr κ) :
    (derive a e).components? =
      match e with
      | .tuple items => some (items.map (derive a))
      | _ => none := by
  cases e with
  | leaf l =>
    rw [derive_leaf]
    split <;> rfl
  | arith op l r =>
    cases op with
    | add => rw [derive_add]; rfl
    | sub => rw [derive_sub]; rfl
    | mul => rcases derive_mul a l r with h | ⟨op, l', r', h⟩ <;> rw [h] <;> rfl
  | node h args =>
    cases h with
    | tuple => rw [derive_tuple]; rfl
    | _ => rw [derive_node a (by simp)]; rfl

theorem eq_zero_of_derive_eq_leaf [Zero κ] {a : Axis} {e : Expr κ} {l : Leaf κ}
    (h : derive a e = .leaf l) : l = .number 0 := by
  cases e with
  | leaf m =>
    rw [derive_leaf] at h
    split at h <;> cases h
    rfl
  | arith op l r =>
    cases op with
    | add => rw [derive_add] at h; cases h
    | sub => rw [derive_sub] at h; cases h
    | mul =>
      rcases derive_mul a l r with h' | ⟨op, l', r', h'⟩ <;> rw [h'] at h <;> cases h
      rfl
  | node k args =>
    cases k with
    | tuple => rw [derive_tuple] at h; cases h
    | _ => rw [derive_node a (by simp)] at h; cases h

theorem derive_ne_function [Zero κ] (a : Axis) (e : Expr κ) (f : Argument) :
    derive a e ≠ .function f := by
  intro h
  cases eq_zero_of_derive_eq_leaf h

theorem components?_of_scalar {d : Nat} {e : Expr κ} (h : e.shape d = .scalar) :
    e.components? = none := by
  unfold components?
  split
  case h_1 items =>
    rw [shape_node] at h
    simp only [Head.shape, Shape.tuple] at h
    split at h <;> cases h
  case h_2 f =>
    rw [shape_leaf] at h
    cases hf : f.space.shape? with
    | none => simp [Space.isVectorValued, hf]
    | some n => simp [Leaf.shape, hf] at h
  case h_3 => rfl

theorem shape_of_components? {d : Nat} {e : Expr κ} {parts : List (Expr κ)}
    (he : e.components? = some parts) (hs : e.shape d ≠ .ill) :
    e.shape d = .vector parts.length := by
  unfold components? at he
  split at he
  case h_1 items =>
    cases he
    rw [shape_node] at hs ⊢
    simp only [Head.shape, Shape.tuple] at hs ⊢
    split at hs
    case isTrue h => rw [if_pos h, List.length_map]
    case isFalse => exact absurd rfl hs
  case h_2 f =>
    split at he
    case isTrue hv =>
      cases he
      obtain ⟨n, hn⟩ := Option.isSome_iff_exists.1 hv
      simp [Leaf.shape, Argument.length_components, show f.space.shape? = some n from hn]
    case isFalse => cases he
  case h_3 => cases he

end Expr

namespace Interpretation

variable {R : Type u} [Zero κ] [CommRing R] (I : Interpretation κ R)

theorem value_of_components? {d : Nat} {u : Expr κ} {parts : List (Expr κ)}
    (hu : u.components? = some parts) (hs : u.shape d ≠ .ill) :
    ∃ xs : List R, parts.map (I.value d) = xs.map .scalar ∧ I.value d u = .vector xs := by
  unfold Expr.components? at hu
  split at hu
  case h_1 items =>
    cases hu
    have hall : ∀ v ∈ parts.map (I.value d), v.shape = .scalar := by
      intro v hv
      obtain ⟨e, he, rfl⟩ := List.mem_map.1 hv
      rw [Expr.shape_node] at hs
      simp only [Head.shape, Shape.tuple] at hs
      rw [I.shape_value]
      split at hs
      case isTrue hscalar => exact hscalar _ (List.mem_map_of_mem he)
      case isFalse => exact absurd rfl hs
    obtain ⟨xs, hxs⟩ := Value.eq_map_scalar hall
    refine ⟨xs, hxs, ?_⟩
    rw [I.value_node, hxs]
    exact Value.tuple_map_scalar xs
  case h_2 f =>
    split at hu
    case isTrue hv =>
      cases hu
      obtain ⟨n, hn⟩ := Option.isSome_iff_exists.1 hv
      refine ⟨(List.range n).map fun i => I.leaf (.component f i), ?_, ?_⟩
      · simp only [Argument.components, hn, Option.getD_some, List.map_map]
        rfl
      · change I.leafValue (.function f) = _
        simp only [leafValue, hn, Option.elim_some]
    case isFalse => cases hu
  case h_3 => cases hu

end Interpretation

end VariationalForms
