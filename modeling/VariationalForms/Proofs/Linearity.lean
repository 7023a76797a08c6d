import VariationalForms.Proofs.Repetition

/-! Resolving sums.
The dimension of a sum is that of its first addend with a generic operator. An addend without one is
left alone when it stands alone, but is arranged when another addend has one; this is the only way in
which resolving fails to be linear (`Expr.resolve_addends`).
-/

set_option autoImplicit false

namespace VariationalForms

universe u

variable {κ : Type}

namespace Expr

def firstGeneric? (e : Expr κ) : Option (Expr κ) := e.preorder.find? fun n => n.generic?.isSome

theorem containsGeneric_eq_isSome (e : Expr κ) : e.containsGeneric = e.firstGeneric?.isSome := by
  rw [containsGeneric, firstGeneric?, Bool.eq_iff_iff, List.any_eq_true, List.find?_isSome]

theorem firstGeneric?_arith (op : Arith) (l r : Expr κ) :
    (arith op l r).firstGeneric? = l.firstGeneric?.or r.firstGeneric? := by
  simp only [firstGeneric?, preorder_eq_nodes]
  rw [nodes, List.find?_cons_of_neg (by simp [generic?]), List.find?_append]

theorem containsGeneric_arith (op : Arith) (l r : Expr κ) :
    (arith op l r).containsGeneric = (l.containsGeneric || r.containsGeneric) := by
  simp [containsGeneric_eq_isSome, firstGeneric?_arith]

section Dimension

variable [NumberText κ] {e : Expr κ} {d : Nat}

theorem dimension_congr {e' : Expr κ} (h : e.firstGeneric? = e'.firstGeneric?)
    (he : e.containsGeneric) : e.dimension = e'.dimension := by
  rw [containsGeneric_eq_isSome] at he
  obtain ⟨n, hn⟩ := Option.isSome_iff_exists.1 he
  have hn' := h.symm.trans hn
  rw [firstGeneric?] at hn hn'
  have hgeneric := List.find?_some hn
  rw [dimension, dimension, hn, hn']
  cases n with
  | node k args => cases k <;> first | rfl | cases hgeneric
  | _ => cases hgeneric

theorem dimension_arith_left {op : Arith} {l r : Expr κ} (hl : l.containsGeneric) :
    (arith op l r).dimension = l.dimension := by
  refine dimension_congr ?_ (by simp [containsGeneric_arith, hl])
  rw [containsGeneric_eq_isSome] at hl
  rw [firstGeneric?_arith, Option.or_of_isSome hl]

theorem dimension_arith_right {op : Arith} {l r : Expr κ} (hl : l.containsGeneric = false)
    (hr : r.containsGeneric) : (arith op l r).dimension = r.dimension := by
  refine dimension_congr ?_ (by simp [containsGeneric_arith, hr])
  rw [containsGeneric_eq_isSome, Option.isSome_eq_false_iff] at hl
  rw [firstGeneric?_arith, Option.isNone_iff_eq_none.1 hl, Option.none_or]

theorem containsGeneric_of_dimension (h : e.dimension = .ok d) : e.containsGeneric := by
  rw [containsGeneric_eq_isSome, firstGeneric?]
  unfold dimension at h
  split at h
  case h_1 hn => rw [hn]; rfl
  case h_2 => cases h

theorem exists_function_of_dimension (h : e.dimension = .ok d) :
    ∃ f ∈ e.functions, f.space.ldim = d := by
  unfold dimension at h
  split at h
  case h_2 => cases h
  case h_1 o args hn =>
    split at h
    case h_2 => cases h
    case h_1 f hf =>
      cases h
      obtain ⟨n, hmem, hfn⟩ := List.exists_of_findSome?_eq_some hf
      obtain ⟨a, ha, hna⟩ := List.mem_flatMap.1 hmem
      have hgeneric := List.mem_of_find?_eq_some hn
      rw [preorder_eq_nodes] at hgeneric hna
      have hinner : n ∈ (generic o args).nodes := mem_nodes_of_mem_children ha hna
      exact ⟨f, mem_functions.2 ⟨n, nodes_subset hgeneric hinner, hfn⟩, rfl⟩

end Dimension

theorem rejectLeaf_eq_ok_iff {e : Expr κ} : e.rejectLeaf = .ok () ↔ ∀ l, e ≠ .leaf l := by
  cases e <;> simp [rejectLeaf]

theorem containsDimensioned_arith (op : Arith) (l r : Expr κ) :
    (arith op l r).containsDimensioned = (l.containsDimensioned || r.containsDimensioned) := by
  simp only [containsDimensioned, preorder_eq_nodes]
  rw [nodes, List.any_cons, List.any_append]
  rfl

section Resolve

variable [Zero κ] [One κ] [NumberText κ] {cs : Coefficients} {d : Nat} {e a a' b b' : Expr κ}

theorem resolve_of_not_containsGeneric (he : ∀ l, e ≠ .leaf l) (hg : e.containsGeneric = false)
    (hd : e.containsDimensioned) : e.resolve cs = .ok e := by
  rw [resolve, rejectLeaf_eq_ok_iff.2 he, hg, hd]
  rfl

theorem resolve_of_dimension (he : ∀ l, e ≠ .leaf l) (hd : e.dimension = .ok d) :
    e.resolve cs = e.resolveIn cs d := by
  rw [resolve, rejectLeaf_eq_ok_iff.2 he, containsGeneric_of_dimension hd, hd]
  rfl

/-- The two ways in which an integrand without a form is resolved. -/
theorem resolve_cases (h : e.resolve cs = .ok a) :
    (e.containsGeneric = false ∧ e.containsDimensioned ∧ a = e) ∨
      (e.containsGeneric ∧ ∃ d, e.dimension = .ok d ∧ e.resolveIn cs d = .ok a) := by
  simp only [resolve, bind_eq_ok_iff] at h
  obtain ⟨-, -, h⟩ := h
  split at h
  case isTrue hresolved =>
    cases h
    simp only [Bool.and_eq_true, Bool.not_eq_true'] at hresolved
    exact .inl ⟨hresolved.1, hresolved.2, rfl⟩
  case isFalse =>
    obtain ⟨d, hd, hr⟩ := bind_eq_ok_iff.1 h
    exact .inr ⟨containsGeneric_of_dimension hd, d, hd, hr⟩

theorem dimension_of_resolve (h : e.resolve cs = .ok a) (hg : e.containsGeneric)
    (hf : ∀ f ∈ e.functions, f.space.ldim = d) : e.dimension = .ok d := by
  rcases resolve_cases h with ⟨hg', -⟩ | ⟨-, d', hd, -⟩
  · simp [hg] at hg'
  · obtain ⟨f, hmem, rfl⟩ := exists_function_of_dimension hd
    rw [← hf f hmem, hd]

/-- In the dimension of the whole, an addend with a generic operator has the outcome that it has on
its own, and any other is arranged. -/
theorem resolveIn_addend (h : e.resolve cs = .ok a) (hf : ∀ f ∈ e.functions, f.space.ldim = d) :
    e.resolveIn cs d = .ok (if e.containsGeneric then a else cs.arrange a) := by
  rcases resolve_cases h with ⟨hg, -, rfl⟩ | ⟨hg, d', hd, hr⟩
  · rw [hg]
    exact resolveIn_of_resolved (containsGeneric_eq_false_iff.1 hg)
  · cases (dimension_of_resolve h hg hf).symm.trans hd
    rw [if_pos hg, hr]

theorem dimension_arith {op : Arith} (ha : a.resolve cs = .ok a') (hb : b.resolve cs = .ok b')
    (hfa : ∀ f ∈ a.functions, f.space.ldim = d) (hfb : ∀ f ∈ b.functions, f.space.ldim = d)
    (hg : (arith op a b).containsGeneric) : (arith op a b).dimension = .ok d := by
  rw [containsGeneric_arith, Bool.or_eq_true] at hg
  cases hag : a.containsGeneric with
  | true => rw [dimension_arith_left hag, dimension_of_resolve ha hag hfa]
  | false =>
    have hbg : b.containsGeneric := hg.resolve_left (by simp [hag])
    rw [dimension_arith_right hag hbg, dimension_of_resolve hb hbg hfb]

/-- What becomes of the addend `e` with the outcome `x` when it stands beside `other`. -/
def asAddend (cs : Coefficients) (e x other : Expr κ) : Expr κ :=
  if !e.containsGeneric && other.containsGeneric then cs.arrange x else x

omit [Zero κ] [NumberText κ] in
theorem value_asAddend {V : Type u} [Add V] [Sub V] [CommMonoid V] (M : Reading κ V)
    (e x other : Expr κ) : M.value (asAddend cs e x other) = M.value x := by
  unfold asAddend
  split
  · exact M.value_arrange cs x
  · rfl

theorem asAddend_eq_iff (h : e.resolve cs = .ok a) {other : Expr κ} :
    asAddend cs e a other = a ↔
      (other.containsGeneric → e.containsGeneric ∨ cs.isArranged e) := by
  rcases resolve_cases h with ⟨hg, -, rfl⟩ | ⟨hg, -⟩
  · cases ho : other.containsGeneric <;>
      simp [asAddend, hg, ho, Coefficients.arrange_eq_self_iff]
  · simp [asAddend, hg]

theorem resolve_arith {op : Arith} (hop : op ≠ .mul) (ha : a.resolve cs = .ok a')
    (hb : b.resolve cs = .ok b') (hfa : ∀ f ∈ a.functions, f.space.ldim = d)
    (hfb : ∀ f ∈ b.functions, f.space.ldim = d) :
    (arith op a b).resolve cs = .ok (arith op (asAddend cs a a' b) (asAddend cs b b' a)) := by
  have hnoleaf : ∀ l, arith op a b ≠ .leaf l := fun _ h => nomatch h
  cases hg : (arith op a b).containsGeneric with
  | false =>
    obtain ⟨hag, hbg⟩ := Bool.or_eq_false_iff.1 (containsGeneric_arith op a b ▸ hg)
    rcases resolve_cases ha with ⟨-, hdim, rfl⟩ | ⟨hag', -⟩
    · rcases resolve_cases hb with ⟨-, -, rfl⟩ | ⟨hbg', -⟩
      · rw [resolve_of_not_containsGeneric hnoleaf hg (by simp [containsDimensioned_arith, hdim])]
        simp [asAddend, hag, hbg]
      · simp [hbg] at hbg'
    · simp [hag] at hag'
  | true =>
    rw [resolve_of_dimension hnoleaf (dimension_arith ha hb hfa hfb hg)]
    refine (Coefficients.distribute_arith_eq_ok_iff hop).2
      ⟨_, _, resolveIn_addend ha hfa, resolveIn_addend hb hfb, ?_⟩
    rw [containsGeneric_arith, Bool.or_eq_true] at hg
    unfold asAddend
    cases hag : a.containsGeneric <;> cases hbg : b.containsGeneric <;> simp_all

/-- Sums and differences are resolved addend by addend, and each addend keeps the meaning of its own
outcome. It keeps the outcome itself unless it has no generic operator, is not arranged, and stands
beside an addend with a generic operator. -/
theorem resolve_addends {op : Arith} (hop : op ≠ .mul) (ha : a.resolve cs = .ok a')
    (hb : b.resolve cs = .ok b') (hfa : ∀ f ∈ a.functions, f.space.ldim = d)
    (hfb : ∀ f ∈ b.functions, f.space.ldim = d) :
    ∃ x y, (arith op a b).resolve cs = .ok (arith op x y) ∧
      (x = a' ↔ (b.containsGeneric → a.containsGeneric ∨ cs.isArranged a)) ∧
      (y = b' ↔ (a.containsGeneric → b.containsGeneric ∨ cs.isArranged b)) ∧
      ∀ {V : Type u} [Add V] [Sub V] [CommMonoid V] (M : Reading κ V),
        M.value x = M.value a' ∧ M.value y = M.value b' :=
  ⟨asAddend cs a a' b, asAddend cs b b' a, resolve_arith hop ha hb hfa hfb, asAddend_eq_iff ha,
    asAddend_eq_iff hb, fun M => ⟨value_asAddend M .., value_asAddend M ..⟩⟩

end Resolve

section Convection

def planeTrial : Expr Float := .function ⟨"u", .trial, WeakForm.planeSpace⟩

def planeTest : Expr Float := .function ⟨"w", .test, WeakForm.planeSpace⟩

def diffusion : Expr Float :=
  .generic .inner [.generic .grad [planeTest], .generic .grad [planeTrial]]

def resolvedDiffusion : Expr Float :=
  .add (.mul (.derivative .x [planeTest]) (.derivative .x [planeTrial]))
    (.mul (.derivative .y [planeTest]) (.derivative .y [planeTrial]))

theorem functions_diffusion : diffusion.functions =
    [⟨"w", .test, WeakForm.planeSpace⟩, ⟨"u", .trial, WeakForm.planeSpace⟩] := by
  with_unfolding_all rfl

theorem resolve_diffusion : diffusion.resolve .standard = .ok resolvedDiffusion := by
  with_unfolding_all rfl

def convection : Expr Float :=
  .mul (.mul (.derivative .x [planeTrial]) (.constant "k")) planeTest

theorem resolve_addends_convection :
    diffusion.resolve .standard = .ok resolvedDiffusion ∧
      convection.resolve .standard = .ok convection ∧
      (∀ f ∈ diffusion.functions, f.space.ldim = 2) ∧
      (∀ f ∈ convection.functions, f.space.ldim = 2) ∧
      (arith .add diffusion convection).resolve .standard ≠
        .ok (arith .add resolvedDiffusion convection) := by
  have hconvection : convection.resolve .standard = .ok convection := by with_unfolding_all rfl
  have hfd : ∀ f ∈ diffusion.functions, f.space.ldim = 2 := by
    simp [functions_diffusion, WeakForm.planeSpace]
  have hfc : ∀ f ∈ convection.functions, f.space.ldim = 2 := by
    have hfunctions : convection.functions = [⟨"u", .trial, WeakForm.planeSpace⟩,
        ⟨"w", .test, WeakForm.planeSpace⟩] := by
      with_unfolding_all rfl
    simp [hfunctions, WeakForm.planeSpace]
  refine ⟨resolve_diffusion, hconvection, hfd, hfc, fun hsum => ?_⟩
  obtain ⟨x, y, hxy, -, hiff, -⟩ :=
    resolve_addends.{0} (by simp : Arith.add ≠ .mul) resolve_diffusion hconvection hfd hfc
  cases hxy.symm.trans hsum
  have hgeneric : diffusion.containsGeneric := by with_unfolding_all rfl
  have hplain : convection.containsGeneric = false := by with_unfolding_all rfl
  rcases hiff.1 rfl hgeneric with hg | harranged
  · rw [hplain] at hg
    cases hg
  · cases harranged

end Convection

end Expr

end VariationalForms
