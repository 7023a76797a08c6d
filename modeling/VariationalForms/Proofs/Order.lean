import Mathlib.Data.List.Nodup
import VariationalForms.Form

/-! The order in which functions and fields are listed.
Sorting a list without repetitions leaves nothing but the set of its members, so integrands in which
the same functions and the same fields occur list them alike (`Expr.functionsOf_congr`). Functions
are compared by the serials of their spaces, and a serial stands for one space only.
-/

set_option autoImplicit false

namespace VariationalForms

theorem nodup_eraseDups {α : Type} [BEq α] [LawfulBEq α] : ∀ xs : List α, xs.eraseDups.Nodup
  | [] => List.nodup_nil
  | x :: xs => by
    have hlen : (xs.filter fun y => !y == x).length < xs.length + 1 :=
      Nat.lt_succ_of_le (List.length_filter_le ..)
    rw [List.eraseDups_cons, List.nodup_cons, List.mem_eraseDups]
    exact ⟨by simp, nodup_eraseDups _⟩
termination_by xs => xs.length

theorem eraseDups_eq_self {α : Type} [BEq α] [LawfulBEq α] {xs : List α} (h : xs.Nodup) :
    xs.eraseDups = xs := by
  induction xs with
  | nil => rfl
  | cons x xs ih =>
    obtain ⟨hx, hxs⟩ := List.nodup_cons.1 h
    have hfilter : (xs.filter fun y => !y == x) = xs := by
      refine List.filter_eq_self.2 fun y hy => ?_
      simpa using fun hyx : y = x => hx (hyx ▸ hy)
    rw [List.eraseDups_cons, hfilter, ih hxs]

section MergeSort

variable {α : Type} {cmp : α → α → Ordering} [Std.TransCmp cmp] {xs ys : List α}

theorem pairwise_isLE_mergeSort (xs : List α) :
    (xs.mergeSort fun a b => (cmp a b).isLE).Pairwise fun a b => (cmp a b).isLE := by
  have htrans : ∀ a b c, (cmp a b).isLE → (cmp b c).isLE → (cmp a c).isLE :=
    fun a b c => Std.TransCmp.isLE_trans
  have htotal : ∀ a b, (cmp a b).isLE || (cmp b a).isLE := by
    intro a b
    rw [← Std.OrientedCmp.isGE_eq_isLE (a := a)]
    cases cmp a b <;> rfl
  exact List.pairwise_mergeSort htrans htotal xs

theorem mergeSort_congr (hx : xs.Nodup) (hy : ys.Nodup) (hmem : ∀ a, a ∈ xs ↔ a ∈ ys)
    (heq : ∀ a ∈ ys, ∀ b ∈ ys, cmp a b = .eq → a = b) :
    xs.mergeSort (fun a b => (cmp a b).isLE) = ys.mergeSort fun a b => (cmp a b).isLE := by
  refine List.Perm.eq_of_pairwise (fun a b ha hb hab hba => ?_)
    (pairwise_isLE_mergeSort xs) (pairwise_isLE_mergeSort ys)
    (((List.mergeSort_perm xs _).trans ((List.perm_ext_iff_of_nodup hx hy).2 hmem)).trans
      (List.mergeSort_perm ys _).symm)
  exact heq a ((hmem a).1 (List.mem_mergeSort.1 ha)) b (List.mem_mergeSort.1 hb)
    (Std.OrientedCmp.isLE_antisymm hab hba)

theorem pairwise_lt_mergeSort (hx : xs.Nodup)
    (heq : ∀ a ∈ xs, ∀ b ∈ xs, cmp a b = .eq → a = b) :
    (xs.mergeSort fun a b => (cmp a b).isLE).Pairwise fun a b => cmp a b = .lt := by
  have hnodup := (List.mergeSort_perm xs fun a b => (cmp a b).isLE).nodup_iff.2 hx
  refine ((pairwise_isLE_mergeSort xs).and hnodup).imp_of_mem fun {a b} ha hb ⟨hle, hne⟩ => ?_
  cases hcmp : cmp a b with
  | lt => rfl
  | eq => exact absurd (heq a (List.mem_mergeSort.1 ha) b (List.mem_mergeSort.1 hb) hcmp) hne
  | gt =>
    rw [hcmp] at hle
    cases hle

end MergeSort

instance : Std.TransOrd Space :=
  inferInstanceAs (Std.TransCmp (compareLex (compareOn Space.name) (compareOn Space.serial)))

theorem Space.compare_eq_eq_iff {s t : Space} :
    compare s t = .eq ↔ s.name = t.name ∧ s.serial = t.serial := by
  change (compare s.name t.name).then (compare s.serial t.serial) = .eq ↔ _
  rw [Ordering.then_eq_eq, Std.LawfulEqOrd.compare_eq_iff_eq, Std.LawfulEqOrd.compare_eq_iff_eq]

instance : Std.TransOrd Role := inferInstanceAs (Std.TransCmp (compareOn Role.rank))

theorem Role.compare_eq_eq_iff {r s : Role} : compare r s = .eq ↔ r = s := by
  change compare r.rank s.rank = .eq ↔ _
  rw [Std.LawfulEqOrd.compare_eq_iff_eq]
  exact ⟨rank_injective, fun h => h ▸ rfl⟩

instance : Std.TransOrd Argument :=
  inferInstanceAs (Std.TransCmp
    (compareLex (compareLex (compareOn Argument.name) (compareOn Argument.role))
      (compareOn Argument.space)))

theorem Argument.eq_of_compare_eq {f g : Argument} (h : compare f g = .eq)
    (hs : f.space.serial = g.space.serial → f.space = g.space) : f = g := by
  change ((compare f.name g.name).then (compare f.role g.role)).then
    (compare f.space g.space) = .eq at h
  rw [Ordering.then_eq_eq, Ordering.then_eq_eq, Std.LawfulEqOrd.compare_eq_iff_eq,
    Role.compare_eq_eq_iff, Space.compare_eq_eq_iff] at h
  obtain ⟨⟨hname, hrole⟩, -, hserial⟩ := h
  cases f
  cases g
  cases hname
  cases hrole
  cases hs hserial
  rfl

namespace Expr

variable {κ : Type} {e x : Expr κ}

/-- Among the spaces of the functions, no two different ones have the same serial. Spaces are
numbered as they are made, so this holds of functions that exist together. -/
def SerialsIdentify (e : Expr κ) : Prop :=
  ∀ f ∈ e.functions, ∀ g ∈ e.functions, f.space.serial = g.space.serial → f.space = g.space

theorem functionsOf_congr (he : e.SerialsIdentify)
    (hmem : ∀ f, f ∈ x.functions ↔ f ∈ e.functions) (r : Role) :
    x.functionsOf r = e.functionsOf r := by
  refine mergeSort_congr (nodup_eraseDups _ |>.filter _) (nodup_eraseDups _ |>.filter _)
    (fun f => ?_) fun f hf g hg hfg => ?_
  · rw [List.mem_filter, List.mem_filter, hmem]
  · exact Argument.eq_of_compare_eq hfg
      (he f (List.mem_filter.1 hf).1 g (List.mem_filter.1 hg).1)

theorem sortedFields_congr (hmem : ∀ s, s ∈ x.fields ↔ s ∈ e.fields) :
    x.sortedFields = e.sortedFields :=
  mergeSort_congr (nodup_eraseDups _) (nodup_eraseDups _) hmem
    fun _ _ _ _ h => Std.LawfulEqOrd.compare_eq_iff_eq.1 h

end Expr

end VariationalForms
