import Mathlib.Data.String.Basic
import VariationalForms.Proofs.Dimension

/-! The lists of functions and fields that a form shows.
A list is in strictly ascending order and has the functions of one role that occur in the integrand,
or the fields that occur in it, and there is no other list like that. So nothing of the arrangement of
an integrand is left in its lists (`Expr.exposed_lists_canonical`).
-/

set_option autoImplicit false

namespace VariationalForms

variable {κ : Type}

theorem Role.compare_eq_lt_iff {r s : Role} : compare r s = .lt ↔ r = .test ∧ s = .trial := by
  cases r <;> cases s <;> decide

namespace Argument

variable {f g : Argument}

/-- The strict order of functions: by name, then test functions before trial functions, then by the
name of the space, then by the place of the space in the order of creation. -/
def Precedes (f g : Argument) : Prop :=
  f.name < g.name ∨ f.name = g.name ∧
    (f.role = .test ∧ g.role = .trial ∨ f.role = g.role ∧
      (f.space.name < g.space.name ∨ f.space.name = g.space.name ∧
        f.space.serial < g.space.serial))

instance : Decidable (f.Precedes g) := inferInstanceAs (Decidable (_ ∨ _))

theorem compare_eq_lt_iff : compare f g = .lt ↔ f.Precedes g := by
  change ((compare f.name g.name).then (compare f.role g.role)).then
    ((compare f.space.name g.space.name).then (compare f.space.serial g.space.serial)) = .lt ↔ _
  simp only [Ordering.then_eq_lt, Ordering.then_eq_eq, Role.compare_eq_eq_iff,
    Role.compare_eq_lt_iff, compare_lt_iff_lt, Std.LawfulEqOrd.compare_eq_iff_eq, Precedes]
  tauto

theorem Precedes.not_precedes (h : f.Precedes g) : ¬ g.Precedes f := by
  rw [← compare_eq_lt_iff] at *
  exact Std.OrientedCmp.not_lt_of_lt h

end Argument

/-- Strictly ascending lists are determined by their members. -/
theorem eq_of_pairwise_of_mem_iff {α : Type} {R : α → α → Prop} (hR : ∀ a b, R a b → ¬ R b a)
    {xs ys : List α} (hx : xs.Pairwise R) (hy : ys.Pairwise R) (hmem : ∀ a, a ∈ xs ↔ a ∈ ys) :
    xs = ys := by
  have hne : ∀ {a b}, R a b → a ≠ b := by
    rintro a _ h rfl
    exact hR a a h h
  have hperm := (List.perm_ext_iff_of_nodup (hx.imp hne) (hy.imp hne)).2 hmem
  exact hperm.eq_of_pairwise (fun a b _ _ hab hba => absurd hba (hR a b hab)) hx hy

namespace Expr

variable {e x : Expr κ} {r : Role}

def HasFunction (e : Expr κ) (f : Argument) : Prop :=
  function f ∈ e.nodes ∨ ∃ i, component f i ∈ e.nodes

def HasField (e : Expr κ) (s : String) : Prop := field s ∈ e.nodes

/-- The functions of one role that occur in an integrand, in strictly ascending order. -/
structure ListsFunctions (e : Expr κ) (r : Role) (fs : List Argument) : Prop where
  ascending : fs.Pairwise Argument.Precedes
  mem_iff : ∀ f, f ∈ fs ↔ f.role = r ∧ e.HasFunction f

structure ListsFields (e : Expr κ) (ss : List String) : Prop where
  ascending : ss.Pairwise (· < ·)
  mem_iff : ∀ s, s ∈ ss ↔ e.HasField s

theorem function?_eq_some_iff {f : Argument} :
    e.function? = some f ↔ e = function f ∨ ∃ i, e = component f i := by
  cases e with
  | leaf l => cases l <;> simp [function?, Leaf.function?]
  | _ => simp [function?]

theorem field?_eq_some_iff {s : String} : e.field? = some s ↔ e = field s := by
  cases e with
  | leaf l => cases l <;> simp [field?, Leaf.field?]
  | _ => simp [field?]

theorem mem_functions_iff_hasFunction {f : Argument} : f ∈ e.functions ↔ e.HasFunction f := by
  rw [mem_functions, HasFunction]
  simp only [function?_eq_some_iff, and_or_left, exists_or, exists_eq_right]
  exact or_congr_right ⟨fun ⟨n, hn, i, h⟩ => ⟨i, h ▸ hn⟩, fun ⟨i, h⟩ => ⟨_, h, i, rfl⟩⟩

theorem mem_fields_iff_hasField {s : String} : s ∈ e.fields ↔ e.HasField s := by
  simp only [mem_fields, HasField, field?_eq_some_iff, exists_eq_right]

theorem listsFunctions_functionsOf (he : e.SerialsIdentify) (r : Role) :
    e.ListsFunctions r (e.functionsOf r) := by
  have hsorted : (e.functionsOf r).Pairwise fun f g => compare f g = .lt :=
    pairwise_lt_mergeSort ((nodup_eraseDups _).filter _) fun f hf g hg hfg =>
      Argument.eq_of_compare_eq hfg (he f (List.mem_filter.1 hf).1 g (List.mem_filter.1 hg).1)
  refine ⟨hsorted.imp Argument.compare_eq_lt_iff.1, fun f => ?_⟩
  rw [mem_functionsOf, mem_functions_iff_hasFunction, and_comm]

theorem listsFields_sortedFields (e : Expr κ) : e.ListsFields e.sortedFields := by
  have hsorted : e.sortedFields.Pairwise fun s t => compare s t = .lt :=
    pairwise_lt_mergeSort (nodup_eraseDups _)
      fun _ _ _ _ h => Std.LawfulEqOrd.compare_eq_iff_eq.1 h
  refine ⟨hsorted.imp compare_lt_iff_lt.1, fun s => ?_⟩
  rw [sortedFields, List.mem_mergeSort, mem_fields_iff_hasField]

theorem listsFunctions_iff (he : e.SerialsIdentify) {fs : List Argument} :
    e.ListsFunctions r fs ↔ fs = e.functionsOf r := by
  have hlists := listsFunctions_functionsOf he r
  refine ⟨fun h => ?_, fun h => h ▸ hlists⟩
  refine eq_of_pairwise_of_mem_iff (fun _ _ => Argument.Precedes.not_precedes) h.ascending
    hlists.ascending fun f => ?_
  rw [h.mem_iff, hlists.mem_iff]

theorem listsFields_iff {ss : List String} : e.ListsFields ss ↔ ss = e.sortedFields := by
  have hlists := e.listsFields_sortedFields
  refine ⟨fun h => ?_, fun h => h ▸ hlists⟩
  refine eq_of_pairwise_of_mem_iff (fun _ _ => lt_asymm) h.ascending hlists.ascending fun s => ?_
  rw [h.mem_iff, hlists.mem_iff]

/-- The test functions, trial functions and fields of a form are listed in strictly ascending order,
and nothing but what occurs is listed. This leaves only one list for each, so integrands
with the same functions and the same fields show the same lists. A serial stands for one space. -/
theorem exposed_lists_canonical (e : Expr κ) (he : e.SerialsIdentify) :
    (∀ r fs, e.ListsFunctions r fs ↔ fs = e.functionsOf r) ∧
      (∀ ss, e.ListsFields ss ↔ ss = e.sortedFields) ∧
      (∀ a : BilinearForm κ, a.integrand = e → e.ListsFunctions .test a.testFunctions ∧
        e.ListsFunctions .trial a.trialFunctions ∧ e.ListsFields a.fields) ∧
      (∀ l : LinearForm κ, l.integrand = e →
        e.ListsFunctions .test l.testFunctions ∧ e.ListsFields l.fields) ∧
      ∀ x : Expr κ, (∀ f, x.HasFunction f ↔ e.HasFunction f) → (∀ s, x.HasField s ↔ e.HasField s) →
        (∀ r, x.functionsOf r = e.functionsOf r) ∧ x.sortedFields = e.sortedFields := by
  have hfunctions := fun r => listsFunctions_functionsOf he r
  refine ⟨fun _ _ => listsFunctions_iff he, fun _ => listsFields_iff, ?_, ?_, fun x hx hx' => ?_⟩
  · rintro a rfl
    exact ⟨hfunctions .test, hfunctions .trial, listsFields_sortedFields _⟩
  · rintro l rfl
    exact ⟨hfunctions .test, listsFields_sortedFields _⟩
  · refine ⟨functionsOf_congr he fun f => ?_, sortedFields_congr fun s => ?_⟩
    · rw [mem_functions_iff_hasFunction, hx, mem_functions_iff_hasFunction]
    · rw [mem_fields_iff_hasField, hx', mem_fields_iff_hasField]

section Namesakes

def olderSpace : Space := ⟨"V", 0, 2, .vector 2⟩

def newerSpace : Space := ⟨"V", 1, 2, .scalar⟩

def namesakes : Expr Float :=
  .add
    (.mul (.field "G")
      (.mul (.function ⟨"u", .trial, newerSpace⟩) (.function ⟨"u", .test, newerSpace⟩)))
    (.mul (.field "F")
      (.mul (.component ⟨"u", .test, olderSpace⟩ 1) (.function ⟨"a", .test, newerSpace⟩)))

theorem functions_namesakes : namesakes.functions =
    [⟨"u", .trial, newerSpace⟩, ⟨"u", .test, newerSpace⟩, ⟨"u", .test, olderSpace⟩,
      ⟨"a", .test, newerSpace⟩] := by
  with_unfolding_all rfl

theorem exposed_lists_canonical_namesakes :
    namesakes.SerialsIdentify ∧
      namesakes.functionsOf .test =
        [⟨"a", .test, newerSpace⟩, ⟨"u", .test, olderSpace⟩, ⟨"u", .test, newerSpace⟩] ∧
      namesakes.ListsFunctions .test
        [⟨"a", .test, newerSpace⟩, ⟨"u", .test, olderSpace⟩, ⟨"u", .test, newerSpace⟩] ∧
      namesakes.ListsFields ["F", "G"] := by
  have hserials : namesakes.SerialsIdentify := by
    rw [SerialsIdentify, functions_namesakes]
    decide
  obtain ⟨hfunctions, hnames, -⟩ := exposed_lists_canonical namesakes hserials
  have htests : namesakes.ListsFunctions .test
      [⟨"a", .test, newerSpace⟩, ⟨"u", .test, olderSpace⟩, ⟨"u", .test, newerSpace⟩] := by
    refine ⟨by decide, fun f => ?_⟩
    rw [← mem_functions_iff_hasFunction, functions_namesakes]
    constructor
    · intro hf
      simp only [List.mem_cons, List.not_mem_nil, or_false] at hf
      rcases hf with rfl | rfl | rfl <;> simp
    · rintro ⟨hrole, hf⟩
      simp only [List.mem_cons, List.not_mem_nil, or_false] at hf
      rcases hf with rfl | rfl | rfl | rfl <;> simp_all
  have hfields : namesakes.ListsFields ["F", "G"] := by
    refine ⟨by decide, fun s => ?_⟩
    have hoccur : namesakes.fields = ["G", "F"] := by with_unfolding_all rfl
    rw [← mem_fields_iff_hasField, hoccur]
    simp [or_comm]
  exact ⟨hserials, ((hfunctions .test _).1 htests).symm, htests, hfields⟩

end Namesakes

end Expr

end VariationalForms
