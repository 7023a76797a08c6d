import VariationalForms.Proofs.Renaming

/-! The dimension of a form and that of its functions.
Nothing ties the functions of an integrand to the spaces that are declared for it. A form is
consistent when its functions live in the dimension of those spaces. Adding and resolving keep
that. Application and rebinding keep it if and only if the functions that they put in live in that
dimension as well, so it holds along all runs which put in no others
(`BilinearForm.reached_consistent`).
-/

set_option autoImplicit false

namespace VariationalForms

variable {κ : Type}

theorem Argument.renamed_of_mem {pairs : List (Argument × Argument)}
    (hkeys : (pairs.map Prod.fst).Nodup) {f g : Argument} (h : (f, g) ∈ pairs) :
    f.renamed pairs = g := by
  have hlookup : pairs.lookup f = some g := by
    refine lookup_eq_some ⟨(f, g), h, by simp⟩ fun p hp hfp => ?_
    obtain rfl : p = (f, g) := List.inj_on_of_nodup_map hkeys hp h (beq_iff_eq.1 hfp).symm
    rfl
  rw [renamed, hlookup, Option.getD_some]

theorem Argument.nodup_append {tests trials : List Argument} (htest : ∀ f ∈ tests, f.role = .test)
    (htrial : ∀ f ∈ trials, f.role = .trial) (htests : tests.Nodup) (htrials : trials.Nodup) :
    (tests ++ trials).Nodup := by
  refine List.nodup_append.2 ⟨htests, htrials, ?_⟩
  rintro f hf _ hg rfl
  have hrole := htest f hf
  rw [htrial f hg] at hrole
  cases hrole

theorem bindings_eq_ok_iff {r : Role} {current supplied : List Argument}
    {pairs : List (Argument × Argument)} :
    bindings r current supplied = .ok pairs ↔
      (∀ f ∈ supplied, f.role = r) ∧ supplied.length = current.length ∧
        current.zip supplied = pairs := by
  unfold bindings
  split
  case h_1 f hf =>
    have hmem := List.mem_of_find?_eq_some hf
    have hrole := List.find?_some hf
    simp only [reduceCtorEq, false_iff]
    rintro ⟨hall, -⟩
    simp [hall f hmem] at hrole
  case h_2 hf =>
    have hall : ∀ f ∈ supplied, f.role = r := by simpa using hf
    split <;> simp_all

namespace Expr

variable {d : Nat} {e x : Expr κ} {σ : Argument → Argument}

theorem function?_mapFunctions (e : Expr κ) :
    (e.mapFunctions σ).function? = e.function?.map σ := by
  cases e with
  | leaf l => cases l <;> rfl
  | arith op l r => rfl
  | node h args => rw [mapFunctions_node]; rfl

theorem mem_functions_mapFunctions {f : Argument} :
    f ∈ (e.mapFunctions σ).functions ↔ ∃ g ∈ e.functions, σ g = f := by
  simp only [mem_functions, nodes_mapFunctions, List.mem_map]
  constructor
  · rintro ⟨_, ⟨n, hn, rfl⟩, hf⟩
    rw [function?_mapFunctions, Option.map_eq_some_iff] at hf
    obtain ⟨g, hg, rfl⟩ := hf
    exact ⟨g, ⟨n, hn, hg⟩, rfl⟩
  · rintro ⟨g, ⟨n, hn, hg⟩, rfl⟩
    exact ⟨_, ⟨n, hn, rfl⟩, by rw [function?_mapFunctions, hg, Option.map_some]⟩

def LivesIn (d : Nat) (e : Expr κ) : Prop := ∀ f ∈ e.functions, f.space.ldim = d

theorem mem_functionsOf {r : Role} {f : Argument} :
    f ∈ e.functionsOf r ↔ f ∈ e.functions ∧ f.role = r := by
  rw [functionsOf, Argument.sort, List.mem_mergeSort, List.mem_filter, decide_eq_true_iff]

theorem nodup_functionsOf (r : Role) (e : Expr κ) : (e.functionsOf r).Nodup := by
  rw [functionsOf, Argument.sort, (List.mergeSort_perm _ _).nodup_iff]
  exact (nodup_eraseDups _).filter _

theorem mem_functions_iff_mem_functionsOf {f : Argument} :
    f ∈ e.functions ↔ f ∈ e.functionsOf .test ++ e.functionsOf .trial := by
  rw [List.mem_append, mem_functionsOf, mem_functionsOf]
  cases f.role <;> simp

theorem mem_functions_arith {op : Arith} {l r : Expr κ} {f : Argument} :
    f ∈ (arith op l r).functions ↔ f ∈ l.functions ∨ f ∈ r.functions := by
  simp only [mem_functions, nodes, List.mem_cons, List.mem_append]
  simp [function?, or_and_right, exists_or]

variable [Zero κ]

theorem LivesIn.expand {k : Nat} (he : e.LivesIn d) (h : expand k e = .ok x) : x.LivesIn d := by
  have hclosed : LeafClosed (κ := κ) fun l => ∀ f, l.function? = some f → f.space.ldim = d :=
    ⟨by simp [Leaf.function?], fun f hf i _ => by simpa [Leaf.function?] using hf⟩
  have hx := madeOf_expand hclosed h (forall_functions_iff.1 he)
  refine forall_functions_iff.2 fun n hn => ?_
  have hroot := hx n hn
  cases n with
  | leaf l => exact hroot
  | _ => trivial

end Expr

namespace BilinearForm

section Steps

variable {a b c : BilinearForm κ} {tests trials : List Argument}
  {pairs : List (Argument × Argument)}

/-- A function lives in the dimension of the declared spaces. -/
def Fits (a : BilinearForm κ) (f : Argument) : Prop := a.ldim? = some f.space.ldim

/-- A form declares a space, and its functions live in the dimension of the declared spaces. -/
def Consistent (a : BilinearForm κ) : Prop :=
  a.ldim?.isSome ∧ ∀ f ∈ a.integrand.functions, a.Fits f

theorem Consistent.exists_ldim (ha : a.Consistent) :
    ∃ d, a.ldim? = some d ∧ a.integrand.LivesIn d := by
  obtain ⟨hd, hfits⟩ := ha
  obtain ⟨d, hd⟩ := Option.isSome_iff_exists.1 hd
  refine ⟨d, hd, fun f hf => ?_⟩
  have hf := hfits f hf
  rw [Fits, hd] at hf
  exact (Option.some.inj hf).symm

theorem consistent_withIntegrand_iff (hd : a.ldim?.isSome) {e : Expr κ} :
    (a.withIntegrand e).Consistent ↔ ∀ f ∈ e.functions, a.Fits f :=
  and_iff_right hd

theorem consistent_rename_iff (hd : a.ldim?.isSome) :
    (a.withIntegrand (a.integrand.rename pairs)).Consistent ↔
      ∀ f ∈ a.integrand.functions, a.Fits (f.renamed pairs) := by
  rw [consistent_withIntegrand_iff hd, Expr.rename]
  simp only [Expr.mem_functions_mapFunctions]
  exact ⟨fun h f hf => h _ ⟨f, hf, rfl⟩, by rintro h _ ⟨f, hf, rfl⟩; exact h f hf⟩

theorem placements_eq_ok_iff : a.placements tests trials = .ok pairs ↔
    ((∀ f ∈ tests, f.role = .test) ∧ tests.length = a.testFunctions.length) ∧
      ((∀ f ∈ trials, f.role = .trial) ∧ trials.length = a.trialFunctions.length) ∧
      a.testFunctions.zip tests ++ a.trialFunctions.zip trials = pairs := by
  unfold placements
  constructor
  · intro h
    obtain ⟨onTests, htests, h⟩ := bind_eq_ok_iff.1 h
    obtain ⟨onTrials, htrials, h⟩ := bind_eq_ok_iff.1 h
    cases h
    obtain ⟨hroles, hlen, rfl⟩ := bindings_eq_ok_iff.1 htests
    obtain ⟨hroles', hlen', rfl⟩ := bindings_eq_ok_iff.1 htrials
    exact ⟨⟨hroles, hlen⟩, ⟨hroles', hlen'⟩, rfl⟩
  · rintro ⟨⟨hroles, hlen⟩, ⟨hroles', hlen'⟩, rfl⟩
    exact bind_eq_ok_iff.2 ⟨_, bindings_eq_ok_iff.2 ⟨hroles, hlen, rfl⟩,
      bind_eq_ok_iff.2 ⟨_, bindings_eq_ok_iff.2 ⟨hroles', hlen', rfl⟩, rfl⟩⟩

theorem placements_eq_ok (h : a.placements tests trials = .ok pairs) :
    pairs.map Prod.fst = a.testFunctions ++ a.trialFunctions ∧
      pairs.map Prod.snd = tests ++ trials := by
  obtain ⟨⟨-, hlen⟩, ⟨-, hlen'⟩, rfl⟩ := placements_eq_ok_iff.1 h
  rw [List.map_append, List.map_append, List.map_fst_zip (by omega), List.map_fst_zip (by omega),
    List.map_snd_zip (by omega), List.map_snd_zip (by omega)]
  exact ⟨rfl, rfl⟩

theorem exists_placements (h : a.apply tests trials = .ok b) :
    ∃ pairs, a.placements tests trials = .ok pairs ∧
      b = a.withIntegrand (a.integrand.rename pairs) := by
  rw [apply_eq_map] at h
  cases hplaced : a.placements tests trials with
  | error fault => rw [hplaced] at h; cases h
  | ok pairs =>
    rw [hplaced] at h
    cases h
    exact ⟨pairs, rfl, rfl⟩

theorem nodup_functions (a : BilinearForm κ) : (a.testFunctions ++ a.trialFunctions).Nodup :=
  Argument.nodup_append (fun _ hf => (Expr.mem_functionsOf.1 hf).2)
    (fun _ hf => (Expr.mem_functionsOf.1 hf).2) (Expr.nodup_functionsOf _ _)
    (Expr.nodup_functionsOf _ _)

theorem nodup_keys (h : a.placements tests trials = .ok pairs) : (pairs.map Prod.fst).Nodup := by
  rw [(placements_eq_ok h).1]
  exact a.nodup_functions

theorem map_renamed (h : a.placements tests trials = .ok pairs) :
    (a.testFunctions ++ a.trialFunctions).map (Argument.renamed pairs) = tests ++ trials := by
  obtain ⟨hkeys, hvalues⟩ := placements_eq_ok h
  rw [← hkeys, ← hvalues, List.map_map]
  exact List.map_congr_left fun p hp => Argument.renamed_of_mem (nodup_keys h) hp

theorem consistent_apply_iff (hd : a.ldim?.isSome) (h : a.apply tests trials = .ok b) :
    b.Consistent ↔ ∀ f ∈ tests ++ trials, a.Fits f := by
  obtain ⟨pairs, hplaced, rfl⟩ := exists_placements h
  rw [consistent_rename_iff hd, ← map_renamed hplaced, List.forall_mem_map]
  simp only [Expr.mem_functions_iff_mem_functionsOf]
  rfl

theorem consistent_rebind_iff (ha : a.Consistent) (h : a.rebind pairs = .ok b) :
    b.Consistent ↔ ∀ f ∈ a.integrand.functions, ∀ g, pairs.lookup f = some g → a.Fits g := by
  obtain ⟨rfl, -⟩ := rebind_eq_ok h a.integrand
  rw [consistent_rename_iff ha.1]
  refine forall₂_congr fun f hf => ?_
  rw [Argument.renamed]
  cases pairs.lookup f with
  | none => simpa using ha.2 f hf
  | some g => simp

theorem consistent_add_iff (h : a.add b = .ok c) : c.Consistent ↔ a.Consistent ∧ b.Consistent := by
  unfold add at h
  split at h
  case isFalse => cases h
  case isTrue hspaces =>
    cases h
    have hd : b.ldim? = a.ldim? := congrArg FormSpaces.ldim? hspaces.symm
    have hfits : ∀ f, b.Fits f ↔ a.Fits f := fun f => by rw [Fits, Fits, hd]
    change a.ldim?.isSome ∧ (∀ f ∈ (Expr.add a.integrand b.integrand).functions, a.Fits f) ↔ _
    simp only [Consistent, hd, hfits, Expr.mem_functions_arith, or_imp, forall_and]
    tauto

variable [Zero κ] [One κ] [NumberText κ] {cs : Coefficients}

theorem consistent_resolve_iff (h : a.resolve cs = .ok b) : b.Consistent ↔ a.Consistent := by
  obtain ⟨d, x, hx, rfl⟩ := resolve_eq_ok h
  refine and_congr_right fun _ => ?_
  change (∀ f ∈ x.functions, a.Fits f) ↔ _
  simp only [Expr.mem_functions_resolveIn_iff hx]

end Steps

section Runs

variable [Zero κ] [One κ] [NumberText κ]

/-- The forms to which runs of application, rebinding, addition and resolving lead, where `Allowed`
says which functions may be put into a form. -/
inductive Reached (Start : BilinearForm κ → Prop) (Allowed : BilinearForm κ → Argument → Prop) :
    BilinearForm κ → Prop
  | start {a : BilinearForm κ} (h : Start a) : Reached Start Allowed a
  | apply {a b : BilinearForm κ} {tests trials : List Argument} (ha : Reached Start Allowed a)
      (hallowed : ∀ f ∈ tests ++ trials, Allowed a f) (h : a.apply tests trials = .ok b) :
      Reached Start Allowed b
  | rebind {a b : BilinearForm κ} {pairs : List (Argument × Argument)}
      (ha : Reached Start Allowed a)
      (hallowed : ∀ f ∈ a.integrand.functions, ∀ g, pairs.lookup f = some g → Allowed a g)
      (h : a.rebind pairs = .ok b) : Reached Start Allowed b
  | add {a b c : BilinearForm κ} (ha : Reached Start Allowed a) (hb : Reached Start Allowed b)
      (h : a.add b = .ok c) : Reached Start Allowed c
  | resolve {a b : BilinearForm κ} {cs : Coefficients} (ha : Reached Start Allowed a)
      (h : a.resolve cs = .ok b) : Reached Start Allowed b

variable {Start : BilinearForm κ → Prop} {a : BilinearForm κ}

theorem Reached.consistent (hstart : ∀ a, Start a → a.Consistent) (h : Reached Start Fits a) :
    a.Consistent := by
  induction h with
  | start h => exact hstart _ h
  | apply _ hfits h ih => exact (consistent_apply_iff ih.1 h).2 hfits
  | rebind _ hfits h ih => exact (consistent_rebind_iff ih h).2 hfits
  | add _ _ h iha ihb => exact (consistent_add_iff h).2 ⟨iha, ihb⟩
  | resolve _ h ih => exact (consistent_resolve_iff h).2 ih

/-- A consistent form is resolved in the dimension in which the functions of all operands live. -/
theorem Consistent.resolve_eq (ha : a.Consistent) (cs : Coefficients) :
    ∃ d, a.ldim? = some d ∧ a.resolve cs = (a.integrand.resolveIn cs d).map a.withIntegrand ∧
      ∀ o args, .generic o args ∈ a.integrand.nodes → ∀ rs, Expr.expandArgs d args = .ok rs →
        ∀ r ∈ rs, r.LivesIn d := by
  obtain ⟨d, hd, hlives⟩ := ha.exists_ldim
  refine ⟨d, hd, resolve_eq_map hd, fun o args hn rs hrs r hr => ?_⟩
  obtain ⟨e, he, hexpand⟩ := exists_of_mem_right (Expr.expandArgs_eq_ok_iff.1 hrs) hr
  refine Expr.LivesIn.expand (fun f hf => hlives f ?_) hexpand
  obtain ⟨m, hm, hfm⟩ := Expr.mem_functions.1 hf
  have hmem := Expr.nodes_subset hn (Expr.mem_nodes_of_mem_children he hm)
  exact Expr.mem_functions.2 ⟨m, hmem, hfm⟩

/-- Along runs from consistent forms that put in no function of another dimension, all forms are
consistent, and no operator is expanded over a function of another dimension. An application or a
rebinding that puts in such a function leads to a form that is not consistent. -/
theorem reached_consistent (hstart : ∀ a, Start a → a.Consistent) (h : Reached Start Fits a) :
    a.Consistent ∧
    (∀ cs, ∃ d, a.ldim? = some d ∧
      a.resolve cs = (a.integrand.resolveIn cs d).map a.withIntegrand ∧
      ∀ o args, .generic o args ∈ a.integrand.nodes → ∀ rs, Expr.expandArgs d args = .ok rs →
        ∀ r ∈ rs, r.LivesIn d) ∧
    (∀ tests trials b, a.apply tests trials = .ok b →
      (b.Consistent ↔ ∀ f ∈ tests ++ trials, a.Fits f)) ∧
    ∀ pairs b, a.rebind pairs = .ok b →
      (b.Consistent ↔ ∀ f ∈ a.integrand.functions, ∀ g, pairs.lookup f = some g → a.Fits g) := by
  have ha := h.consistent hstart
  exact ⟨ha, ha.resolve_eq, fun _ _ _ hb => consistent_apply_iff ha.1 hb,
    fun _ _ hb => consistent_rebind_iff ha hb⟩

end Runs

section Stiffness

def stiffness : BilinearForm Float := ⟨Expr.diffusion, Normalization.planeSpaces⟩

def pressureSpace : Space := ⟨"Q", 1, 2, .scalar⟩

def pressureStiffness : BilinearForm Float :=
  stiffness.withIntegrand (.generic .inner
    [.generic .grad [.function ⟨"q", .test, pressureSpace⟩],
      .generic .grad [.function ⟨"p", .trial, pressureSpace⟩]])

def totalStiffness : BilinearForm Float :=
  stiffness.withIntegrand (.add stiffness.integrand pressureStiffness.integrand)

def resolvedStiffness : BilinearForm Float :=
  stiffness.withIntegrand (.add Expr.resolvedDiffusion (.add
    (.mul (.derivative .x [.function ⟨"q", .test, pressureSpace⟩])
      (.derivative .x [.function ⟨"p", .trial, pressureSpace⟩]))
    (.mul (.derivative .y [.function ⟨"q", .test, pressureSpace⟩])
      (.derivative .y [.function ⟨"p", .trial, pressureSpace⟩]))))

theorem consistent_stiffness : stiffness.Consistent := by
  refine ⟨rfl, fun f hf => ?_⟩
  rw [stiffness, Expr.functions_diffusion] at hf
  rcases List.mem_cons.1 hf with rfl | hf
  · rfl
  · cases List.mem_singleton.1 hf
    rfl

theorem reached_consistent_resolvedStiffness :
    (∀ a, a = stiffness → a.Consistent) ∧ Reached (· = stiffness) Fits resolvedStiffness ∧
      resolvedStiffness.Consistent := by
  have hstart : ∀ a, a = stiffness → a.Consistent := fun a ha => ha ▸ consistent_stiffness
  have happly : stiffness.apply [⟨"q", .test, pressureSpace⟩] [⟨"p", .trial, pressureSpace⟩] =
      .ok pressureStiffness := by with_unfolding_all rfl
  have hadd : stiffness.add pressureStiffness = .ok totalStiffness := rfl
  have hresolve : totalStiffness.resolve .standard = .ok resolvedStiffness := by
    with_unfolding_all rfl
  have hfits : ∀ f ∈ [⟨"q", .test, pressureSpace⟩] ++ [⟨"p", .trial, pressureSpace⟩],
      stiffness.Fits f := by
    simp [Fits, pressureSpace, stiffness, ldim?, FormSpaces.ldim?, Normalization.planeSpaces,
      WeakForm.planeSpace]
  have hreached : Reached (· = stiffness) Fits resolvedStiffness :=
    .resolve (.add (.start rfl) (.apply (.start rfl) hfits happly) hadd) hresolve
  exact ⟨hstart, hreached, (reached_consistent hstart hreached).1⟩

def solidTest : Argument := ⟨"t", .test, ⟨"S", 1, 3, .scalar⟩⟩

def solidStiffness : BilinearForm Float :=
  stiffness.withIntegrand (.generic .inner
    [.generic .grad [.function solidTest], .generic .grad [Expr.planeTrial]])

/-- A form of the plane is applied to a function of three variables, and is resolved without the
derivatives along the third axis. -/
theorem not_consistent_solidStiffness :
    (∀ a, a = stiffness → a.Consistent) ∧
      Reached (· = stiffness) (fun _ _ => True) solidStiffness ∧ ¬ solidStiffness.Consistent ∧
      solidStiffness.resolve .standard = .ok (stiffness.withIntegrand (.add
        (.mul (.derivative .x [.function solidTest]) (.derivative .x [Expr.planeTrial]))
        (.mul (.derivative .y [.function solidTest]) (.derivative .y [Expr.planeTrial])))) := by
  have happly : stiffness.apply [solidTest] [⟨"u", .trial, WeakForm.planeSpace⟩] =
      .ok solidStiffness := by with_unfolding_all rfl
  refine ⟨fun a ha => ha ▸ consistent_stiffness,
    .apply (.start rfl) (fun _ _ => trivial) happly, fun h => ?_, by with_unfolding_all rfl⟩
  have hfits := (consistent_apply_iff rfl happly).1 h solidTest (.head _)
  cases hfits

end Stiffness

end BilinearForm

end VariationalForms
