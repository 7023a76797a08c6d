import Mathlib.Data.List.Zip
import VariationalForms.Proofs.Dimension

/-! Application undone by rebinding.
The functions of a form give their places to the supplied ones all at once, so supplied functions
may be those of the form in another order. If no function is supplied twice, rebinding every one of
them to the function whose place it took leads back to the form (`BilinearForm.rebind_apply`).
-/

set_option autoImplicit false

namespace VariationalForms

variable {κ : Type}

namespace Expr

variable {σ τ : Argument → Argument} {e : Expr κ}

theorem mapFunctions_mapFunctions (e : Expr κ) :
    (e.mapFunctions σ).mapFunctions τ = e.mapFunctions (τ ∘ σ) := by
  induction e with
  | leaf l => cases l <;> rfl
  | arith op l r hl hr => rw [mapFunctions_arith, mapFunctions_arith, mapFunctions_arith, hl, hr]
  | node h args ih =>
    have hargs : args.map (mapFunctions τ ∘ mapFunctions σ) = args.map (mapFunctions (τ ∘ σ)) :=
      List.map_congr_left ih
    rw [mapFunctions_node, mapFunctions_node, mapFunctions_node, List.map_map, hargs]

theorem mapFunctions_congr (h : ∀ f ∈ e.functions, σ f = τ f) :
    e.mapFunctions σ = e.mapFunctions τ := by
  rw [forall_functions_iff] at h
  induction e with
  | leaf l =>
    have hleaf := madeOf_leaf.1 h
    cases l with
    | function f => exact congrArg function (hleaf f rfl)
    | component f i => exact congrArg (component · i) (hleaf f rfl)
    | _ => rfl
  | arith op l r hl hr =>
    obtain ⟨hleft, hright⟩ := madeOf_arith.1 h
    rw [mapFunctions_arith, mapFunctions_arith, hl hleft, hr hright]
  | node k args ih =>
    have hargs := (madeOf_node.1 h).2
    rw [mapFunctions_node, mapFunctions_node,
      List.map_congr_left fun a ha => ih a ha (hargs a ha)]

theorem mapFunctions_eq_self (h : ∀ f ∈ e.functions, σ f = f) : e.mapFunctions σ = e :=
  (mapFunctions_congr h).trans e.mapFunctions_id

variable {pairs : List (Argument × Argument)}

/-- An exchange of all functions for different ones is undone by the exchange the other way. -/
theorem rename_rename_swap (hkeys : (pairs.map Prod.fst).Nodup)
    (hvalues : (pairs.map Prod.snd).Nodup) (he : ∀ f ∈ e.functions, f ∈ pairs.map Prod.fst) :
    (e.rename pairs).rename (pairs.map Prod.swap) = e := by
  rw [rename, rename, mapFunctions_mapFunctions]
  refine mapFunctions_eq_self fun f hf => ?_
  obtain ⟨⟨k, g⟩, hp, rfl⟩ := List.mem_map.1 (he f hf)
  have hback : (g, k) ∈ pairs.map Prod.swap := List.mem_map_of_mem hp
  have hbackKeys : ((pairs.map Prod.swap).map Prod.fst).Nodup := by
    rwa [List.map_map]
  rw [Function.comp_apply, Argument.renamed_of_mem hkeys hp,
    Argument.renamed_of_mem hbackKeys hback]

end Expr

namespace BilinearForm

variable {a b : BilinearForm κ} {tests trials : List Argument} {pairs : List (Argument × Argument)}

theorem rebind_eq_ok_of_roles (h : ∀ p ∈ pairs, p.1.role = p.2.role) :
    a.rebind pairs = .ok (a.withIntegrand (a.integrand.rename pairs)) := by
  have hnone : (pairs.find? fun p => p.1.role ≠ p.2.role) = none := by simpa using h
  rw [rebind, hnone]

theorem mem_keys (h : a.placements tests trials = .ok pairs) :
    ∀ f ∈ a.integrand.functions, f ∈ pairs.map Prod.fst := fun f hf => by
  rw [(placements_eq_ok h).1]
  exact Expr.mem_functions_iff_mem_functionsOf.1 hf

theorem rebind_of_placements (h : a.placements tests trials = .ok pairs) (htests : tests.Nodup)
    (htrials : trials.Nodup) :
    (a.withIntegrand (a.integrand.rename pairs)).rebind (pairs.map Prod.swap) = .ok a := by
  obtain ⟨⟨htest, -⟩, ⟨htrial, -⟩, hpairs⟩ := placements_eq_ok_iff.1 h
  have hroles : ∀ p ∈ pairs.map Prod.swap, p.1.role = p.2.role := by
    rw [List.forall_mem_map, ← hpairs]
    rintro ⟨f, g⟩ hp
    rcases List.mem_append.1 hp with hp | hp
    · obtain ⟨hf, hg⟩ := List.of_mem_zip hp
      exact (htest g hg).trans (Expr.mem_functionsOf.1 hf).2.symm
    · obtain ⟨hf, hg⟩ := List.of_mem_zip hp
      exact (htrial g hg).trans (Expr.mem_functionsOf.1 hf).2.symm
  have hvalues : (pairs.map Prod.snd).Nodup := by
    rw [(placements_eq_ok h).2]
    exact Argument.nodup_append htest htrial htests htrials
  have hback : (a.integrand.rename pairs).rename (pairs.map Prod.swap) = a.integrand :=
    Expr.rename_rename_swap (nodup_keys h) hvalues (mem_keys h)
  rw [rebind_eq_ok_of_roles hroles]
  exact congrArg (fun e => Except.ok (a.withIntegrand e)) hback

theorem apply_self (a : BilinearForm κ) : a.apply a.testFunctions a.trialFunctions = .ok a := by
  have hplaced : a.placements a.testFunctions a.trialFunctions =
      .ok (a.testFunctions.zip a.testFunctions ++ a.trialFunctions.zip a.trialFunctions) :=
    placements_eq_ok_iff.2 ⟨⟨fun _ hf => (Expr.mem_functionsOf.1 hf).2, rfl⟩,
      ⟨fun _ hf => (Expr.mem_functionsOf.1 hf).2, rfl⟩, rfl⟩
  have hself := List.map_inj_left.1 ((map_renamed hplaced).trans (List.map_id _).symm)
  have hrename : a.integrand.rename _ = a.integrand := Expr.mapFunctions_eq_self fun f hf =>
    hself f (Expr.mem_functions_iff_mem_functionsOf.1 hf)
  rw [apply_eq_map, hplaced]
  exact congrArg (fun e => Except.ok (a.withIntegrand e)) hrename

/-- An application exchanges all functions of a form at once for the supplied ones. If no function
is supplied twice, rebinding every one to the function whose place it took gives the form back.
Applied to its own functions a form stays as it is. -/
theorem rebind_apply (a : BilinearForm κ) :
    (∀ tests trials b, a.apply tests trials = .ok b →
      (∃ σ, b = a.withIntegrand (a.integrand.mapFunctions σ) ∧
        a.testFunctions.map σ = tests ∧ a.trialFunctions.map σ = trials) ∧
      (tests.Nodup → trials.Nodup →
        b.rebind (tests.zip a.testFunctions ++ trials.zip a.trialFunctions) = .ok a)) ∧
    a.apply a.testFunctions a.trialFunctions = .ok a := by
  refine ⟨fun tests trials b h => ?_, a.apply_self⟩
  obtain ⟨pairs, hplaced, rfl⟩ := exists_placements h
  have hlength := (placements_eq_ok_iff.1 hplaced).1.2
  have hmap := map_renamed hplaced
  rw [List.map_append] at hmap
  refine ⟨⟨_, rfl, List.append_inj hmap (by rw [List.length_map, hlength])⟩,
    fun htests htrials => ?_⟩
  have hswap : tests.zip a.testFunctions ++ trials.zip a.trialFunctions = pairs.map Prod.swap := by
    rw [← (placements_eq_ok_iff.1 hplaced).2.2, List.map_append, List.zip_swap, List.zip_swap]
  rw [hswap]
  exact rebind_of_placements hplaced htests htrials

section Exchanged

def exchangeSpace : Space := ⟨"V", 0, 2, .vector 2⟩

def exchangeIntegrand (v w : Argument) : Expr Float :=
  .add (.generic .inner [.function ⟨"u", .trial, exchangeSpace⟩, .function v])
    (.mul (.component v 0) (.tuple [.component w 1, .component ⟨"u", .trial, exchangeSpace⟩ 0]))

def firstTest : Argument := ⟨"v", .test, exchangeSpace⟩

def secondTest : Argument := ⟨"w", .test, exchangeSpace⟩

def exchangeForm : BilinearForm Float where
  integrand := exchangeIntegrand firstTest secondTest
  spaces := ⟨some exchangeSpace, some exchangeSpace, by simp⟩

def exchangedForm : BilinearForm Float :=
  exchangeForm.withIntegrand (exchangeIntegrand secondTest firstTest)

theorem rebind_apply_exchanged :
    exchangeForm.testFunctions = [firstTest, secondTest] ∧
      exchangeForm.apply [secondTest, firstTest] exchangeForm.trialFunctions = .ok exchangedForm ∧
      [secondTest, firstTest].Nodup ∧ exchangeForm.trialFunctions.Nodup ∧
      exchangedForm.rebind ([secondTest, firstTest].zip exchangeForm.testFunctions ++
        exchangeForm.trialFunctions.zip exchangeForm.trialFunctions) = .ok exchangeForm := by
  have hfunctions : exchangeForm.integrand.functions = [⟨"u", .trial, exchangeSpace⟩,
      firstTest, secondTest] := by
    with_unfolding_all rfl
  have hlisted : exchangeForm.testFunctions = [firstTest, secondTest] := by
    rw [testFunctions, Expr.functionsOf, hfunctions]
    exact List.mergeSort_of_pairwise (by decide)
  have happly : exchangeForm.apply [secondTest, firstTest] exchangeForm.trialFunctions =
      .ok exchangedForm := by
    rw [apply_eq_map, placements, hlisted]
    with_unfolding_all rfl
  have htests : [secondTest, firstTest].Nodup := by decide
  have htrials : exchangeForm.trialFunctions.Nodup := Expr.nodup_functionsOf _ _
  exact ⟨hlisted, happly, htests, htrials,
    ((rebind_apply exchangeForm).1 _ _ _ happly).2 htests htrials⟩

end Exchanged

end BilinearForm

end VariationalForms
