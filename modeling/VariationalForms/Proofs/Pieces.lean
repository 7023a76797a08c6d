import Mathlib.Algebra.BigOperators.Group.List.Basic
import Mathlib.Algebra.Ring.Int.Defs
import Mathlib.Data.List.Infix
import VariationalForms.Proofs.Arrangement
import VariationalForms.Proofs.Listing
import VariationalForms.Proofs.Walk

/-! Products and sums taken apart.
The pieces of an integrand are what is found when its outermost products, or its outermost sums and
differences, are opened for as long as there are any. Factors and terms are the pieces from left to
right, a term has changed its sign once for every difference that it stands on the right of, and
the product of the factors and the signed sum of the terms are worth what the integrand is worth
(`Expr.taken_apart_faithfully`).
-/

set_option autoImplicit false

namespace VariationalForms

universe u

variable {κ : Type}

namespace Sign

variable {R : Type u} [Ring R]

def value : Sign → R
  | plus => 1
  | minus => -1

@[simp] theorem value_plus : (value plus : R) = 1 := rfl

@[simp] theorem value_flip (s : Sign) : (s.flip.value : R) = -s.value := by
  cases s
  · rfl
  · exact (neg_neg 1).symm

end Sign

namespace Expr

def isSum : Expr κ → Bool
  | .add _ _ => true
  | .sub _ _ => true
  | _ => false

def isDifference : Expr κ → Bool
  | .sub _ _ => true
  | _ => false

/-- An address leads to a piece when every node above it is opened and the node there is not. -/
structure IsPiece (opens : Expr κ → Bool) (e : Expr κ) (p : List Nat) : Prop where
  above : ∀ q, q <+: p → q ≠ p → (e.nodeAt? q).any opens
  there : (e.nodeAt? p).any (! opens ·)

/-- The addresses of all pieces, from left to right. Only one list has them. -/
structure LeadToPieces (opens : Expr κ → Bool) (e : Expr κ) (ps : List (List Nat)) : Prop where
  ascending : ps.Pairwise (· < ·)
  mem_iff : ∀ p, p ∈ ps ↔ e.IsPiece opens p

def subtractions (e : Expr κ) (p : List Nat) : Nat :=
  p.inits.countP fun q => (e.nodeAt? q).any isDifference && (q ++ [1]).isPrefixOf p

/-- What an address leads to. Its sign is changed by every difference that it is on the right of. -/
def signedAt (e : Expr κ) (p : List Nat) : Sign × Option (Expr κ) :=
  (Sign.flip^[e.subtractions p] .plus, e.nodeAt? p)

section Addresses

variable {opens : Expr κ → Bool} {e c : Expr κ} {i : Nat} {p : List Nat}

theorem isPiece_nil_iff : e.IsPiece opens [] ↔ opens e = false := by
  refine ⟨fun h => by simpa [nodeAt?] using h.there, fun h => ⟨fun q hq hne => ?_, ?_⟩⟩
  · exact absurd (List.prefix_nil.1 hq) hne
  · simpa [nodeAt?] using h

theorem isPiece_cons_iff : e.IsPiece opens (i :: p) ↔
    opens e ∧ ∃ c, e.children[i]? = some c ∧ c.IsPiece opens p := by
  constructor
  · intro ⟨habove, hthere⟩
    have hopens : opens e := by simpa [nodeAt?] using habove [] List.nil_prefix (by simp)
    cases hc : e.children[i]? with
    | none => simp [nodeAt?, hc] at hthere
    | some c =>
      refine ⟨hopens, c, rfl, fun q hq hne => ?_, by simpa [nodeAt?, hc] using hthere⟩
      have h := habove (i :: q) (List.cons_prefix_cons.2 ⟨rfl, hq⟩) (by simpa using hne)
      simpa [nodeAt?, hc] using h
  · rintro ⟨hopens, c, hc, habove, hthere⟩
    refine ⟨fun q hq hne => ?_, by simpa [nodeAt?, hc] using hthere⟩
    cases q with
    | nil => simpa [nodeAt?] using hopens
    | cons j q =>
      obtain ⟨rfl, hqp⟩ := List.cons_prefix_cons.1 hq
      simpa [nodeAt?, hc] using habove q hqp fun h => hne (by rw [h])

theorem pairwise_map_cons {ps : List (List Nat)} (h : ps.Pairwise (· < ·)) (i : Nat) :
    (ps.map (i :: ·)).Pairwise (· < ·) :=
  List.pairwise_map.2 (h.imp fun hlt => List.cons_lt_cons_iff.2 (.inr ⟨rfl, hlt⟩))

theorem LeadToPieces.iff_eq {ps qs : List (List Nat)} (hps : LeadToPieces opens e ps) :
    LeadToPieces opens e qs ↔ qs = ps := by
  refine ⟨fun hqs => ?_, fun h => h ▸ hps⟩
  exact eq_of_pairwise_of_mem_iff (fun _ _ => List.lt_asymm) hqs.ascending hps.ascending
    fun p => (hqs.mem_iff p).trans (hps.mem_iff p).symm

theorem leadToPieces_closed (h : opens e = false) : LeadToPieces opens e [[]] := by
  refine ⟨List.pairwise_singleton .., fun p => ?_⟩
  cases p with
  | nil => simpa [isPiece_nil_iff] using h
  | cons i p => simp [isPiece_cons_iff, h]

theorem leadToPieces_arith {op : Arith} {l r : Expr κ} {ps qs : List (List Nat)}
    (h : opens (.arith op l r)) (hl : LeadToPieces opens l ps) (hr : LeadToPieces opens r qs) :
    LeadToPieces opens (.arith op l r) (ps.map (0 :: ·) ++ qs.map (1 :: ·)) := by
  constructor
  · refine List.pairwise_append.2
      ⟨pairwise_map_cons hl.ascending 0, pairwise_map_cons hr.ascending 1, fun p hp q hq => ?_⟩
    obtain ⟨p, -, rfl⟩ := List.mem_map.1 hp
    obtain ⟨q, -, rfl⟩ := List.mem_map.1 hq
    exact List.cons_lt_cons_iff.2 (.inl Nat.zero_lt_one)
  · intro p
    match p with
    | [] => simp [isPiece_nil_iff, h]
    | 0 :: p => simp [isPiece_cons_iff, children, h, hl.mem_iff]
    | 1 :: p => simp [isPiece_cons_iff, children, h, hr.mem_iff]
    | (_ + 2) :: p => simp [isPiece_cons_iff, children]

theorem subtractions_nil (e : Expr κ) : e.subtractions [] = 0 := by
  simp [subtractions]

theorem subtractions_cons (hc : e.children[i]? = some c) (p : List Nat) :
    e.subtractions (i :: p) = c.subtractions p + if e.isDifference && 1 == i then 1 else 0 := by
  simp [subtractions, List.countP_cons, List.countP_map, Function.comp_def, nodeAt?, hc]

theorem signedAt_nil (e : Expr κ) : e.signedAt [] = (.plus, some e) := by
  rw [signedAt, subtractions_nil]
  rfl

theorem signedAt_cons (hc : e.children[i]? = some c) (p : List Nat) :
    e.signedAt (i :: p) =
      (if e.isDifference && 1 == i then (c.signedAt p).1.flip else (c.signedAt p).1,
        (c.signedAt p).2) := by
  rw [signedAt, subtractions_cons hc, nodeAt?, hc]
  split
  · rw [Function.iterate_succ_apply']
    rfl
  · rfl

theorem map_signedAt_arith (op : Arith) (l r : Expr κ) (ps qs : List (List Nat)) :
    (ps.map (0 :: ·) ++ qs.map (1 :: ·)).map (arith op l r).signedAt =
      ps.map l.signedAt ++ (qs.map r.signedAt).map fun t =>
        (if (arith op l r).isDifference then t.1.flip else t.1, t.2) := by
  have hleft : ∀ p, (arith op l r).signedAt (0 :: p) = l.signedAt p := by
    intro p
    rw [signedAt_cons (c := l) rfl]
    simp
  have hright : ∀ p, (arith op l r).signedAt (1 :: p) =
      (if (arith op l r).isDifference then (r.signedAt p).1.flip else (r.signedAt p).1,
        (r.signedAt p).2) := by
    intro p
    rw [signedAt_cons (c := r) rfl]
    simp
  simp [Function.comp_def, hleft, hright]

end Addresses

section Factors

theorem factors_of_product? {es : List (Expr κ)} {p : Expr κ} (h : product? es = some p) :
    p.factors = es.flatMap factors := by
  have hfold : ∀ (es : List (Expr κ)) (e : Expr κ),
      (es.foldl mul e).factors = e.factors ++ es.flatMap factors := by
    intro es
    induction es with
    | nil => simp
    | cons e' es ih =>
      intro e
      rw [List.foldl_cons, ih, factors, List.flatMap_cons, List.append_assoc]
  cases es with
  | nil => cases h
  | cons e es =>
    cases h
    exact hfold es e

/-- Expressions are the factors of their product when there are any and no product is among them. -/
theorem map_factors_product?_iff {es : List (Expr κ)} :
    (product? es).map factors = some es ↔ es ≠ [] ∧ ∀ f ∈ es, f.isProduct = false := by
  constructor
  · intro h
    obtain ⟨p, hp, hfactors⟩ := Option.map_eq_some_iff.1 h
    refine ⟨?_, fun f hf => isProduct_of_mem_factors (e := p) (hfactors ▸ hf)⟩
    rintro rfl
    cases hp
  · rintro ⟨hne, hes⟩
    obtain ⟨p, hp⟩ := Option.ne_none_iff_exists'.1 (mt product?_eq_none_iff.1 hne)
    have hsingle : es.flatMap factors = es.flatMap fun f => [f] :=
      List.flatMap_congr fun f hf => factors_of_not_isProduct (hes f hf)
    rw [hp, Option.map_some, factors_of_product? hp, hsingle, List.flatMap_singleton']

theorem exists_addresses_factors (e : Expr κ) :
    ∃ ps, LeadToPieces isProduct e ps ∧ ps.map e.nodeAt? = e.factors.map some := by
  fun_induction factors e with
  | case1 l r hl hr =>
    obtain ⟨ps, hps, hl⟩ := hl
    obtain ⟨qs, hqs, hr⟩ := hr
    refine ⟨_, leadToPieces_arith rfl hps hqs, ?_⟩
    rw [List.map_append, List.map_append, ← hl, ← hr, List.map_map, List.map_map]
    rfl
  | case2 e h =>
    have hself : e ∈ e.factors := by simp [factors]
    exact ⟨[[]], leadToPieces_closed (isProduct_of_mem_factors hself), rfl⟩

end Factors

section Terms

theorem isSum_eq_false {e : Expr κ} (hadd : ∀ l r, e ≠ add l r) (hsub : ∀ l r, e ≠ sub l r) :
    e.isSum = false := by
  unfold isSum
  split
  · exact absurd rfl (hadd _ _)
  · exact absurd rfl (hsub _ _)
  · rfl

theorem isSum_of_mem_terms (e : Expr κ) : ∀ t ∈ e.terms, t.2.isSum = false := by
  fun_induction terms e with
  | case1 l r hl hr => exact List.forall_mem_append.2 ⟨hl, hr⟩
  | case2 l r hl hr => exact List.forall_mem_append.2 ⟨hl, List.forall_mem_map.2 hr⟩
  | case3 e hadd hsub => exact List.forall_mem_singleton.2 (isSum_eq_false hadd hsub)

theorem exists_addresses_terms (e : Expr κ) :
    ∃ ps, LeadToPieces isSum e ps ∧ ps.map e.signedAt = e.terms.map fun t => (t.1, some t.2) := by
  fun_induction terms e with
  | case1 l r hl hr =>
    obtain ⟨ps, hps, hl⟩ := hl
    obtain ⟨qs, hqs, hr⟩ := hr
    refine ⟨_, leadToPieces_arith rfl hps hqs, ?_⟩
    rw [map_signedAt_arith, hl, hr, List.map_append, List.map_map]
    rfl
  | case2 l r hl hr =>
    obtain ⟨ps, hps, hl⟩ := hl
    obtain ⟨qs, hqs, hr⟩ := hr
    refine ⟨_, leadToPieces_arith rfl hps hqs, ?_⟩
    rw [map_signedAt_arith, hl, hr, List.map_append, List.map_map, List.map_map]
    rfl
  | case3 e hadd hsub =>
    refine ⟨[[]], leadToPieces_closed (isSum_eq_false hadd hsub), ?_⟩
    rw [List.map_singleton, signedAt_nil]
    rfl

end Terms

end Expr

namespace IsEvaluation

variable {R : Type u} [Ring R] {v : Expr κ → R}

theorem sum_terms (hv : IsEvaluation v) (e : Expr κ) :
    (e.terms.map fun t => t.1.value * v t.2).sum = v e := by
  fun_induction Expr.terms e with
  | case1 l r hl hr => rw [List.map_append, List.sum_append, hl, hr, hv.add]
  | case2 l r hl hr =>
    have hflip : ((r.terms.map fun t => (t.1.flip, t.2)).map fun t => t.1.value * v t.2) =
        (r.terms.map fun t => t.1.value * v t.2).map Neg.neg := by
      simp [Function.comp_def]
    rw [List.map_append, List.sum_append, hl, hflip, ← List.sum_neg, hr, hv.sub, sub_eq_add_neg]
  | case3 e hadd hsub => simp

end IsEvaluation

namespace Expr

/-- Factors and terms are the pieces of an integrand from left to right. There is one factor at
least, none is a product, and expressions are the factors of their product unless a product is among
them. No term is a sum or a difference, and each has the sign that comes of the differences whose
right-hand side it is in. In every commutative ring the product of the factors and the signed sum of
the terms have the value of the integrand. -/
theorem taken_apart_faithfully (e : Expr κ) :
    (e.factors ≠ [] ∧ (∀ f ∈ e.factors, f.isProduct = false) ∧
      ∃ ps, (∀ qs, LeadToPieces isProduct e qs ↔ qs = ps) ∧
        ps.map e.nodeAt? = e.factors.map some) ∧
    (∀ es : List (Expr κ), (product? es).map factors = some es ↔
      es ≠ [] ∧ ∀ f ∈ es, f.isProduct = false) ∧
    ((∀ t ∈ e.terms, t.2.isSum = false) ∧
      ∃ ps, (∀ qs, LeadToPieces isSum e qs ↔ qs = ps) ∧
        ps.map e.signedAt = e.terms.map fun t => (t.1, some t.2)) ∧
    ∀ {R : Type u} [CommRing R] {v : Expr κ → R}, IsEvaluation v →
      (e.factors.map v).prod = v e ∧ (e.terms.map fun t => t.1.value * v t.2).sum = v e := by
  obtain ⟨ps, hps, hfactors⟩ := e.exists_addresses_factors
  obtain ⟨qs, hqs, hterms⟩ := e.exists_addresses_terms
  refine ⟨⟨e.factors_ne_nil, fun _ => isProduct_of_mem_factors, ps, fun _ => hps.iff_eq, hfactors⟩,
    fun _ => map_factors_product?_iff,
    ⟨e.isSum_of_mem_terms, qs, fun _ => hqs.iff_eq, hterms⟩, fun hv => ?_⟩
  exact ⟨hv.prod_factors e, hv.sum_terms e⟩

section Balance

def fluxFactors : List (Expr ℤ) :=
  [.number 2, .sub (.field "p") (.constant "k"), .symbol "u"]

def balance : Expr ℤ :=
  .sub (.symbol "f") (.sub
    (.mul (.number 2) (.mul (.sub (.field "p") (.constant "k")) (.symbol "u")))
    (.add (.constant "k") (.sub (.symbol "u") (.field "p"))))

def balanceAddresses : List (List Nat) := [[0], [1, 0], [1, 1, 0], [1, 1, 1, 0], [1, 1, 1, 1]]

def tally : Reading ℤ ℤ where
  leaf
    | .number c => c
    | .symbol s => if s = "u" then 3 else 11
    | .field _ => 5
    | .constant _ => 7
    | _ => 0
  node _ values := values.sum

theorem taken_apart_faithfully_balance :
    (fluxFactors ≠ [] ∧ ∀ f ∈ fluxFactors, f.isProduct = false) ∧
      (product? fluxFactors).map factors = some fluxFactors ∧
      LeadToPieces isSum balance balanceAddresses ∧
      balanceAddresses.map balance.signedAt = balance.terms.map (fun t => (t.1, some t.2)) ∧
      IsEvaluation tally.value ∧ tally.value balance = 28 ∧
      (balance.terms.map fun t => t.1.value * tally.value t.2).sum = 28 := by
  have hflux : fluxFactors ≠ [] ∧ ∀ f ∈ fluxFactors, f.isProduct = false := by
    simp [fluxFactors, isProduct]
  have hclosed : ∀ {e : Expr ℤ}, e.isSum = false → LeadToPieces isSum e [[]] :=
    leadToPieces_closed
  have hpieces : LeadToPieces isSum balance balanceAddresses :=
    leadToPieces_arith rfl (hclosed rfl) (leadToPieces_arith rfl (hclosed rfl)
      (leadToPieces_arith rfl (hclosed rfl) (leadToPieces_arith rfl (hclosed rfl) (hclosed rfl))))
  have hvalue : tally.value balance = 28 := rfl
  obtain ⟨-, hproduct, ⟨-, ps, hps, hterms⟩, hworth⟩ := taken_apart_faithfully balance
  obtain rfl : balanceAddresses = ps := (hps _).1 hpieces
  exact ⟨hflux, (hproduct fluxFactors).2 hflux, hpieces, hterms, tally.isEvaluation, hvalue,
    (hworth tally.isEvaluation).2.trans hvalue⟩

end Balance

end Expr

end VariationalForms
