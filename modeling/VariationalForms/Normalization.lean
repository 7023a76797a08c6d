import VariationalForms.Expr.Simplify
import VariationalForms.Resolution

/-! Normal integrands: flat symbols in place of derivatives and functions.
A chain of derivatives becomes one symbol, named for what is derived and for the axes in alphabetical
order. A function of a space with a basis name becomes a symbol of that name.
-/

set_option autoImplicit false

namespace VariationalForms

variable {κ : Type}

structure BasisNames where
  entries : List (Space × String)
  deriving DecidableEq, Repr

namespace BasisNames

def empty : BasisNames := ⟨[]⟩

/-- A name that is given later takes the place of an earlier one. -/
def insert (names : BasisNames) (s : Space) (name : String) : BasisNames :=
  ⟨(s, name) :: names.entries⟩

def ofList (entries : List (Space × String)) : BasisNames :=
  entries.foldl (fun names e => names.insert e.1 e.2) empty

def find? (names : BasisNames) (s : Space) : Option String := names.entries.lookup s

def baseName (names : BasisNames) (f : Argument) : String := (names.find? f.space).getD f.name

theorem find?_insert (names : BasisNames) (s t : Space) (name : String) :
    (names.insert s name).find? t = if t = s then some name else names.find? t := by
  by_cases h : t = s
  · simp [find?, insert, h]
  · simp [find?, insert, List.lookup_cons, h, beq_false_of_ne h]

end BasisNames

namespace Expr

/-- The axes of a chain of derivatives, from the outside to the inside, and what it ends on. -/
def chain [NumberText κ] : Expr κ → Except Fault (List Axis × Expr κ)
  | .derivative a [e] => do
    let (axes, atom) ← e.chain
    return (a :: axes, atom)
  | .derivative a args => .error (.derivativeOperandCount args.length (derivative a args).text)
  | e => .ok ([], e)

def flatSymbol [NumberText κ] (names : BasisNames) (e : Expr κ) : Except Fault String := do
  let (axes, atom) ← e.chain
  let mark := "_" ++ String.join ((Axis.sort axes).map Axis.name)
  match atom with
  | .function f => return names.baseName f ++ mark
  | .component f i => return indexed (names.baseName f ++ mark) i
  | .field s => return s ++ mark
  | .symbol s => return s ++ mark
  | atom => throw (.derivativeOf atom.kind)

/-- Longer chains come first; chains of one length are in the order of their texts. -/
def longestFirst [NumberText κ] (d d' : Expr κ) : Bool :=
  d'.derivativeOrder < d.derivativeOrder ||
    (d.derivativeOrder == d'.derivativeOrder && (compare d.text d'.text).isLE)

def flatSymbols [NumberText κ] [BEq κ] (names : BasisNames) (e : Expr κ) :
    Except Fault (List (Expr κ × Expr κ)) :=
  (e.derivatives.mergeSort longestFirst).eraseDups.mapM fun d => do
    return (d, .symbol (← d.flatSymbol names))

/-- The symbols for the functions of spaces with a basis name, and for their components. -/
def basisSymbols (names : BasisNames) (e : Expr κ) : List (Expr κ × Expr κ) :=
  e.functions.flatMap fun f =>
    match names.find? f.space with
    | none => []
    | some name =>
      (List.range (f.space.shape?.getD 0)).map
          (fun i => (.component f i, .symbol (indexed name i))) ++
        [(.function f, .symbol name)]

/-- Puts flat symbols first for derivatives and then for functions. -/
def flatten [NumberText κ] [BEq κ] (names : BasisNames) (e : Expr κ) :
    Except Fault (Expr κ) := do
  let flat := e.substituteAll (← e.flatSymbols names)
  return flat.substituteAll (flat.basisSymbols names)

end Expr

/-- How to normalize: what counts as a coefficient, the basis names, and whether the outcome is
simplified. -/
structure Normalization where
  coefficients : Coefficients
  names : BasisNames
  simplify : Bool
  deriving DecidableEq, Repr

namespace Normalization

variable [Zero κ] [One κ] [Neg κ] [Add κ] [Sub κ] [Mul κ] [BEq κ] [NumberText κ]

def flatten (n : Normalization) (e : Expr κ) : Except Fault (Expr κ) := do
  let flat ← e.flatten n.names
  return if n.simplify then flat.simplify else flat

/-- Normalizes one term, resolved in its own dimension if it has generic operators. -/
def term (n : Normalization) (e : Expr κ) : Except Fault (Expr κ) := do
  n.flatten (← if e.containsGeneric then e.resolve n.coefficients else .ok e)

def expr (n : Normalization) (e : Expr κ) : Except Fault (Expr κ) :=
  n.coefficients.distribute n.term e

def form (n : Normalization) : WeakForm κ → Except Fault (WeakForm κ)
  | .bilinear a => do
    let resolved ← a.resolve n.coefficients
    return .bilinear (resolved.withIntegrand (← n.flatten resolved.integrand))
  | .linear _ => .error .linearNormalization
  | .raw e => do
    e.rejectLeaf
    return .raw (← n.expr e)

end Normalization

end VariationalForms
