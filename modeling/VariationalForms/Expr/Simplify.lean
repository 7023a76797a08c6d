import VariationalForms.Expr.Basic

/-! Light algebraic cleaning: numbers are folded, and zeros and ones that have no effect go.
The operands are cleaned first; the rules for one operation then see clean operands.
-/

set_option autoImplicit false

namespace VariationalForms

namespace Expr

variable {κ : Type}

section Zero

variable [Zero κ]

def isZero [BEq κ] : Expr κ → Bool
  | .number c => c == 0
  | _ => false

/-- The zero of the shape of `e`: as many zeros for a tuple, else the number. -/
def zeroLike : Expr κ → Expr κ
  | .tuple items => .tuple (items.map fun _ => .number 0)
  | _ => .number 0

theorem zeroLike_ne_arith {op : Arith} {e l r : Expr κ} : e.zeroLike ≠ arith op l r := by
  unfold zeroLike
  split <;> simp

end Zero

def isNumber : Expr κ → Bool
  | .number _ => true
  | _ => false

def isScaled : Expr κ → Bool
  | .mul l _ => l.isNumber
  | _ => false

theorem isNumber_eq_false {e : Expr κ} (h : ∀ c, e ≠ .number c) : e.isNumber = false := by
  unfold isNumber
  split
  case h_1 c => exact absurd rfl (h c)
  case h_2 => rfl

theorem isScaled_eq_false {e : Expr κ} (h : ∀ c x, e ≠ .mul (.number c) x) :
    e.isScaled = false := by
  unfold isScaled
  split
  case h_1 l x => exact isNumber_eq_false fun c hc => h c x (by rw [hc])
  case h_2 => rfl

section Tidy

variable [Zero κ] [One κ] [BEq κ]

def isOne : Expr κ → Bool
  | .number c => c == 1
  | _ => false

/-- Two numbers are folded, sums and differences have no zero operand, and the right factor of a
product is neither zero nor one, nor a number that could join one in front of the left factor. -/
def isTidy : Expr κ → Bool
  | .mul l r => !(l.isNumber && r.isNumber) && !r.isZero && !r.isOne && !(l.isScaled && r.isNumber)
  | .arith _ l r => !(l.isNumber && r.isNumber) && !l.isZero && !r.isZero
  | _ => true

def hasIdleFactor : Expr κ → Bool
  | .mul l _ => l.isZero || l.isOne
  | _ => false

omit [One κ] in
theorem isNumber_of_isZero {e : Expr κ} (h : e.isZero) : e.isNumber := by
  unfold isZero at h
  split at h
  case h_1 => rfl
  case h_2 => cases h

omit [Zero κ] in
theorem isNumber_of_isOne {e : Expr κ} (h : e.isOne) : e.isNumber := by
  unfold isOne at h
  split at h
  case h_1 => rfl
  case h_2 => cases h

omit [One κ] in
theorem isZero_eq_false {e : Expr κ} (h : e.isNumber = false) : e.isZero = false :=
  Bool.eq_false_iff.2 fun hzero => Bool.eq_false_iff.1 h (isNumber_of_isZero hzero)

omit [Zero κ] in
theorem isOne_eq_false {e : Expr κ} (h : e.isNumber = false) : e.isOne = false :=
  Bool.eq_false_iff.2 fun hone => Bool.eq_false_iff.1 h (isNumber_of_isOne hone)

end Tidy

variable [Zero κ] [One κ] [Neg κ] [Add κ] [Sub κ] [Mul κ] [BEq κ]

def cleanAdd : Expr κ → Expr κ → Expr κ
  | .number a, .number b => .number (a + b)
  | l, r => if l.isZero then r else if r.isZero then l else .add l r

def cleanSub : Expr κ → Expr κ → Expr κ
  | .number a, .number b => .number (a - b)
  | l, r => if r.isZero then l else if l.isZero then r.neg else .sub l r

def cleanMul : Expr κ → Expr κ → Expr κ
  | .number a, .number b => .number (a * b)
  | .number a, r =>
    if a == 0 then r.zeroLike else if a == 1 then r else .mul (.number a) r
  | l, .number b =>
    if b == 0 then l.zeroLike else if b == 1 then l else
      match l with
      | .mul (.number a) x => .mul (.number (a * b)) x
      | l => .mul l (.number b)
  | l, r => .mul l r

def cleanArith : Arith → Expr κ → Expr κ → Expr κ
  | .add => cleanAdd
  | .sub => cleanSub
  | .mul => cleanMul

/-- What becomes of an operation with clean operands, and when. -/
inductive CleansTo : Arith → Expr κ → Expr κ → Expr κ → Prop
  | folded (op : Arith) (a b : κ) : CleansTo op (.number a) (.number b) (.number (op.of a b))
  | zeroAdd {l r : Expr κ} (hl : l.isZero) : CleansTo .add l r r
  | addZero {l r : Expr κ} (hr : r.isZero) : CleansTo .add l r l
  | zeroSub {l r : Expr κ} (hl : l.isZero) (hr : r.isNumber = false) : CleansTo .sub l r r.neg
  | subZero {l r : Expr κ} (hr : r.isZero) : CleansTo .sub l r l
  | zeroMul {l r : Expr κ} (hl : l.isZero) : CleansTo .mul l r r.zeroLike
  | mulZero {l r : Expr κ} (hr : r.isZero) : CleansTo .mul l r l.zeroLike
  | oneMul {l r : Expr κ} (hl : l.isOne) (hzero : l.isZero = false) : CleansTo .mul l r r
  | mulOne {l r : Expr κ} (hr : r.isOne) (hzero : r.isZero = false) : CleansTo .mul l r l
  | joined (a : κ) (x : Expr κ) (b : κ) (hzero : (number b).isZero = false) :
    CleansTo .mul (.mul (.number a) x) (.number b) (.mul (.number (a * b)) x)
  | kept {op : Arith} {l r : Expr κ} (htidy : (arith op l r).isTidy)
    (hidle : (arith op l r).hasIdleFactor = false) : CleansTo op l r (.arith op l r)

omit [Neg κ] [Add κ] [Sub κ] [Mul κ] [Zero κ] [One κ] [BEq κ] in
theorem not_numbers {l r : Expr κ} (h : ∀ a b, l = .number a → r = .number b → False) :
    (l.isNumber && r.isNumber) = false := by
  by_cases hl : ∃ a, l = .number a
  · obtain ⟨a, rfl⟩ := hl
    rw [isNumber_eq_false fun b hb => h a b rfl hb, Bool.and_false]
  · rw [isNumber_eq_false fun a ha => hl ⟨a, ha⟩, Bool.false_and]

theorem cleansTo_cleanAdd (l r : Expr κ) : CleansTo .add l r (cleanAdd l r) := by
  unfold cleanAdd
  split
  case h_1 a b => exact .folded .add a b
  case h_2 h =>
    split
    case isTrue hl => exact .zeroAdd hl
    case isFalse hl =>
      split
      case isTrue hr => exact .addZero hr
      case isFalse hr => exact .kept (by simp [isTidy, not_numbers h, hl, hr]) rfl

theorem cleansTo_cleanSub (l r : Expr κ) : CleansTo .sub l r (cleanSub l r) := by
  unfold cleanSub
  split
  case h_1 a b => exact .folded .sub a b
  case h_2 h =>
    have hnot := not_numbers h
    split
    case isTrue hr => exact .subZero hr
    case isFalse hr =>
      split
      case isTrue hl =>
        rw [isNumber_of_isZero hl, Bool.true_and] at hnot
        exact .zeroSub hl hnot
      case isFalse hl => exact .kept (by simp [isTidy, hnot, hl, hr]) rfl

theorem cleansTo_cleanMul (l r : Expr κ) : CleansTo .mul l r (cleanMul l r) := by
  unfold cleanMul
  split
  case h_1 a b => exact .folded .mul a b
  case h_2 a h =>
    have hr : r.isNumber = false := isNumber_eq_false fun b hb => h b hb
    split
    case isTrue ha => exact .zeroMul ha
    case isFalse hzero =>
      split
      case isTrue hone => exact .oneMul hone (Bool.eq_false_iff.2 hzero)
      case isFalse hone =>
        refine .kept ?_ ?_
        · simp [isTidy, isZero_eq_false hr, isOne_eq_false hr, hr]
        · simp [hasIdleFactor, isZero, isOne, hzero, hone]
  case h_3 b h =>
    have hl : l.isNumber = false := isNumber_eq_false fun a ha => h a ha
    split
    case isTrue hb => exact .mulZero hb
    case isFalse hzero =>
      split
      case isTrue hone => exact .mulOne hone (Bool.eq_false_iff.2 hzero)
      case isFalse hone =>
        split
        case h_1 a x => exact .joined a x b (Bool.eq_false_iff.2 hzero)
        case h_2 h =>
          have hscaled : l.isScaled = false := isScaled_eq_false fun a x hx => h a x hx
          refine .kept ?_ ?_
          · simp [isTidy, isZero, isOne, hl, hzero, hone, hscaled]
          · simp [hasIdleFactor, isZero_eq_false hl, isOne_eq_false hl]
  case h_4 hl hr _ =>
    have hl : l.isNumber = false := isNumber_eq_false hl
    have hr : r.isNumber = false := isNumber_eq_false hr
    refine .kept ?_ ?_
    · simp [isTidy, isZero_eq_false hr, isOne_eq_false hr, hr]
    · simp [hasIdleFactor, isZero_eq_false hl, isOne_eq_false hl]

theorem cleansTo_cleanArith (op : Arith) (l r : Expr κ) : CleansTo op l r (cleanArith op l r) :=
  match op with
  | .add => cleansTo_cleanAdd l r
  | .sub => cleansTo_cleanSub l r
  | .mul => cleansTo_cleanMul l r

/-- Cleans every operation once, from the inside to the outside. -/
def simplify (e : Expr κ) : Expr κ := e.fold leaf cleanArith node

@[simp] theorem simplify_leaf (l : Leaf κ) : (leaf l).simplify = leaf l := rfl

@[simp] theorem simplify_arith (op : Arith) (l r : Expr κ) :
    (arith op l r).simplify = cleanArith op l.simplify r.simplify := rfl

@[simp] theorem simplify_node (h : Head) (args : List (Expr κ)) :
    (node h args).simplify = node h (args.map simplify) := by
  rw [simplify, fold_node]; rfl

end Expr

end VariationalForms
