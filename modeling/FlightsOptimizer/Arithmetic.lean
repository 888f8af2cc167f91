import Mathlib.Algebra.Field.Rat
import Mathlib.Data.List.Perm.Basic

/-!
# Numbers that are added up and divided

Sums and quotients as a program computes them: one addition after the other, in
the order in which the numbers come. Floating-point numbers round every sum and
quotient, so the order can make a difference; of exact numbers there is one sum.
-/
namespace FlightsOptimizer

/-- What a program does with its numbers. Nothing is assumed of the operations,
which may round. -/
class Arithmetic (F : Type) where
  zero : F
  add : F → F → F
  /-- The quotient by an amount that is a number of the format and not zero. -/
  quotient : F → ℕ → F
  /-- An amount beyond all finite numbers, which cannot be converted. -/
  tooLarge : ℕ → Bool
  greater : F → F → Bool

instance : Arithmetic ℚ where
  zero := 0
  add x y := x + y
  quotient x n := x / n
  tooLarge _ := false
  greater x y := y < x

namespace Arithmetic
variable {F : Type} [Arithmetic F]

def addUp (xs : List F) : F := xs.foldl add zero

/-- The division raises for an amount of zero and for one that is too large. -/
def divide (x : F) (n : ℕ) : Option F :=
  if n = 0 ∨ tooLarge F n = true then none else some (quotient x n)

/-- Python's `max`, which keeps the first of the greatest. -/
def greatest : (xs : List F) → xs ≠ [] → F
  | x :: xs,_ => xs.foldl (fun m y => if greater y m then y else m) x

instance : RightCommutative (add : ℚ → ℚ → ℚ) := ⟨fun x y z => add_right_comm x y z⟩

theorem foldl_add_rat (xs : List ℚ) (x : ℚ) : xs.foldl add x = x + xs.sum := by
  induction xs generalizing x with
  | nil => exact (add_zero x).symm
  | cons y xs ih =>
      rw [List.foldl_cons,ih,List.sum_cons]
      exact add_assoc x y xs.sum

theorem addUp_rat (xs : List ℚ) : addUp xs = xs.sum := (foldl_add_rat xs 0).trans (zero_add _)

theorem divide_rat (x : ℚ) (n : ℕ) : divide x n = if n = 0 then none else some (x / n) :=
  if_congr (or_iff_left Bool.false_ne_true) rfl rfl

theorem greater_rat (x y : ℚ) : (greater x y = true) = (y < x) := decide_eq_true_eq

theorem greatest_rat {xs : List ℚ} (hne : xs ≠ []) : greatest xs hne = xs.max hne := by
  have hmax : (fun m y : ℚ => if greater y m then y else m) = max := by
    funext m y
    simp only [greater_rat,max_def_lt]
  obtain ⟨x,xs,rfl⟩ := List.exists_cons_of_ne_nil hne
  exact congrArg (fun f => xs.foldl f x) hmax

end Arithmetic

end FlightsOptimizer
