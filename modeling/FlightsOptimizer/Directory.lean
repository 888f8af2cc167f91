import Mathlib.Data.List.Perm.Basic
import Mathlib.Logic.Function.Basic
import FlightsOptimizer.Text

/-!
# A directory of text files

Files by their names. A listing has the names in any order.
-/
namespace FlightsOptimizer

abbrev Directory := Text → Option Text

namespace Directory
variable {d d' : Directory} {name other text : Text} {names : List Text}

def empty : Directory := fun _ => none

/-- What is written to a file that is opened to append. -/
def append (name text : Text) (d : Directory) : Directory :=
  Function.update d name (some ((d name).getD [] ++ text))

def remove (name : Text) (d : Directory) : Directory := Function.update d name none

structure Lists (d : Directory) (names : List Text) : Prop where
  nodup : names.Nodup
  mem : ∀ name, name ∈ names ↔ (d name).isSome = true

/-- Two directories have the same files of one kind. -/
def AgreeOn (kind : Text → Prop) (d d' : Directory) : Prop := ∀ name, kind name → d name = d' name

theorem append_self : append name text d name = some ((d name).getD [] ++ text) :=
  Function.update_self ..

theorem append_of_ne (h : other ≠ name) : append name text d other = d other :=
  Function.update_of_ne h ..

theorem append_new (h : d name = none) : append name text d name = some text := by
  rw [append_self,h]
  rfl

theorem remove_self : remove name d name = none := Function.update_self ..

theorem remove_of_ne (h : other ≠ name) : remove name d other = d other := Function.update_of_ne h ..

theorem AgreeOn.trans {kind : Text → Prop} {e : Directory} (h : AgreeOn kind d d')
    (h' : AgreeOn kind d' e) : AgreeOn kind d e :=
  fun name hname => (h name hname).trans (h' name hname)

end Directory
end FlightsOptimizer
