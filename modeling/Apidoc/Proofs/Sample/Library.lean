import Apidoc.Proofs.Files.Tree
import Apidoc.Sample.Library

/-!
# `Apidoc.Proofs.Sample.Library`: what a lookup of a sample sees of the files

A lookup asks whether paths lead to files, and reads them. It searches no directory. So in
trees that hold the same everywhere it finds the same (`find_of_agree`), and a page that
shows samples does not depend on the order in which files were written.
-/

set_option autoImplicit false

namespace Apidoc.Sample.Library

open Apidoc.Files (Path Tree)
open Apidoc.Files.Tree (Agree)

variable {t t' : Tree}

/-- Looking below one root finds the same. The induction is on the number of segments that may
name the file. -/
theorem findBelow_of_agree (h : Agree t t') (l : Library) (segments : List String)
    (member : Option String) (root : Path) (length : Nat) :
    l.findBelow t' segments member root length = l.findBelow t segments member root length := by
  induction length with
  | zero => rfl
  | succ length ih =>
    rw [findBelow, findBelow, ih]
    refine congrArg _ (funext fun path => ?_)
    rw [h.isFile_eq, h.read_eq]

/-- Looking below several roots finds the same. -/
theorem findAmong_of_agree (h : Agree t t') (l : Library) (segments : List String)
    (member : Option String) (roots : List Path) :
    l.findAmong t' segments member roots = l.findAmong t segments member roots := by
  induction roots with
  | nil => rfl
  | cons root roots ih => rw [findAmong, findAmong, ih, findBelow_of_agree h]

/-- A lookup finds the same in trees that hold the same. -/
theorem find_of_agree (h : Agree t t') (l : Library) : l.find t' = l.find t := by
  funext name member
  exact findAmong_of_agree h l _ _ l.roots

end Apidoc.Sample.Library
