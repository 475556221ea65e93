import Mathlib.Logic.Function.Basic

namespace Dhttp.Lib
set_option autoImplicit true

/-- What a path names: a file, a symbolic link, dangling or not, or a directory with named
entries. -/
inductive FileTree (N B : Type) where
  | file (bytes : List B)
  | link (target : List N)
  | dir (entries : List (N × FileTree N B))

abbrev Disk (P N B : Type) := P → Option (FileTree N B)

section Trees
variable {N B : Type}

namespace FileTree

/-- A rename replaces an empty directory by a directory, and what is no directory by what is none
either. -/
def replaces : FileTree N B → Option (FileTree N B) → Bool
  | _, none => true
  | dir _, some (dir []) => true
  | dir _, _ => false
  | _, some (dir _) => false
  | _, _ => true

/-- What a read can give. What stands behind a link is not known here. -/
inductive Reads : FileTree N B → List B → Prop
  | file : Reads (.file bytes) bytes
  | link : Reads (.link target) bytes

/-- One entry of the tree is removed: a file, a link, or a directory that is empty by now. -/
inductive Removes : FileTree N B → Option (FileTree N B) → Prop
  | file : Removes (.file bytes) none
  | link : Removes (.link target) none
  | dir : Removes (.dir []) none
  | entry (h : Removes tree tree') :
    Removes (.dir (before ++ (name, tree) :: after))
      (some (.dir (before ++ tree'.toList.map (name, ·) ++ after)))

variable [DecidableEq N]

/-- A new file in a directory; it is an error if the name is taken. -/
def create (name : N) : FileTree N B → Option (FileTree N B)
  | file _ | link _ => none
  | dir entries =>
    if ∀ entry ∈ entries, entry.1 ≠ name then some (dir (entries ++ [(name, file [])])) else none

/-- The contents of a file of a directory. -/
def write (name : N) (bytes : List B) : FileTree N B → FileTree N B
  | file old => file old
  | link target => link target
  | dir entries =>
    dir (entries.map fun entry => if entry.1 = name then (name, file bytes) else entry)

end FileTree

end Trees

section Disks
variable {P N B : Type} [DecidableEq P] {disk disk' : Disk P N B}

namespace Disk

/-- An atomic rename of what a path names. -/
def rename (disk : Disk P N B) (source target : P) : Option (Disk P N B) :=
  match disk source with
  | none => none
  | some tree =>
    if tree.replaces (disk target) then
      some (Function.update (Function.update disk source none) target (some tree))
    else none

theorem rename_target (h : rename disk source target = some disk') :
    disk' target = disk source := by
  rw [rename] at h
  split at h
  · cases h
  · split at h
    · cases h
      rw [Function.update_self]
      exact Eq.symm ‹_›
    · cases h

theorem rename_of_ne (h : rename disk source target = some disk') (hs : path ≠ source)
    (ht : path ≠ target) : disk' path = disk path := by
  rw [rename] at h
  split at h
  · cases h
  · split at h
    · cases h
      rw [Function.update_of_ne ht, Function.update_of_ne hs]
    · cases h

theorem rename_source (h : rename disk source target = some disk') (hn : source ≠ target) :
    disk' source = none := by
  rw [rename] at h
  split at h
  · cases h
  · split at h
    · cases h
      rw [Function.update_of_ne hn, Function.update_self]
    · cases h

end Disk

end Disks

end Dhttp.Lib
