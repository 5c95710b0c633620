import DeployCore.Lib.Directory

/-! # Names and inodes

One directory whose names stand for inodes, several for one where a file has been linked, and what the inodes hold.
A new inode has a number that none has had. -/

namespace Links

structure Dir (κ ν : Type) where
  entries : List (κ × Nat)
  nodes : List ν
  deriving DecidableEq

namespace Dir
variable {κ ν : Type} {d : Dir κ ν} {name name' : κ} {ino ino' : Nat} {node : ν} {f : ν → ν}

/-- The directory with what an inode holds changed. -/
def modify (d : Dir κ ν) (ino : Nat) (f : ν → ν) : Dir κ ν := { d with nodes := d.nodes.modify ino f }

@[simp] theorem length_modify : (d.modify ino f).nodes.length = d.nodes.length := List.length_modify ..

theorem nodes_modify_ne (h : ino' ≠ ino) : (d.modify ino f).nodes[ino']? = d.nodes[ino']? :=
  List.getElem?_modify_ne f d.nodes (Ne.symm h)

theorem nodes_modify_self (h : d.nodes[ino]? = some node) : (d.modify ino f).nodes[ino]? = some (f node) := by
  rw [modify, List.getElem?_modify_eq, h]
  rfl

variable [DecidableEq κ]

def find (d : Dir κ ν) (name : κ) : Option Nat := Directory.find d.entries name

/-- The directory with a new inode under a name. -/
def create (d : Dir κ ν) (name : κ) (node : ν) : Dir κ ν :=
  ⟨Directory.put d.entries name d.nodes.length, d.nodes ++ [node]⟩

/-- The directory with a name given to an inode. -/
def link (d : Dir κ ν) (name : κ) (ino : Nat) : Dir κ ν := { d with entries := Directory.put d.entries name ino }

def unlink (d : Dir κ ν) (name : κ) : Dir κ ν := { d with entries := Directory.erase d.entries name }

@[simp] theorem find_modify : (d.modify ino f).find name = d.find name := rfl

@[simp] theorem find_create_self : (d.create name node).find name = some d.nodes.length := Directory.find_put_self

theorem find_create_ne (h : name' ≠ name) : (d.create name node).find name' = d.find name' :=
  Directory.find_put_ne h

theorem nodes_create (h : ino < d.nodes.length) : (d.create name node).nodes[ino]? = d.nodes[ino]? :=
  List.getElem?_append_left h

@[simp] theorem nodes_create_new : (d.create name node).nodes[d.nodes.length]? = some node := List.getElem?_concat_length

@[simp] theorem length_create : (d.create name node).nodes.length = d.nodes.length + 1 := List.length_append

@[simp] theorem find_link_self : (d.link name ino).find name = some ino := Directory.find_put_self

theorem find_link_ne (h : name' ≠ name) : (d.link name ino).find name' = d.find name' := Directory.find_put_ne h

@[simp] theorem nodes_link : (d.link name ino).nodes = d.nodes := rfl

@[simp] theorem find_unlink_self : (d.unlink name).find name = none := Directory.find_erase_self

theorem find_unlink_ne (h : name' ≠ name) : (d.unlink name).find name' = d.find name' := Directory.find_erase_ne h

@[simp] theorem nodes_unlink : (d.unlink name).nodes = d.nodes := rfl

end Dir

end Links
