import Arws.Library.CString

/-!
# Where a path leads

A path is taken apart at its slashes, and its names are followed one by one: from the root or from the
working directory, into a directory, to its parent or nowhere else.  There are no links.

* `resolve` — the place a path leads to, as the names on the way from the root.
* `resolve_inside` — a path into a directory that goes to no parent stays in that directory.
-/

set_option autoImplicit false

namespace Paths

/-- The names on the way from the root. -/
abbrev Location := List Bytes

/-- The name of the parent. -/
def parent : Bytes := [46, 46]

/-- Where a name leads from a place. -/
def follow (place : Location) (name : Bytes) : Location :=
  if name = [] ∨ name = [46] then place
  else if name = parent then place.dropLast
  else place ++ [name]

/-- Where a path leads. -/
def resolve (cwd : Location) (path : Bytes) : Location :=
  (path.splitOn 47).foldl follow (if path.head? = some 47 then [] else cwd)

theorem isPrefix_follow {name : Bytes} (h : name ≠ parent) (place : Location) : place <+: follow place name := by
  rw [follow, if_neg h]
  split_ifs
  · exact List.prefix_rfl
  · exact List.prefix_append ..

/-- Names other than that of the parent lead further down. -/
theorem isPrefix_foldl_follow {names : List Bytes} (h : parent ∉ names) (place : Location) :
    place <+: names.foldl follow place := by
  induction names generalizing place with
  | nil => exact List.prefix_rfl
  | cons name names ih =>
    obtain ⟨hname, hnames⟩ := List.ne_and_not_mem_of_not_mem_cons h
    exact (isPrefix_follow hname.symm place).trans (ih hnames _)

theorem infix_of_mem_splitOn {path name : Bytes} (h : name ∈ path.splitOn 47) : name <:+: path := by
  obtain ⟨i, hi⟩ := List.mem_iff_getElem?.1 h
  have hmem : name ∈ (path.splitOn 47).intersperse [47] :=
    List.mem_of_getElem? (List.getElem?_intersperse_two_mul.trans hi)
  have hinfix : name <:+: [47].intercalate (path.splitOn 47) := List.infix_of_mem_flatten hmem
  rwa [List.intercalate_splitOn] at hinfix

/-- **A path into a directory** that goes to no parent stays there. -/
theorem resolve_inside {dir rest : Bytes} (hdir : 47 ∉ dir) (hempty : dir ≠ []) (hdot : dir ≠ [46])
    (h : ¬ parent <:+: dir ++ 47 :: rest) (cwd : Location) :
    cwd ++ [dir] <+: resolve cwd (dir ++ 47 :: rest) := by
  have hparent : parent ∉ (dir ++ 47 :: rest).splitOn 47 := fun hmem => h (infix_of_mem_splitOn hmem)
  have hhead : (dir ++ 47 :: rest).head? ≠ some 47 := by
    cases dir with
    | nil => exact absurd rfl hempty
    | cons c dir =>
      rintro ⟨⟩
      exact hdir List.mem_cons_self
  rw [resolve, if_neg hhead]
  rw [List.splitOn_append_cons_self_of_not_mem hdir] at hparent ⊢
  obtain ⟨hfirst, hrest⟩ := List.ne_and_not_mem_of_not_mem_cons hparent
  have hfollow : follow cwd dir = cwd ++ [dir] := by
    rw [follow, if_neg (not_or.2 ⟨hempty, hdot⟩), if_neg hfirst.symm]
  rw [List.foldl_cons, hfollow]
  exact isPrefix_foldl_follow hrest _

end Paths
