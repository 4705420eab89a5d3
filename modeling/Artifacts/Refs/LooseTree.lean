import Artifacts.Refs.Listing
import Mathlib.Algebra.GroupWithZero.Nat

/-!
# The loose tree

The directory `refs/` as the file system has it: names are bytes, and a directory lists
its entries in any order.  `walk` is the loop of `enumerate_refs` over a stack of
directories; it comes upon every file once.  The name that the loop makes of a path,
`refName`, leaves out the components that are not UTF-8, and is the path itself for the
others.

`Dir.distinct` says that no directory lists a name twice.  Symbolic links
among the directories are left out.
-/

namespace Artifacts
namespace Refs

open Rust

/-- The name of a directory entry: bytes without slash and NUL, neither `.` nor `..`. -/
structure FileName where
  bytes : List UInt8
  valid : bytes ≠ [] ∧ bytes ≠ [46] ∧ bytes ≠ [46, 46] ∧ 47 ∉ bytes ∧ 0 ∉ bytes
  deriving DecidableEq

/-- A path below `refs/`. -/
abbrev Path := List FileName

/-- A directory, entry by entry in the order in which `read_dir` gives them.  A file
without contents cannot be read. -/
inductive Dir where
  | empty
  | file (name : FileName) (contents : Option (List UInt8)) (rest : Dir)
  | dir (name : FileName) (entries rest : Dir)

/-- A file, by its path. -/
abbrev LooseFile := Path × Option (List UInt8)

namespace Dir

/-- The names of the entries. -/
def names : Dir → List FileName
  | empty => []
  | file name _ rest => name :: rest.names
  | dir name _ rest => name :: rest.names

/-- No directory lists a name twice. -/
def distinct : Dir → Bool
  | empty => true
  | file name _ rest => !rest.names.contains name && rest.distinct
  | dir name entries rest => !rest.names.contains name && entries.distinct && rest.distinct

theorem distinct_empty : Dir.empty.distinct = true := rfl

/-- The files of a directory and of the directories below it. -/
def files : Dir → List LooseFile
  | empty => []
  | file name contents rest => ([name], contents) :: rest.files
  | dir name entries rest => entries.files.map (fun f => (name :: f.1, f.2)) ++ rest.files

/-- The files that a directory lists itself. -/
def here (path : Path) : Dir → List LooseFile
  | empty => []
  | file name contents rest => (path ++ [name], contents) :: rest.here path
  | dir _ _ rest => rest.here path

/-- The directories that a directory lists itself. -/
def subdirs (path : Path) : Dir → List (Path × Dir)
  | empty => []
  | file _ _ rest => rest.subdirs path
  | dir name entries rest => (path ++ [name], entries) :: rest.subdirs path

/-- The number of directories, itself counted. -/
def size : Dir → Nat
  | empty => 1
  | file _ _ rest => rest.size
  | dir _ entries rest => entries.size + rest.size

end Dir

/-- The loop of the walk: a directory is popped, its files are handled and its directories
pushed.  Each round pops one directory. -/
def walkStack : Nat → List (Path × Dir) → List LooseFile
  | 0, _ => []
  | _ + 1, [] => []
  | fuel + 1, (path, d) :: stack =>
      d.here path ++ walkStack fuel ((d.subdirs path).reverse ++ stack)

/-- The files in the order in which the walk comes upon them. -/
def Dir.walk (d : Dir) : List LooseFile := walkStack d.size [([], d)]

/-- The ref name that `enumerate_refs` makes of a path. -/
def refName (path : Path) : String :=
  "/".intercalate ("refs" :: path.filterMap fun name => fromUtf8 name.bytes)

/-- The path itself, in bytes. -/
def fullPath (path : Path) : List UInt8 :=
  [47].intercalate (asBytes "refs" :: path.map FileName.bytes)

/-- The files of a bare repository that its refs are read from. -/
structure RefFiles where
  head : Option (List UInt8)
  packed : Option String
  tree : Dir
  distinct : tree.distinct = true

/-- What `read_to_string` makes of the contents of a file. -/
def readContents : Option (List UInt8) → Except String String
  | none => .error "No such file or directory (os error 2)"
  | some bytes =>
      match fromUtf8 bytes with
      | none => .error "stream did not contain valid UTF-8"
      | some s => .ok s

theorem readContents_asBytes (s : String) : readContents (some (asBytes s)) = .ok s := by
  simp [readContents, fromUtf8_asBytes]

/-- The file at a path that has no empty component and none of dots. -/
def RefFiles.fileAt (files : RefFiles) (path : String) : Option (List UInt8) :=
  (files.tree.walk.find? fun f => fullPath f.1 == asBytes path).bind Prod.snd

/-- The repository as the two readers see it. -/
def RefFiles.gitDir (files : RefFiles) : GitDir where
  readToString path :=
    if path = "HEAD" then readContents files.head
    else if path = "packed-refs" then readContents (files.packed.map asBytes)
    else readContents (files.fileAt path)
  walk := files.tree.walk.map fun f => (refName f.1, (readContents f.2).toOption)

/-! ### The walk comes upon every file once -/

/-- The files of a directory at a path. -/
def Dir.under (path : Path) (d : Dir) : List LooseFile :=
  d.files.map fun f => (path ++ f.1, f.2)

theorem Dir.under_perm (path : Path) (d : Dir) :
    (d.under path).Perm (d.here path ++ (d.subdirs path).flatMap fun s => s.2.under s.1) := by
  induction d with
  | empty => exact List.Perm.refl _
  | file name contents rest ih => exact ih.cons _
  | dir name entries rest _ ih =>
      have hsplit : (Dir.dir name entries rest).under path =
          entries.under (path ++ [name]) ++ rest.under path := by
        simp [Dir.under, Dir.files]
      rw [hsplit]
      show List.Perm _ (rest.here path ++ (entries.under (path ++ [name]) ++
        (rest.subdirs path).flatMap fun s => s.2.under s.1))
      have hmove := (ih.append_left (entries.under (path ++ [name]))).trans
        (List.perm_append_comm_assoc _ _ _)
      exact hmove

theorem Dir.size_subdirs (path : Path) (d : Dir) :
    d.size = 1 + ((d.subdirs path).map fun s => s.2.size).sum := by
  induction d with
  | empty => rfl
  | file name contents rest ih => exact ih
  | dir name entries rest _ ih =>
      show entries.size + rest.size =
        1 + (entries.size + ((rest.subdirs path).map fun s => s.2.size).sum)
      omega

theorem walkStack_perm {fuel : Nat} {stack : List (Path × Dir)}
    (hfuel : (stack.map fun s => s.2.size).sum ≤ fuel) :
    (walkStack fuel stack).Perm (stack.flatMap fun s => s.2.under s.1) := by
  induction fuel generalizing stack with
  | zero =>
      cases stack with
      | nil => exact List.Perm.refl _
      | cons s stack =>
          have hsize := Dir.size_subdirs s.1 s.2
          simp only [List.map_cons, List.sum_cons] at hfuel
          omega
  | succ fuel ih =>
      cases stack with
      | nil => exact List.Perm.refl _
      | cons s stack =>
          obtain ⟨path, d⟩ := s
          have hsize := Dir.size_subdirs path d
          simp only [List.map_cons, List.sum_cons] at hfuel
          have hrest := @ih ((d.subdirs path).reverse ++ stack) (by
            rw [List.map_append, List.map_reverse, List.sum_append, List.sum_reverse]
            omega)
          show (d.here path ++ walkStack fuel ((d.subdirs path).reverse ++ stack)).Perm
            (d.under path ++ stack.flatMap fun s => s.2.under s.1)
          have hback : (((d.subdirs path).reverse ++ stack).flatMap fun s => s.2.under s.1).Perm
              (((d.subdirs path) ++ stack).flatMap fun s => s.2.under s.1) :=
            ((List.reverse_perm _).append_right _).flatMap_right _
          have hall := (hrest.trans hback).append_left (d.here path)
          rw [List.flatMap_append, ← List.append_assoc] at hall
          exact hall.trans ((Dir.under_perm path d).symm.append_right _)

theorem Dir.walk_perm (d : Dir) : d.walk.Perm d.files := by
  have hperm := @walkStack_perm d.size [([], d)] (by simp)
  unfold Dir.walk
  simpa [Dir.under] using hperm

theorem Dir.head_mem_names {d : Dir} {f : LooseFile} (h : f ∈ d.files) :
    ∃ name ∈ d.names, f.1.head? = some name := by
  induction d generalizing f with
  | empty => cases h
  | file name contents rest ih =>
      rcases List.mem_cons.mp h with rfl | h
      · exact ⟨name, List.mem_cons_self, rfl⟩
      · obtain ⟨other, hmem, hhead⟩ := ih h
        exact ⟨other, List.mem_cons_of_mem _ hmem, hhead⟩
  | dir name entries rest _ ih =>
      rcases List.mem_append.mp h with h | h
      · obtain ⟨g, -, rfl⟩ := List.mem_map.mp h
        exact ⟨name, List.mem_cons_self, rfl⟩
      · obtain ⟨other, hmem, hhead⟩ := ih h
        exact ⟨other, List.mem_cons_of_mem _ hmem, hhead⟩

/-- No two files have one path. -/
theorem Dir.files_distinct {d : Dir} (h : d.distinct = true) : (d.files.map Prod.fst).Nodup := by
  induction d with
  | empty => exact List.nodup_nil
  | file name contents rest ih =>
      obtain ⟨hname, hrest⟩ := Bool.and_eq_true_iff.mp h
      have hnew : name ∉ rest.names := by simpa using hname
      refine List.nodup_cons.mpr ⟨fun hmem => ?_, ih hrest⟩
      obtain ⟨f, hf, hpath⟩ := List.mem_map.mp hmem
      obtain ⟨other, hother, hhead⟩ := head_mem_names hf
      rw [hpath] at hhead
      cases hhead
      exact hnew hother
  | dir name entries rest ihe ih =>
      obtain ⟨hboth, hrest⟩ := Bool.and_eq_true_iff.mp h
      obtain ⟨hname, hentries⟩ := Bool.and_eq_true_iff.mp hboth
      have hnew : name ∉ rest.names := by simpa using hname
      show ((entries.files.map fun f => (name :: f.1, f.2)) ++ rest.files |>.map Prod.fst).Nodup
      rw [List.map_append, List.nodup_append]
      refine ⟨?_, ih hrest, ?_⟩
      · rw [List.map_map]
        have hcons : (Prod.fst ∘ fun f : LooseFile => (name :: f.1, f.2)) =
            (fun p : Path => name :: p) ∘ Prod.fst := rfl
        rw [hcons, ← List.map_map]
        exact (ihe hentries).map (fun a b hab => (List.cons.inj hab).2)
      · rintro p hp q hq rfl
        obtain ⟨f, hf, rfl⟩ := List.mem_map.mp hp
        obtain ⟨g, -, rfl⟩ := List.mem_map.mp hf
        obtain ⟨f', hf', hpath⟩ := List.mem_map.mp hq
        obtain ⟨other, hother, hhead⟩ := head_mem_names hf'
        rw [hpath] at hhead
        cases hhead
        exact hnew hother

/-! ### Paths and names -/

/-- Every component is UTF-8. -/
def IsUtf8 (path : Path) : Prop := ∀ name ∈ path, ∃ s, fromUtf8 name.bytes = some s

theorem asBytes_intercalate (words : List String) :
    asBytes ("/".intercalate words) = [47].intercalate (words.map asBytes) := by
  have hslash : String.utf8EncodeChar '/' = [47] := by decide
  rw [asBytes_eq_flatMap, String.toList_intercalate]
  show (['/'].intercalate (words.map String.toList)).flatMap _ = _
  induction words with
  | nil => rfl
  | cons word words ih =>
      cases words with
      | nil => simp [asBytes_eq_flatMap]
      | cons word' words =>
          simp only [List.map_cons, List.intercalate_cons_cons, List.flatMap_append] at ih ⊢
          rw [ih, ← asBytes_eq_flatMap]
          simp [hslash]

theorem utf8_of_intercalate {words : List (List UInt8)} {s : String}
    (h : fromUtf8 ([47].intercalate words) = some s) :
    ∀ word ∈ words, ∃ t, fromUtf8 word = some t := by
  have hslash : (47 : UInt8) = UInt8.ofNat '/'.toNat := by decide
  induction words generalizing s with
  | nil => exact fun _ => nofun
  | cons word words ih =>
      cases words with
      | nil =>
          intro w hw
          obtain rfl := List.mem_singleton.mp hw
          exact ⟨s, by simpa using h⟩
      | cons word' words =>
          rw [List.intercalate_cons_cons, List.append_assoc, List.singleton_append, hslash] at h
          obtain ⟨first, rest, hfirst, hrest, -⟩ := (fromUtf8_cut (by decide)).mp h
          intro w hw
          rcases List.mem_cons.mp hw with rfl | hw
          · exact ⟨first, hfirst⟩
          · exact ih hrest w hw

/-- A path of UTF-8 components is the name made of it. -/
theorem asBytes_refName {path : Path} (h : IsUtf8 path) : asBytes (refName path) = fullPath path := by
  have hkept : (path.filterMap fun name => fromUtf8 name.bytes).map asBytes =
      path.map FileName.bytes := by
    induction path with
    | nil => rfl
    | cons name path ih =>
        obtain ⟨s, hs⟩ := h name List.mem_cons_self
        have hcons : (name :: path).filterMap (fun name => fromUtf8 name.bytes) =
            s :: path.filterMap fun name => fromUtf8 name.bytes := by
          rw [List.filterMap_cons, hs]
        rw [hcons, List.map_cons, List.map_cons, asBytes_of_fromUtf8 hs,
          ih fun n hn => h n (List.mem_cons_of_mem name hn)]
  rw [refName, asBytes_intercalate, List.map_cons, hkept, fullPath]

/-- **Exact names.** A file lies at the path `n` exactly when its path is UTF-8 and `n` is
the name made of it. -/
theorem fullPath_eq_iff {path : Path} {n : String} :
    fullPath path = asBytes n ↔ IsUtf8 path ∧ refName path = n := by
  constructor
  · intro h
    have htext : fromUtf8 (fullPath path) = some n := by rw [h, fromUtf8_asBytes]
    have hutf8 : IsUtf8 path := by
      intro name hname
      exact utf8_of_intercalate htext name.bytes
        (List.mem_cons_of_mem _ (List.mem_map_of_mem hname))
    refine ⟨hutf8, asBytes_inj.mp ?_⟩
    rw [asBytes_refName hutf8, h]
  · rintro ⟨hutf8, rfl⟩
    exact (asBytes_refName hutf8).symm

/-- Paths with one full path are one path. -/
theorem fullPath_inj {path path' : Path} (h : fullPath path = fullPath path') : path = path' := by
  have hcut : ∀ path : Path, (fullPath path).splitOn 47 =
      asBytes "refs" :: path.map FileName.bytes := by
    intro path
    refine List.splitOn_intercalate 47 ?_ (List.cons_ne_nil _ _)
    intro word hword
    rcases List.mem_cons.mp hword with rfl | hword
    · decide
    · obtain ⟨name, -, rfl⟩ := List.mem_map.mp hword
      exact name.valid.2.2.2.1
  have hwords : path.map FileName.bytes = path'.map FileName.bytes := by
    have hsame := hcut path
    rw [h, hcut path'] at hsame
    exact ((List.cons.inj hsame).2).symm
  have hinj : Function.Injective FileName.bytes := by
    rintro ⟨a, ha⟩ ⟨b, hb⟩ hab
    obtain rfl : a = b := hab
    rfl
  exact List.map_injective_iff.mpr hinj hwords

end Refs
end Artifacts
