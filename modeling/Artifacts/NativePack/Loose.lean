import Artifacts.Ids
import Artifacts.Rust.Lines

/-!
# Loose objects

A loose object is stored under the SHA-1 of its kind, its size and its payload, and as
the zlib stream of the same bytes.  SHA-1 and zlib are parameters, zlib as an inverse
pair.  An `ObjectStore σ` holds the two methods that the pack parser calls.

`ObjectStore.Lawful` is what resolution needs of a store: a write is read back, and touches no other
object.  Both stores of this server meet it.
-/

namespace Artifacts
namespace NativePack

open Rust

inductive ObjectKind where
  | commit
  | tree
  | blob
  | tag
  deriving DecidableEq, Repr

/-- `ObjectKind::as_str`. -/
def ObjectKind.asStr : ObjectKind → String
  | .commit => "commit"
  | .tree => "tree"
  | .blob => "blob"
  | .tag => "tag"

structure Object where
  kind : ObjectKind
  payload : List UInt8
  deriving DecidableEq, Repr

/-- The SHA-1 function. -/
abbrev Sha1 := List UInt8 → Vector UInt8 20

/-- zlib: a stream that was deflated inflates to what it was. -/
structure Zlib where
  deflate : List UInt8 → List UInt8
  inflate : List UInt8 → Except String (List UInt8)
  inflate_deflate : ∀ bytes, inflate (deflate bytes) = .ok bytes

/-- The header of a loose object, without the byte 0 behind it. -/
def looseHeader (kind : ObjectKind) (size : Nat) : String :=
  kind.asStr ++ " " ++ toString size

/-- What is hashed and deflated. -/
def looseBytes (x : Object) : List UInt8 :=
  asBytes (looseHeader x.kind x.payload.length) ++ 0 :: x.payload

/-- `format!("{b:02x}")`. -/
def hexByte (b : UInt8) : List Char :=
  [Nat.digitChar (b.toNat / 16), Nat.digitChar (b.toNat % 16)]

theorem isOidChar_digitChar {d : Nat} (h : d < 16) : isOidChar (Nat.digitChar d) = true := by
  have hall : ∀ d : Fin 16, isOidChar (Nat.digitChar d.val) = true := by decide
  exact hall ⟨d, h⟩

theorem hexByte_digits (b : UInt8) : ∀ c ∈ hexByte b, isOidChar c = true := by
  have hb := b.toNat_lt
  intro c hc
  rcases List.mem_cons.mp hc with rfl | hc
  · exact isOidChar_digitChar (by omega)
  · rw [List.mem_singleton.mp hc]
    exact isOidChar_digitChar (by omega)

/-- Forty hexadecimal digits stand for twenty bytes. -/
theorem validOid_hex (digest : Vector UInt8 20) :
    validOid (String.ofList (digest.toList.flatMap hexByte)) = true := by
  have hdigits : ∀ c ∈ digest.toList.flatMap hexByte, isOidChar c = true := by
    intro c hc
    obtain ⟨b, -, hcb⟩ := List.mem_flatMap.mp hc
    exact hexByte_digits b c hcb
  have hcount : ∀ bytes : List UInt8, (bytes.flatMap hexByte).length = 2 * bytes.length := by
    intro bytes
    induction bytes with
    | nil => rfl
    | cons b bytes ih =>
        rw [List.flatMap_cons, List.length_append, ih, List.length_cons]
        change 2 + 2 * bytes.length = 2 * (bytes.length + 1)
        omega
  have hascii : ∀ c ∈ (String.ofList (digest.toList.flatMap hexByte)).toList, c.toNat < 128 := by
    intro c hc
    rw [String.toList_ofList] at hc
    have hrange := range_of_isOidChar (hdigits c hc)
    omega
  have hlength : digest.toList.length = 20 := by simp
  unfold validOid
  rw [utf8ByteSize_of_ascii hascii, String.toList_ofList, hcount, hlength,
    List.all_eq_true.mpr hdigits]
  rfl

/-- `hex_oid`. -/
def hexOid (digest : Vector UInt8 20) : Oid :=
  ⟨String.ofList (digest.toList.flatMap hexByte), validOid_hex digest⟩

/-- `loose_oid_hex`: the id that git gives the object, the digest of its header and its payload. -/
def looseOidHex (sha1 : Sha1) (x : Object) : Oid :=
  hexOid (sha1 (looseBytes x))

/-- `loose_format_bytes`, which cannot fail on a buffer in memory. -/
def looseFormatBytes (zlib : Zlib) (x : Object) : Result (List UInt8) :=
  .ok (zlib.deflate (looseBytes x))

/-! ### The store -/

/-- The two methods of `ObjectStore` that resolving a pack needs. The state is passed along, so a
store may fail at one time and work at another; `Lawful` says what is asked of it. -/
structure ObjectStore (σ : Type) where
  readLoose : σ → RepoId → Oid → Result (Option (List UInt8))
  writeLoose : σ → RepoId → Oid → List UInt8 → Result Unit × σ

/-- What the trait promises of a store that works: reads and writes succeed, a write changes at most
its own object, and behind it the object is there, with the bytes it had before if there were any
that the store keeps. So it covers stores that keep the first write as well as those that take the
last. -/
structure ObjectStore.Lawful {σ : Type} (store : ObjectStore σ) : Prop where
  reads : ∀ s repoId oid, ∃ found, store.readLoose s repoId oid = .ok found
  writes : ∀ s repoId oid bytes, (store.writeLoose s repoId oid bytes).1 = .ok ()
  others : ∀ s repoId oid bytes repo other, ¬(repo = repoId ∧ other = oid) →
    store.readLoose (store.writeLoose s repoId oid bytes).2 repo other =
      store.readLoose s repo other
  written : ∀ s repoId oid bytes,
    store.readLoose (store.writeLoose s repoId oid bytes).2 repoId oid = .ok (some bytes) ∨
      (∃ old, store.readLoose s repoId oid = .ok (some old)) ∧
        store.readLoose (store.writeLoose s repoId oid bytes).2 repoId oid =
          store.readLoose s repoId oid

/-- Loose objects by repository and id. -/
abbrev LooseRows := String × String → Option (List UInt8)

/-- `SqliteObjectStore`, whose insert ignores a row that is there. -/
def sqliteObjectStore : ObjectStore LooseRows where
  readLoose rows repoId oid := .ok (rows (repoId.text, oid.text))
  writeLoose rows repoId oid bytes :=
    (.ok (), fun key =>
      if key = (repoId.text, oid.text) then some ((rows key).getD bytes) else rows key)

/-- `MemObjectStore`, whose insert replaces what is there under the id. -/
def memObjectStore : ObjectStore LooseRows where
  readLoose rows repoId oid := .ok (rows (repoId.text, oid.text))
  writeLoose rows repoId oid bytes :=
    (.ok (), fun key => if key = (repoId.text, oid.text) then some bytes else rows key)

theorem row_ne {repo repoId : RepoId} {other oid : Oid} (h : ¬(repo = repoId ∧ other = oid)) :
    (repo.text, other.text) ≠ (repoId.text, oid.text) := by
  intro heq
  obtain ⟨hrepo, hoid⟩ := Prod.mk.inj heq
  exact h ⟨RepoId.ext hrepo, Oid.ext hoid⟩

theorem sqliteObjectStore_lawful : sqliteObjectStore.Lawful where
  reads _ _ _ := ⟨_, rfl⟩
  writes _ _ _ _ := rfl
  others rows repoId oid bytes repo other h := by
    simp only [sqliteObjectStore, if_neg (row_ne h)]
  written rows repoId oid bytes := by
    cases hrow : rows (repoId.text, oid.text) with
    | none =>
        left
        simp [sqliteObjectStore, hrow]
    | some old =>
        right
        simp [sqliteObjectStore, hrow]

theorem memObjectStore_lawful : memObjectStore.Lawful where
  reads _ _ _ := ⟨_, rfl⟩
  writes _ _ _ _ := rfl
  others rows repoId oid bytes repo other h := by
    simp only [memObjectStore, if_neg (row_ne h)]
  written rows repoId oid bytes := by
    left
    simp [memObjectStore]

/-! ### Reading an object back -/

/-- The kind a header names. -/
def kindOf (printable : Char → Bool) (oid : Oid) : String → Result ObjectKind
  | "commit" => .ok .commit
  | "tree" => .ok .tree
  | "blob" => .ok .blob
  | "tag" => .ok .tag
  | other => .error (.packParse ("loose " ++ oid.text ++ ": unknown kind " ++
      debugStr printable other))

/-- The part of `read_loose_inflated` behind the read. -/
def inflateLoose (printable : Char → Bool) (zlib : Zlib) (oid : Oid) (bytes : List UInt8) :
    Result Object :=
  match zlib.inflate bytes with
  | .error e => .error (.packParse ("loose inflate " ++ oid.text ++ ": " ++ e))
  | .ok inflated =>
      if 0 ∉ inflated then
        .error (.packParse ("loose " ++ oid.text ++ ": header has no NUL"))
      else
        match fromUtf8 (inflated.takeWhile (· != 0)) with
        -- the byte position of the decoding error is left out of the text
        | none => .error (.packParse ("loose " ++ oid.text ++ ": header utf8: invalid utf-8 sequence"))
        | some header =>
            match splitn 2 header ' ' with
            | [] => .error (.packParse ("loose " ++ oid.text ++ ": missing kind"))
            | kind :: _ =>
                match kindOf printable oid kind with
                | .error e => .error e
                | .ok kind => .ok ⟨kind, (inflated.dropWhile (· != 0)).drop 1⟩

/-- `read_loose_inflated`. An object that is not there is no error; one that does not inflate, or
has no proper header, is. -/
def readLooseInflated {σ : Type} (printable : Char → Bool) (zlib : Zlib) (store : ObjectStore σ)
    (s : σ) (repoId : RepoId) (oid : Oid) : Result (Option Object) :=
  match store.readLoose s repoId oid with
  | .error e => .error e
  | .ok none => .ok none
  | .ok (some bytes) =>
      match inflateLoose printable zlib oid bytes with
      | .error e => .error e
      | .ok x => .ok (some x)

/-! ### The header -/

theorem toList_looseHeader (kind : ObjectKind) (size : Nat) :
    (looseHeader kind size).toList = kind.asStr.toList ++ ' ' :: Nat.toDigits 10 size := by
  have hsize : (toString size).toList = Nat.toDigits 10 size := by
    change (Nat.repr size).toList = _
    rw [Nat.repr, String.toList_ofList]
  rw [looseHeader, String.toList_append, String.toList_append, hsize, List.append_assoc]
  rfl

theorem zero_not_mem_looseHeader (kind : ObjectKind) (size : Nat) :
    0 ∉ asBytes (looseHeader kind size) := by
  have hzero : (0 : UInt8) = UInt8.ofNat '\x00'.toNat := rfl
  rw [hzero, mem_asBytes_ascii (by decide), toList_looseHeader]
  intro hmem
  rcases List.mem_append.mp hmem with hkind | hrest
  · cases kind <;> revert hkind <;> decide
  · rcases List.mem_cons.mp hrest with hspace | hdigit
    · cases hspace
    · have := Nat.isDigit_of_mem_toDigits (by decide) (by decide) hdigit
      revert this
      decide

theorem splitn_looseHeader (kind : ObjectKind) (size : Nat) :
    ∃ rest, splitn 2 (looseHeader kind size) ' ' = kind.asStr :: rest := by
  have hmem : ' ' ∈ (looseHeader kind size).toList := by
    rw [toList_looseHeader]
    simp
  have hfront : (looseHeader kind size).toList.takeWhile (· != ' ') = kind.asStr.toList := by
    rw [toList_looseHeader]
    cases kind <;> rfl
  have hcut : ∃ rest, splitOnce (looseHeader kind size) ' ' = some (kind.asStr, rest) := by
    unfold splitOnce
    rw [if_pos hmem, hfront, String.ofList_toList]
    exact ⟨_, rfl⟩
  obtain ⟨rest, hrest⟩ := hcut
  exact ⟨[rest], by simp only [splitn, hrest]⟩

/-- **An object is read back from the bytes it was hashed from.** -/
theorem inflateLoose_of_inflate (printable : Char → Bool) {zlib : Zlib} (oid : Oid)
    {bytes : List UInt8} {x : Object} (h : zlib.inflate bytes = .ok (looseBytes x)) :
    inflateLoose printable zlib oid bytes = .ok x := by
  have hheader : ∀ b ∈ asBytes (looseHeader x.kind x.payload.length), (b != 0) = true := by
    intro b hb
    rw [bne_iff_ne]
    rintro rfl
    exact zero_not_mem_looseHeader _ _ hb
  have hmem : 0 ∈ looseBytes x := by simp [looseBytes]
  have hfront : (looseBytes x).takeWhile (· != 0) =
      asBytes (looseHeader x.kind x.payload.length) := by
    rw [looseBytes, List.takeWhile_append_of_pos hheader]
    simp
  have hback : (looseBytes x).dropWhile (· != 0) = 0 :: x.payload := by
    rw [looseBytes, List.dropWhile_append_of_pos hheader]
    simp
  obtain ⟨rest, hsplit⟩ := splitn_looseHeader x.kind x.payload.length
  have hkind : kindOf printable oid x.kind.asStr = .ok x.kind := by
    cases x.kind <;> rfl
  unfold inflateLoose
  rw [h]
  simp only [hmem, not_true_eq_false, if_false, hfront, fromUtf8_asBytes, hsplit, hkind, hback,
    List.drop_succ_cons, List.drop_zero]

end NativePack
end Artifacts
