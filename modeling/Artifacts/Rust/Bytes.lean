import Mathlib.Data.List.Basic

/-!
# Bytes of strings and machine integers

Rust's `String` is a Lean `String`; a byte buffer (`Vec<u8>`, `&[u8]`) is a
`List UInt8`.  This module fixes the two encodings the crate relies on: UTF-8
(`as_bytes`, `str::from_utf8`) and little-endian `i64` (`to_le_bytes`).

`asBytes` is injective and distributes over joining, and `fromUtf8` is its inverse where it is
defined.  `chunks` is `slice::chunks`, the last one shorter than the others.
-/

namespace Artifacts
namespace Rust

/-- `str::as_bytes`. -/
def asBytes (s : String) : List UInt8 :=
  s.toByteArray.data.toList

/-- `str::from_utf8`, with `none` for the error. -/
def fromUtf8 (bytes : List UInt8) : Option String :=
  String.fromUTF8? ⟨bytes.toArray⟩

/-- `i64::to_le_bytes`. -/
def toLeBytes (x : Int64) : List UInt8 :=
  (List.range 8).map fun i => UInt8.ofBitVec (x.toBitVec.extractLsb' (8 * i) 8)

/-- `slice::chunks(n)` with a bound on the number of chunks. -/
def chunksAux {α : Type} (n : Nat) : Nat → List α → List (List α)
  | 0, _ => []
  | _ + 1, [] => []
  | fuel + 1, x :: xs => (x :: xs).take n :: chunksAux n fuel ((x :: xs).drop n)

/-- `slice::chunks(n)`: pieces of `n` elements, the last one may be shorter. -/
def chunks {α : Type} (n : Nat) (xs : List α) : List (List α) :=
  chunksAux n xs.length xs

theorem asBytes_inj {s t : String} : asBytes s = asBytes t ↔ s = t := by
  constructor
  · intro h
    have hdata : s.toByteArray.data = t.toByteArray.data := Array.toList_inj.mp h
    exact String.toByteArray_inj.mp (ByteArray.ext hdata)
  · rintro rfl
    rfl

@[simp] theorem asBytes_append (s t : String) :
    asBytes (s ++ t) = asBytes s ++ asBytes t := by
  simp [asBytes, String.toByteArray_append]

/-- `str::len` counts bytes. -/
@[simp] theorem length_asBytes (s : String) : (asBytes s).length = s.utf8ByteSize := rfl

@[simp] theorem fromUtf8_asBytes (s : String) : fromUtf8 (asBytes s) = some s := by
  have hbuf : (⟨s.toByteArray.data.toList.toArray⟩ : ByteArray) = s.toByteArray := by
    simp
  unfold fromUtf8 asBytes String.fromUTF8?
  rw [hbuf, dif_pos s.isValidUTF8]
  rfl

theorem asBytes_of_fromUtf8 {bytes : List UInt8} {s : String} (h : fromUtf8 bytes = some s) :
    asBytes s = bytes := by
  unfold fromUtf8 String.fromUTF8? at h
  split at h
  · obtain rfl := Option.some.inj h
    simp [asBytes, String.fromUTF8]
  · cases h

@[simp] theorem length_toLeBytes (x : Int64) : (toLeBytes x).length = 8 := by
  simp [toLeBytes]

theorem toLeBytes_inj {x y : Int64} : toLeBytes x = toLeBytes y ↔ x = y := by
  constructor
  · intro h
    apply Int64.toBitVec_inj.mp
    apply BitVec.eq_of_getLsbD_eq
    intro i hi
    -- bit `i` of the integer is bit `i % 8` of byte `i / 8`
    have hbyte : (toLeBytes x)[i / 8]? = (toLeBytes y)[i / 8]? := by rw [h]
    have hpos : i / 8 < 8 := by omega
    simp only [toLeBytes, List.getElem?_map, List.getElem?_range hpos, Option.map_some,
      Option.some.injEq, UInt8.ofBitVec.injEq] at hbyte
    have hbit := congrArg (fun b => b.getLsbD (i % 8)) hbyte
    have hindex : 8 * (i / 8) + i % 8 = i := by omega
    have hsmall : i % 8 < 8 := by omega
    simpa [BitVec.getLsbD_extractLsb', hindex, hsmall] using hbit
  · rintro rfl
    rfl

/-- Any two bounds that cover the slice cut the same chunks. -/
theorem chunksAux_eq_of_le {α : Type} {n : Nat} (hn : 0 < n) {fuel fuel' : Nat} {xs : List α}
    (h : xs.length ≤ fuel) (h' : xs.length ≤ fuel') :
    chunksAux n fuel xs = chunksAux n fuel' xs := by
  induction fuel generalizing fuel' xs with
  | zero =>
      obtain rfl : xs = [] := List.length_eq_zero_iff.mp (by omega)
      cases fuel' <;> rfl
  | succ fuel ih =>
      cases xs with
      | nil => cases fuel' <;> rfl
      | cons x xs =>
          cases fuel' with
          | zero => simp at h'
          | succ fuel' =>
              simp only [List.length_cons] at h h'
              have hrest : ((x :: xs).drop n).length ≤ xs.length := by
                simp only [List.length_drop, List.length_cons]
                omega
              rw [chunksAux, chunksAux, ih (by omega) (show _ ≤ fuel' by omega)]

/-- The first chunk, and the others. -/
theorem chunks_of_ne_nil {α : Type} {n : Nat} (hn : 0 < n) {xs : List α} (h : xs ≠ []) :
    chunks n xs = xs.take n :: chunks n (xs.drop n) := by
  cases xs with
  | nil => exact absurd rfl h
  | cons x xs =>
      have hrest : ((x :: xs).drop n).length ≤ xs.length := by
        simp only [List.length_drop, List.length_cons]
        omega
      unfold chunks
      rw [List.length_cons, chunksAux, chunksAux_eq_of_le hn hrest (Nat.le_refl _)]

/-- The chunks put together are the slice. -/
theorem flatten_chunks {α : Type} {n : Nat} (hn : 0 < n) (xs : List α) :
    (chunks n xs).flatten = xs := by
  have haux : ∀ (fuel : Nat) (ys : List α), ys.length ≤ fuel →
      (chunksAux n fuel ys).flatten = ys := by
    intro fuel
    induction fuel with
    | zero =>
        intro ys hlen
        obtain rfl : ys = [] := List.length_eq_zero_iff.mp (by omega)
        rfl
    | succ fuel ih =>
        intro ys hlen
        cases ys with
        | nil => rfl
        | cons y ys =>
            have hrest : ((y :: ys).drop n).length ≤ fuel := by
              rw [List.length_drop]
              omega
            rw [chunksAux, List.flatten_cons, ih _ hrest, List.take_append_drop]
  exact haux xs.length xs (Nat.le_refl _)

theorem forall_mem_chunks {α : Type} {n : Nat} (hn : 0 < n) {xs : List α} {p : α → Prop} :
    (∀ chunk ∈ chunks n xs, ∀ x ∈ chunk, p x) ↔ ∀ x ∈ xs, p x := by
  conv_rhs => rw [← flatten_chunks hn xs]
  simp only [List.mem_flatten]
  constructor
  · intro h x hx
    obtain ⟨chunk, hchunk, hx⟩ := hx
    exact h chunk hchunk x hx
  · intro h chunk hchunk x hx
    exact h x ⟨chunk, hchunk, hx⟩

theorem length_le_of_mem_chunks {α : Type} {n : Nat} {xs c : List α} (h : c ∈ chunks n xs) :
    c.length ≤ n := by
  have haux : ∀ (fuel : Nat) (ys : List α), ∀ c ∈ chunksAux n fuel ys, c.length ≤ n := by
    intro fuel
    induction fuel with
    | zero =>
        intro ys c hc
        cases hc
    | succ fuel ih =>
        intro ys c hc
        cases ys with
        | nil => cases hc
        | cons y ys =>
            rcases List.mem_cons.mp hc with rfl | hc
            · exact List.length_take_le _ _
            · exact ih _ c hc
  exact haux _ _ c h

end Rust
end Artifacts
