import Artifacts.NativePack.Delta

/-!
# The cursor of `apply_delta`

`applyDelta` works on the bytes that are left.  Here the same function runs with the index
the source keeps: it looks at one byte or takes a slice by its bounds, and an index out of
bounds, where the program would panic, is `none`.  It is never out of bounds, and the two
functions agree.

Only the two copies of the function are compared, so nothing here knows what a delta means.
-/

namespace Artifacts
namespace NativePack

/-- A result, or `none` for a panic. -/
abbrev Checked (α : Type) := Option (Result α)

/-- `&bytes[start..stop]`, where `none` is the panic of a range that is not in bounds. -/
def sliceAt (bytes : List UInt8) (start stop : Nat) : Option (List UInt8) :=
  if start ≤ stop ∧ stop ≤ bytes.length then some ((bytes.take stop).drop start) else none

/-- The loop of `read_delta_varint`.  Every turn moves the index on, so the number of bytes
and one bounds the number of turns. -/
def varintLoopAt (bytes : List UInt8) : Nat → Nat → Nat → Nat → Checked (Nat × Nat)
  | 0, _, _, _ => none
  | turns + 1, idx, shift, value =>
      if bytes.length ≤ idx then
        some (.error (.packParse ("delta varint: truncated at offset " ++ toString idx)))
      else
        match bytes[idx]? with
        | none => none
        | some byte =>
            let value := (value ||| ((byte &&& 0x7f).toNat <<< shift)) % 2 ^ 64
            if byte &&& 0x80 = 0 then
              some (.ok (value, idx + 1))
            else if 63 < shift + 7 then
              some (.error (.packParse "delta varint: overflows u64"))
            else
              varintLoopAt bytes turns (idx + 1) (shift + 7) value

/-- The loop over the optional bytes of a COPY. -/
def copyFieldAt (what : String) (op : UInt8) (first : Nat) (delta : List UInt8) :
    List Nat → Nat → Nat → Checked (Nat × Nat)
  | [], idx, value => some (.ok (value, idx))
  | shift :: shifts, idx, value =>
      if op.toNat.testBit (first + shift) then
        if delta.length ≤ idx then
          some (.error (.packParse ("delta COPY: truncated " ++ what)))
        else
          match delta[idx]? with
          | none => none
          | some byte =>
              copyFieldAt what op first delta shifts (idx + 1)
                (value ||| (byte.toNat <<< (shift * 8)))
      else
        copyFieldAt what op first delta shifts idx value

/-- The COPY branch: the range, and the index behind the operation. -/
def copyAt (base delta : List UInt8) (op : UInt8) (idx : Nat) : Checked (List UInt8 × Nat) :=
  match copyFieldAt "offset" op 0 delta [0, 1, 2, 3] idx 0 with
  | none => none
  | some (.error e) => some (.error e)
  | some (.ok (start, idx)) =>
      match copyFieldAt "size" op 4 delta [0, 1, 2] idx 0 with
      | none => none
      | some (.error e) => some (.error e)
      | some (.ok (size, idx)) =>
          let stop := start + (if size = 0 then 0x10000 else size)
          if base.length < stop then
            some (.error (.packParse ("delta COPY: range " ++ toString start ++ ".." ++
              toString stop ++ " out of base len " ++ toString base.length)))
          else
            match sliceAt base start stop with
            | none => none
            | some range => some (.ok (range, idx))

/-- The INSERT branch. -/
def insertAt (delta : List UInt8) (op : UInt8) (idx : Nat) : Checked (List UInt8 × Nat) :=
  let n := (op &&& 0x7f).toNat
  if n = 0 then
    some (.error (.packParse "delta INSERT: zero-byte op is reserved"))
  else if delta.length < idx + n then
    some (.error (.packParse ("delta INSERT: " ++ toString n ++ " bytes wanted, " ++
      toString (delta.length - idx) ++ " available")))
  else
    match sliceAt delta idx (idx + n) with
    | none => none
    | some range => some (.ok (range, idx + n))

/-- The instruction loop. -/
def opsAt (base delta : List UInt8) : Nat → Nat → List UInt8 → Checked (List UInt8)
  | 0, _, out => some (.ok out)
  | turns + 1, idx, out =>
      if idx < delta.length then
        match delta[idx]? with
        | none => none
        | some op =>
            match (if op &&& 0x80 ≠ 0 then copyAt base delta op (idx + 1)
              else insertAt delta op (idx + 1)) with
            | none => none
            | some (.error e) => some (.error e)
            | some (.ok (piece, idx)) => opsAt base delta turns idx (out ++ piece)
      else
        some (.ok out)

/-- `apply_delta`, by its indexes into the delta as the code has them. `none` is a panic, so that it
can be shown that there is none. -/
def applyDeltaAt (base delta : List UInt8) : Checked (List UInt8) :=
  match varintLoopAt delta (delta.length + 1) 0 0 0 with
  | none => none
  | some (.error e) => some (.error e)
  | some (.ok (sourceSize, idx)) =>
      if sourceSize ≠ base.length then
        some (.error (.packParse ("delta source size " ++ toString sourceSize ++
          " != base len " ++ toString base.length)))
      else
        match varintLoopAt delta (delta.length + 1) idx 0 0 with
        | none => none
        | some (.error e) => some (.error e)
        | some (.ok (targetSize, idx)) =>
            if maxEntryBytes < targetSize then
              some (.error (.packParse ("delta target size " ++ toString targetSize ++
                " exceeds " ++ toString maxEntryBytes ++ "-byte cap")))
            else
              match opsAt base delta delta.length idx [] with
              | none => none
              | some (.error e) => some (.error e)
              | some (.ok out) =>
                  if out.length ≠ targetSize then
                    some (.error (.packParse ("delta applied: got " ++ toString out.length ++
                      " bytes, target_size said " ++ toString targetSize)))
                  else
                    some (.ok out)

/-! ### The bytes that are left -/

theorem varintLoopAt_eq {bytes : List UInt8} {turns idx shift value : Nat}
    (hidx : idx ≤ bytes.length) (hturns : bytes.length < idx + turns) :
    varintLoopAt bytes turns idx shift value =
      some (readDeltaVarintLoop (bytes.drop idx) idx shift value) := by
  induction turns generalizing idx shift value with
  | zero => omega
  | succ turns ih =>
      by_cases hend : bytes.length ≤ idx
      · rw [varintLoopAt, if_pos hend, List.drop_eq_nil_of_le hend]
        rfl
      · have hlt : idx < bytes.length := Nat.not_le.mp hend
        rw [varintLoopAt, if_neg hend, List.getElem?_eq_getElem hlt,
          List.drop_eq_getElem_cons hlt]
        simp only [readDeltaVarintLoop]
        split_ifs
        · rfl
        · rfl
        · exact ih (by omega) (by omega)

/-- The number ends behind the index it starts at, and inside the bytes. -/
theorem readDeltaVarintLoop_stop {rest : List UInt8} {idx shift value v stop : Nat}
    (h : readDeltaVarintLoop rest idx shift value = .ok (v, stop)) :
    idx < stop ∧ stop ≤ idx + rest.length := by
  induction rest generalizing idx shift value with
  | nil => cases h
  | cons byte rest ih =>
      simp only [readDeltaVarintLoop] at h
      rw [List.length_cons]
      split_ifs at h
      · cases h
        omega
      · have := ih h
        omega

/-- The index that comes out of a step stands where the bytes that are left begin. -/
theorem copyFieldAt_eq (what : String) (op : UInt8) (first : Nat) {delta : List UInt8}
    {shifts : List Nat} {idx value : Nat} (hidx : idx ≤ delta.length) :
    match readCopyField what op first shifts (delta.drop idx) value with
    | .error e => copyFieldAt what op first delta shifts idx value = some (.error e)
    | .ok (v, rest) => ∃ idx', idx ≤ idx' ∧ idx' ≤ delta.length ∧ rest = delta.drop idx' ∧
        copyFieldAt what op first delta shifts idx value = some (.ok (v, idx')) := by
  induction shifts generalizing idx value with
  | nil => exact ⟨idx, Nat.le_refl idx, hidx, rfl, rfl⟩
  | cons shift shifts ih =>
      rw [readCopyField.eq_def, copyFieldAt]
      simp only []
      by_cases hbit : op.toNat.testBit (first + shift) = true
      · rw [if_pos hbit, if_pos hbit]
        by_cases hend : delta.length ≤ idx
        · rw [if_pos hend, List.drop_eq_nil_of_le hend]
        · have hlt : idx < delta.length := Nat.not_le.mp hend
          rw [if_neg hend, List.getElem?_eq_getElem hlt, List.drop_eq_getElem_cons hlt]
          simp only []
          have hih := @ih (idx + 1) (value ||| (delta[idx].toNat <<< (shift * 8))) hlt
          split at hih
          · exact hih
          · obtain ⟨idx', hle, hfits, hrest, hat⟩ := hih
            exact ⟨idx', by omega, hfits, hrest, hat⟩
      · rw [if_neg hbit, if_neg hbit]
        exact ih hidx

theorem copyAt_eq (base : List UInt8) {delta : List UInt8} (op : UInt8) {idx : Nat}
    (hidx : idx ≤ delta.length) :
    match readCopy base op (delta.drop idx) with
    | .error e => copyAt base delta op idx = some (.error e)
    | .ok (piece, rest) => ∃ idx', idx ≤ idx' ∧ idx' ≤ delta.length ∧ rest = delta.drop idx' ∧
        copyAt base delta op idx = some (.ok (piece, idx')) := by
  have hoffset := @copyFieldAt_eq "offset" op 0 delta [0, 1, 2, 3] idx 0 hidx
  unfold readCopy copyAt
  cases hfirst : readCopyField "offset" op 0 [0, 1, 2, 3] (delta.drop idx) 0 with
  | error e =>
      rw [hfirst] at hoffset
      simp only [] at hoffset ⊢
      rw [hoffset]
  | ok found =>
      obtain ⟨start, rest⟩ := found
      rw [hfirst] at hoffset
      obtain ⟨mid, hle, hmid, rfl, hat⟩ := hoffset
      have hsize := @copyFieldAt_eq "size" op 4 delta [0, 1, 2] mid 0 hmid
      simp only [hat]
      cases hsecond : readCopyField "size" op 4 [0, 1, 2] (delta.drop mid) 0 with
      | error e =>
          rw [hsecond] at hsize
          simp only [] at hsize ⊢
          rw [hsize]
      | ok found' =>
          obtain ⟨size, rest'⟩ := found'
          rw [hsecond] at hsize
          obtain ⟨idx', hle', hfits, rfl, hat'⟩ := hsize
          simp only [hat']
          by_cases hout : base.length < start + (if size = 0 then 0x10000 else size)
          · rw [if_pos hout, if_pos hout]
          · have hslice : sliceAt base start (start + (if size = 0 then 0x10000 else size)) =
                some ((base.take (start + (if size = 0 then 0x10000 else size))).drop start) :=
              if_pos ⟨Nat.le_add_right start _, Nat.not_lt.mp hout⟩
            rw [if_neg hout, if_neg hout, hslice]
            exact ⟨idx', Nat.le_trans hle hle', hfits, rfl, rfl⟩

theorem insertAt_eq {delta : List UInt8} (op : UInt8) {idx : Nat} (hidx : idx ≤ delta.length) :
    match readInsert op (delta.drop idx) with
    | .error e => insertAt delta op idx = some (.error e)
    | .ok (piece, rest) => ∃ idx', idx ≤ idx' ∧ idx' ≤ delta.length ∧ rest = delta.drop idx' ∧
        insertAt delta op idx = some (.ok (piece, idx')) := by
  unfold readInsert insertAt
  simp only [List.length_drop]
  by_cases hzero : (op &&& 0x7f).toNat = 0
  · rw [if_pos hzero, if_pos hzero]
  · rw [if_neg hzero, if_neg hzero]
    by_cases hshort : delta.length < idx + (op &&& 0x7f).toNat
    · have hleft : delta.length - idx < (op &&& 0x7f).toNat := by omega
      rw [if_pos hleft, if_pos hshort]
    · have hleft : ¬ delta.length - idx < (op &&& 0x7f).toNat := by omega
      have hslice : sliceAt delta idx (idx + (op &&& 0x7f).toNat) =
          some ((delta.take (idx + (op &&& 0x7f).toNat)).drop idx) :=
        if_pos ⟨Nat.le_add_right idx _, Nat.not_lt.mp hshort⟩
      rw [if_neg hleft, if_neg hshort, hslice, List.drop_take, Nat.add_sub_cancel_left,
        List.drop_drop]
      exact ⟨_, Nat.le_add_right idx _, Nat.not_lt.mp hshort, rfl, rfl⟩

theorem opsAt_eq (base : List UInt8) {delta : List UInt8} (turns : Nat) {idx : Nat}
    (out : List UInt8) (hidx : idx ≤ delta.length) :
    opsAt base delta turns idx out = some (applyOps base turns (delta.drop idx) out) := by
  induction turns generalizing idx out with
  | zero => rfl
  | succ turns ih =>
      by_cases hend : idx < delta.length
      · have hpiece : match (if delta[idx] &&& 0x80 ≠ 0
              then readCopy base delta[idx] (delta.drop (idx + 1))
              else readInsert delta[idx] (delta.drop (idx + 1))) with
            | .error e => (if delta[idx] &&& 0x80 ≠ 0 then copyAt base delta delta[idx] (idx + 1)
                else insertAt delta delta[idx] (idx + 1)) = some (.error e)
            | .ok (piece, rest) => ∃ idx', idx + 1 ≤ idx' ∧ idx' ≤ delta.length ∧
                rest = delta.drop idx' ∧
                (if delta[idx] &&& 0x80 ≠ 0 then copyAt base delta delta[idx] (idx + 1)
                  else insertAt delta delta[idx] (idx + 1)) = some (.ok (piece, idx')) := by
          split_ifs
          · exact copyAt_eq base delta[idx] hend
          · exact insertAt_eq delta[idx] hend
        rw [opsAt, if_pos hend, List.getElem?_eq_getElem hend, List.drop_eq_getElem_cons hend,
          applyOps]
        simp only []
        generalize (if delta[idx] &&& 0x80 ≠ 0
            then readCopy base delta[idx] (delta.drop (idx + 1))
            else readInsert delta[idx] (delta.drop (idx + 1))) = read at hpiece ⊢
        cases read with
        | error e =>
            dsimp only at hpiece ⊢
            rw [hpiece]
        | ok read =>
            obtain ⟨piece, rest⟩ := read
            obtain ⟨idx', -, hfits, rfl, hat⟩ := hpiece
            dsimp only
            rw [hat]
            exact ih (out ++ piece) hfits
      · rw [opsAt, if_neg hend, List.drop_eq_nil_of_le (Nat.not_lt.mp hend)]
        rfl

/-- **No index is out of bounds**, and the cursor computes what `applyDelta` does. -/
theorem applyDeltaAt_eq (base delta : List UInt8) :
    applyDeltaAt base delta = some (applyDelta base delta) := by
  have hfirst := @varintLoopAt_eq delta (delta.length + 1) 0 0 0 (Nat.zero_le _) (by omega)
  unfold applyDeltaAt applyDelta readDeltaVarint
  rw [hfirst]
  cases hread : readDeltaVarintLoop (delta.drop 0) 0 0 0 with
  | error e => rfl
  | ok found =>
      obtain ⟨sourceSize, idx⟩ := found
      obtain ⟨-, hidx⟩ := readDeltaVarintLoop_stop hread
      rw [List.drop_zero, Nat.zero_add] at hidx
      simp only [Nat.sub_zero]
      by_cases hsource : sourceSize = base.length
      · have hsecond := @varintLoopAt_eq delta (delta.length + 1) idx 0 0 hidx (by omega)
        rw [if_neg (not_not.mpr hsource), if_neg (not_not.mpr hsource), hsecond]
        cases hread' : readDeltaVarintLoop (delta.drop idx) idx 0 0 with
        | error e => rfl
        | ok found' =>
            obtain ⟨targetSize, stop⟩ := found'
            obtain ⟨hstart, hstop⟩ := readDeltaVarintLoop_stop hread'
            rw [List.length_drop] at hstop
            have hconsumed : idx + (stop - idx) = stop := by omega
            simp only [hconsumed]
            by_cases hlarge : maxEntryBytes < targetSize
            · rw [if_pos hlarge, if_pos hlarge]
            · rw [if_neg hlarge, if_neg hlarge,
                opsAt_eq base delta.length [] (by omega : stop ≤ delta.length)]
              cases applyOps base delta.length (delta.drop stop) [] with
              | error e => rfl
              | ok out =>
                  simp only []
                  split_ifs <;> rfl
      · rw [if_pos hsource, if_pos hsource]

end NativePack
end Artifacts
