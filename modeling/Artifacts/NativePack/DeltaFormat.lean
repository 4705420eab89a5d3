import Artifacts.NativePack.DeltaCursor
import Artifacts.NativePack.Varints
import Mathlib.Logic.Relation

/-!
# The delta format

What a delta means: behind the two sizes stands a list of instructions, each of which
yields a range of the base or bytes of its own.  `applyDelta` accepts the well-formed deltas
and no others, with the output they describe, and none of its index operations is out of
bounds.  The declared size is compared with the output once, behind the loop, so the output
may be longer on the way.

* `Reads` is the grammar of one instruction, `WellFormedDelta` that of a delta for a base.
* `Visits` are the states of the loop, for what holds before it has ended.
* `leading` are the instructions that the loop gets through.

The sizes in front are read by `readDeltaVarint`, whose limits are the subject of `Varints`.
-/

namespace Artifacts
namespace NativePack

open Foundation Varint

/-! ### Instructions -/

inductive Instr where
  | copy (offset size : Nat)
  | insert (bytes : List UInt8)
  deriving DecidableEq, Repr

/-- The bytes an instruction yields. -/
def Instr.output (base : List UInt8) : Instr → List UInt8
  | .copy offset size => (base.drop offset).take size
  | .insert bytes => bytes

def Instr.size : Instr → Nat
  | .copy _ size => size
  | .insert bytes => bytes.length

/-- A copied range lies inside the base. -/
def Instr.Inside (base : List UInt8) : Instr → Prop
  | .copy offset size => offset + size ≤ base.length
  | .insert _ => True

instance (base : List UInt8) : DecidablePred (Instr.Inside base)
  | .copy offset size => inferInstanceAs (Decidable (offset + size ≤ base.length))
  | .insert _ => inferInstanceAs (Decidable True)

/-- A number of which some bytes are left out, least byte first. -/
def operand : List Bool → List UInt8 → Option (Nat × List UInt8)
  | [], rest => some (0, rest)
  | false :: bits, rest =>
      match operand bits rest with
      | none => none
      | some (v, rest) => some (256 * v, rest)
  | true :: _, [] => none
  | true :: bits, b :: rest =>
      match operand bits rest with
      | none => none
      | some (v, rest) => some (b.toNat + 256 * v, rest)

/-- The bits of an opcode from number `first` on. -/
def opBits (op : UInt8) (first count : Nat) : List Bool :=
  (List.range' 0 count).map fun i => op.toNat.testBit (first + i)

/-- One instruction.  A COPY has four optional offset bytes and three optional size bytes,
and no size stands for 0x10000; opcode 0 is reserved. -/
def readInstr : List UInt8 → Option (Instr × List UInt8)
  | [] => none
  | op :: rest =>
      if 128 ≤ op.toNat then
        match operand (opBits op 0 4) rest with
        | none => none
        | some (offset, rest) =>
            match operand (opBits op 4 3) rest with
            | none => none
            | some (size, rest) => some (.copy offset (if size = 0 then 0x10000 else size), rest)
      else if op.toNat = 0 ∨ rest.length < op.toNat then
        none
      else
        some (.insert (rest.take op.toNat), rest.drop op.toNat)

/-- The bytes are a list of instructions, up to the last byte. Nothing is said of the base yet: an
instruction may copy from behind its end. -/
inductive Reads : List UInt8 → List Instr → Prop where
  | done : Reads [] []
  | more {bytes rest : List UInt8} {i : Instr} {instrs : List Instr} :
      readInstr bytes = some (i, rest) → Reads rest instrs → Reads bytes (i :: instrs)

def totalSize (instrs : List Instr) : Nat := (instrs.map Instr.size).foldr (· + ·) 0

@[simp] theorem totalSize_nil : totalSize [] = 0 := rfl

@[simp] theorem totalSize_cons (i : Instr) (instrs : List Instr) :
    totalSize (i :: instrs) = i.size + totalSize instrs := rfl

/-- A delta for `base`, by the two sizes in front of its instructions. -/
structure WellFormedDelta (base delta : List UInt8) (target : Nat) (instrs : List Instr) : Prop where
  sizes : ∃ idx consumed, readDeltaVarint delta 0 = .ok (base.length, idx) ∧
    readDeltaVarint delta idx = .ok (target, consumed) ∧
    Reads (delta.drop (idx + consumed)) instrs
  inside : ∀ i ∈ instrs, i.Inside base
  total : totalSize instrs = target
  bounded : target ≤ maxEntryBytes

theorem length_output {base : List UInt8} {i : Instr} (h : i.Inside base) :
    (i.output base).length = i.size := by
  cases i with
  | copy offset size =>
      have hfits : offset + size ≤ base.length := h
      show ((base.drop offset).take size).length = size
      rw [List.length_take, List.length_drop]
      omega
  | insert bytes => rfl

theorem length_flatMap_output {base : List UInt8} {instrs : List Instr}
    (h : ∀ i ∈ instrs, i.Inside base) :
    (instrs.flatMap (Instr.output base)).length = totalSize instrs := by
  induction instrs with
  | nil => rfl
  | cons i instrs ih =>
      rw [List.flatMap_cons, List.length_append, length_output (h i List.mem_cons_self),
        ih fun j hj => h j (List.mem_cons_of_mem i hj), totalSize_cons]

/-! ### One operation of the loop -/

theorem pow_256 (k : Nat) : 2 ^ ((k + 1) * 8) = 256 * 2 ^ (k * 8) := by
  rw [Nat.succ_mul, Nat.pow_add, Nat.mul_comm]

/-- The loop over the optional bytes computes the number they stand for. -/
theorem readCopyField_eq (what : String) (op : UInt8) (first count start : Nat)
    {rest : List UInt8} {value : Nat} (hvalue : value < 2 ^ (start * 8)) :
    match operand ((List.range' start count).map fun i => op.toNat.testBit (first + i)) rest with
    | none => ∃ e, readCopyField what op first (List.range' start count) rest value = .error e
    | some (v, rest') =>
        readCopyField what op first (List.range' start count) rest value =
          .ok (value + 2 ^ (start * 8) * v, rest') := by
  induction count generalizing start rest value with
  | zero => rfl
  | succ count ih =>
      -- what has been read so far lies below the next byte, so `|=` and `+` are the same
      have hwide : value < 2 ^ ((start + 1) * 8) := by
        rw [pow_256]
        omega
      rw [List.range'_succ, List.map_cons]
      cases hbit : op.toNat.testBit (first + start) with
      | false =>
          have hskip : readCopyField what op first (start :: List.range' (start + 1) count) rest
              value = readCopyField what op first (List.range' (start + 1) count) rest value := by
            rw [readCopyField.eq_def]
            simp only [hbit, Bool.false_eq_true, if_false]
          have hih := @ih (start + 1) rest value hwide
          rw [hskip, operand]
          cases hoperand : operand ((List.range' (start + 1) count).map fun i =>
              op.toNat.testBit (first + i)) rest with
          | none =>
              rw [hoperand] at hih
              exact hih
          | some found =>
              rw [hoperand] at hih
              simp only [] at hih ⊢
              rw [hih, pow_256, Nat.mul_comm 256, Nat.mul_assoc]
      | true =>
          cases rest with
          | nil =>
              show ∃ e, readCopyField what op first (start :: List.range' (start + 1) count) []
                value = .error e
              rw [readCopyField, hbit]
              exact ⟨_, rfl⟩
          | cons b rest =>
              have hb : b.toNat < 256 := b.toNat_lt
              have hnext : value + 2 ^ (start * 8) * b.toNat < 2 ^ ((start + 1) * 8) := by
                have hle : 2 ^ (start * 8) * b.toNat ≤ 2 ^ (start * 8) * 255 :=
                  Nat.mul_le_mul_left _ (by omega)
                rw [pow_256]
                omega
              have htake : readCopyField what op first (start :: List.range' (start + 1) count)
                  (b :: rest) value = readCopyField what op first (List.range' (start + 1) count)
                    rest (value + 2 ^ (start * 8) * b.toNat) := by
                rw [readCopyField, hbit]
                simp only [if_true]
                rw [or_shiftLeft hvalue]
              have hih := @ih (start + 1) rest _ hnext
              rw [htake, operand]
              cases hoperand : operand ((List.range' (start + 1) count).map fun i =>
                  op.toNat.testBit (first + i)) rest with
              | none =>
                  rw [hoperand] at hih
                  exact hih
              | some found =>
                  rw [hoperand] at hih
                  simp only [] at hih ⊢
                  rw [hih, pow_256, Nat.mul_add, Nat.mul_comm 256, Nat.mul_assoc, Nat.add_assoc]

/-- What the loop takes from an operation: the output of the instruction that stands there,
if it lies inside the base. -/
def readPiece (base : List UInt8) (op : UInt8) (rest : List UInt8) :
    Result (List UInt8 × List UInt8) :=
  if op &&& 0x80 ≠ 0 then readCopy base op rest else readInsert op rest

/-- The range a COPY asks for, with git's reading of its operands. -/
def copyInstr (op : UInt8) (rest : List UInt8) : Option (Instr × List UInt8) :=
  match operand (opBits op 0 4) rest with
  | none => none
  | some (offset, rest) =>
      match operand (opBits op 4 3) rest with
      | none => none
      | some (size, rest) => some (.copy offset (if size = 0 then 0x10000 else size), rest)

theorem readInstr_of_copy {op : UInt8} (h : 128 ≤ op.toNat) (rest : List UInt8) :
    readInstr (op :: rest) = copyInstr op rest := by
  rw [readInstr, if_pos h]
  rfl

theorem readCopy_eq (base : List UInt8) (op : UInt8) (rest : List UInt8) :
    match copyInstr op rest with
    | none => ∃ e, readCopy base op rest = .error e
    | some (i, rest') =>
        (i.Inside base → readCopy base op rest = .ok (i.output base, rest')) ∧
          (¬ i.Inside base → ∃ e, readCopy base op rest = .error e) := by
  have hoffset := @readCopyField_eq "offset" op 0 4 0 rest 0 (by decide)
  have hbits : (List.range' 0 4).map (fun i => op.toNat.testBit (0 + i)) = opBits op 0 4 := rfl
  have hshifts : List.range' 0 4 = [0, 1, 2, 3] := rfl
  rw [hbits, hshifts] at hoffset
  unfold copyInstr readCopy
  cases hfirst : operand (opBits op 0 4) rest with
  | none =>
      rw [hfirst] at hoffset
      obtain ⟨e, he⟩ := hoffset
      exact ⟨e, by rw [he]⟩
  | some found =>
      obtain ⟨offset, rest'⟩ := found
      have hsize := @readCopyField_eq "size" op 4 3 0 rest' 0 (by decide)
      have hbits' : (List.range' 0 3).map (fun i => op.toNat.testBit (4 + i)) = opBits op 4 3 :=
        rfl
      have hshifts' : List.range' 0 3 = [0, 1, 2] := rfl
      rw [hbits', hshifts'] at hsize
      rw [hfirst] at hoffset
      simp only [Nat.zero_mul, Nat.pow_zero, Nat.one_mul, Nat.zero_add] at hoffset hsize
      simp only [hoffset]
      cases hsecond : operand (opBits op 4 3) rest' with
      | none =>
          rw [hsecond] at hsize
          obtain ⟨e, he⟩ := hsize
          exact ⟨e, by rw [he]⟩
      | some found' =>
          obtain ⟨size, rest''⟩ := found'
          rw [hsecond] at hsize
          simp only [] at hsize
          simp only [hsize]
          constructor
          · intro hinside
            have hfits : ¬ base.length < offset + (if size = 0 then 0x10000 else size) :=
              Nat.not_lt.mpr hinside
            rw [if_neg hfits, List.drop_take, Nat.add_sub_cancel_left]
            rfl
          · intro hout
            have hbeyond : base.length < offset + (if size = 0 then 0x10000 else size) :=
              Nat.not_le.mp hout
            exact ⟨_, if_pos hbeyond⟩

theorem readInsert_eq (base : List UInt8) {op : UInt8} (h : ¬ 128 ≤ op.toNat)
    (rest : List UInt8) :
    match readInstr (op :: rest) with
    | none => ∃ e, readInsert op rest = .error e
    | some (i, rest') =>
        (i.Inside base → readInsert op rest = .ok (i.output base, rest')) ∧
          (¬ i.Inside base → ∃ e, readInsert op rest = .error e) := by
  have hcount : (op &&& 0x7f).toNat = op.toNat := by
    rw [and_0x7f]
    exact Nat.mod_eq_of_lt (Nat.not_le.mp h)
  rw [readInstr, if_neg h]
  unfold readInsert
  simp only [hcount]
  by_cases hzero : op.toNat = 0
  · rw [if_pos (Or.inl hzero), if_pos hzero]
    exact ⟨_, rfl⟩
  · by_cases hshort : rest.length < op.toNat
    · rw [if_pos (Or.inr hshort), if_neg hzero, if_pos hshort]
      exact ⟨_, rfl⟩
    · have hboth : ¬ (op.toNat = 0 ∨ rest.length < op.toNat) := by
        rintro (h0 | h1)
        · exact hzero h0
        · exact hshort h1
      rw [if_neg hboth, if_neg hzero, if_neg hshort]
      exact ⟨fun _ => rfl, fun hout => absurd trivial hout⟩

/-- **One operation.** The loop takes the output of the instruction that stands there, and
stops at anything that is no instruction or reaches beyond the base. -/
theorem readPiece_eq (base : List UInt8) (op : UInt8) (rest : List UInt8) :
    match readInstr (op :: rest) with
    | none => ∃ e, readPiece base op rest = .error e
    | some (i, rest') =>
        (i.Inside base → readPiece base op rest = .ok (i.output base, rest')) ∧
          (¬ i.Inside base → ∃ e, readPiece base op rest = .error e) := by
  unfold readPiece
  by_cases hcopy : 128 ≤ op.toNat
  · have hbit : op &&& 0x80 ≠ 0 := and_0x80_of_continues (decide_eq_true hcopy)
    rw [if_pos hbit, readInstr_of_copy hcopy]
    exact readCopy_eq base op rest
  · have hbit : ¬ op &&& 0x80 ≠ 0 := not_not.mpr ((and_0x80 op).mpr (decide_eq_false hcopy))
    rw [if_neg hbit]
    exact readInsert_eq base hcopy rest

/-! ### The loop -/

theorem length_operand {bits : List Bool} {rest rest' : List UInt8} {v : Nat}
    (h : operand bits rest = some (v, rest')) : rest'.length ≤ rest.length := by
  induction bits generalizing rest v with
  | nil =>
      cases h
      exact Nat.le_refl _
  | cons bit bits ih =>
      cases bit with
      | false =>
          rw [operand] at h
          split at h
          · cases h
          · rename_i hoperand
            cases h
            exact ih hoperand
      | true =>
          cases rest with
          | nil => cases h
          | cons b rest =>
              rw [operand] at h
              split at h
              · cases h
              · rename_i hoperand
                cases h
                exact Nat.le_succ_of_le (ih hoperand)

/-- An instruction takes at least its opcode. -/
theorem length_readInstr {op : UInt8} {rest rest' : List UInt8} {i : Instr}
    (h : readInstr (op :: rest) = some (i, rest')) : rest'.length ≤ rest.length := by
  by_cases hcopy : 128 ≤ op.toNat
  · rw [readInstr_of_copy hcopy, copyInstr] at h
    split at h
    · cases h
    · rename_i hoffset
      split at h
      · cases h
      · rename_i hsize
        cases h
        exact Nat.le_trans (length_operand hsize) (length_operand hoffset)
  · rw [readInstr, if_neg hcopy] at h
    split_ifs at h
    cases h
    rw [List.length_drop]
    exact Nat.sub_le _ _

/-- The state of the loop: the bytes that are left, and the output so far. -/
structure LoopState where
  rest : List UInt8
  out : List UInt8

/-- One turn of the loop: it takes an opcode with its operands off the front, and puts the piece
they stand for behind the output. -/
inductive Turn (base : List UInt8) : LoopState → LoopState → Prop where
  | mk {op : UInt8} {rest rest' out piece : List UInt8} :
      readPiece base op rest = .ok (piece, rest') →
      Turn base ⟨op :: rest, out⟩ ⟨rest', out ++ piece⟩

/-- The states of the loop that starts on these bytes. -/
def Visits (base body : List UInt8) : LoopState → Prop :=
  Relation.ReflTransGen (Turn base) ⟨body, []⟩

theorem applyOps_cons (base : List UInt8) (fuel : Nat) (op : UInt8) (rest out : List UInt8) :
    applyOps base (fuel + 1) (op :: rest) out =
      match readPiece base op rest with
      | .error e => .error e
      | .ok (piece, rest') => applyOps base fuel rest' (out ++ piece) := rfl

/-- At the end of the delta no instruction is left. -/
theorem applyOps_nil_eq_ok {base out result : List UInt8} (fuel : Nat) :
    applyOps base fuel [] out = .ok result ↔
      ∃ instrs, Reads [] instrs ∧ (∀ i ∈ instrs, i.Inside base) ∧
        result = out ++ instrs.flatMap (Instr.output base) := by
  have hdone : applyOps base fuel [] out = .ok out := by cases fuel <;> rfl
  rw [hdone]
  constructor
  · intro h
    cases h
    exact ⟨[], Reads.done, nofun, (List.append_nil _).symm⟩
  · rintro ⟨instrs, hreads, -, rfl⟩
    cases hreads with
    | done => rw [List.flatMap_nil, List.append_nil]
    | more hinstr _ => cases hinstr

theorem reads_cons_iff {op : UInt8} {rest : List UInt8} {instrs : List Instr} :
    Reads (op :: rest) instrs ↔ ∃ i rest' instrs', readInstr (op :: rest) = some (i, rest') ∧
      Reads rest' instrs' ∧ instrs = i :: instrs' := by
  constructor
  · intro h
    cases h with
    | more hinstr hreads => exact ⟨_, _, _, hinstr, hreads, rfl⟩
  · rintro ⟨i, rest', instrs', hinstr, hreads, rfl⟩
    exact Reads.more hinstr hreads

/-- The loop ends well on lists of instructions inside the base, with their output. -/
theorem applyOps_eq_ok {base : List UInt8} {fuel : Nat} {rest out result : List UInt8}
    (hfuel : rest.length ≤ fuel) :
    applyOps base fuel rest out = .ok result ↔
      ∃ instrs, Reads rest instrs ∧ (∀ i ∈ instrs, i.Inside base) ∧
        result = out ++ instrs.flatMap (Instr.output base) := by
  induction fuel generalizing rest out with
  | zero =>
      obtain rfl : rest = [] := List.length_eq_zero_iff.mp (Nat.le_zero.mp hfuel)
      exact applyOps_nil_eq_ok 0
  | succ fuel ih =>
      cases rest with
      | nil => exact applyOps_nil_eq_ok (fuel + 1)
      | cons op rest =>
          have hpiece := readPiece_eq base op rest
          simp only [applyOps_cons, reads_cons_iff]
          cases hinstr : readInstr (op :: rest) with
          | none =>
              rw [hinstr] at hpiece
              obtain ⟨e, he⟩ := hpiece
              rw [he]
              constructor
              · intro h
                cases h
              · rintro ⟨instrs, ⟨i, rest', instrs', hread, -⟩, -⟩
                cases hread
          | some found =>
              obtain ⟨i, rest'⟩ := found
              rw [hinstr] at hpiece
              obtain ⟨hok, herror⟩ := hpiece
              have hshort : rest'.length ≤ fuel := by
                have hlength := length_readInstr hinstr
                rw [List.length_cons] at hfuel
                omega
              -- an instruction that can be read may still reach beyond the base
              by_cases hinside : i.Inside base
              · rw [hok hinside]
                simp only []
                rw [ih hshort]
                constructor
                · rintro ⟨instrs, hreads, hall, rfl⟩
                  refine ⟨i :: instrs, ⟨i, rest', instrs, rfl, hreads, rfl⟩, ?_, ?_⟩
                  · exact List.forall_mem_cons.mpr ⟨hinside, hall⟩
                  · rw [List.flatMap_cons, List.append_assoc]
                · rintro ⟨instrs, ⟨_, _, instrs', hread, hreads, rfl⟩, hall, rfl⟩
                  cases hread
                  refine ⟨instrs', hreads, (List.forall_mem_cons.mp hall).2, ?_⟩
                  rw [List.flatMap_cons, List.append_assoc]
              · obtain ⟨e, he⟩ := herror hinside
                rw [he]
                constructor
                · intro h
                  cases h
                · rintro ⟨instrs, ⟨_, _, instrs', hread, -, rfl⟩, hall, -⟩
                  cases hread
                  exact absurd (hall i List.mem_cons_self) hinside

theorem applyDelta_eq_ok_iff {base delta out : List UInt8} :
    applyDelta base delta = .ok out ↔ ∃ target instrs, WellFormedDelta base delta target instrs ∧
      out = instrs.flatMap (Instr.output base) := by
  constructor
  · intro h
    unfold applyDelta at h
    split at h
    · cases h
    rename_i sourceSize idx hsource
    split_ifs at h with hsame
    split at h
    · cases h
    rename_i target consumed htarget
    split_ifs at h with hlarge
    split at h
    · cases h
    rename_i result hloop
    split_ifs at h with htotal
    cases h
    have hfuel : (delta.drop (idx + consumed)).length ≤ delta.length := by
      rw [List.length_drop]
      exact Nat.sub_le _ _
    obtain ⟨instrs, hreads, hinside, rfl⟩ := (applyOps_eq_ok hfuel).mp hloop
    rw [List.nil_append] at htotal
    refine ⟨target, instrs, ⟨⟨idx, consumed, ?_, htarget, hreads⟩, hinside, ?_, ?_⟩,
      List.nil_append _⟩
    · rw [← not_not.mp hsame]
      exact hsource
    · rw [← length_flatMap_output hinside]
      exact not_not.mp htotal
    · exact Nat.not_lt.mp hlarge
  · rintro ⟨target, instrs, ⟨⟨idx, consumed, hsource, htarget, hreads⟩, hinside, htotal,
      hbounded⟩, rfl⟩
    have hfuel : (delta.drop (idx + consumed)).length ≤ delta.length := by
      rw [List.length_drop]
      exact Nat.sub_le _ _
    have hloop : applyOps base delta.length (delta.drop (idx + consumed)) [] =
        .ok (instrs.flatMap (Instr.output base)) :=
      (applyOps_eq_ok hfuel).mpr ⟨instrs, hreads, hinside, (List.nil_append _).symm⟩
    have hlength := length_flatMap_output hinside
    unfold applyDelta
    simp only [hsource, htarget, hloop]
    rw [if_neg (not_not.mpr rfl), if_neg (Nat.not_lt.mpr hbounded),
      if_neg (not_not.mpr (hlength.trans htotal))]

/-- **What `apply_delta` accepts.** It never looks beyond its buffers, and succeeds on the
well-formed deltas for the base alone, with the bytes their instructions yield. This is for every
base and every delta, malformed ones included: what is no well-formed delta ends in an error and not
in a panic. -/
theorem apply_delta_ok_iff (base delta : List UInt8) :
    ∃ result, applyDeltaAt base delta = some result ∧
      ∀ out, result = .ok out ↔ ∃ target instrs, WellFormedDelta base delta target instrs ∧
        out = instrs.flatMap (Instr.output base) :=
  ⟨applyDelta base delta, applyDeltaAt_eq base delta, fun _ => applyDelta_eq_ok_iff⟩

/-! ### The output on the way -/

/-- The instructions at the front of the bytes, up to the first thing that is none or
reaches beyond the base. -/
def leading (base : List UInt8) : Nat → List UInt8 → List Instr
  | 0, _ => []
  | fuel + 1, bytes =>
      match readInstr bytes with
      | none => []
      | some (i, rest) => if i.Inside base then i :: leading base fuel rest else []

/-- The loop of `apply_delta` runs on `body`, under this declared size: the two sizes at the front
were read, and fit the base and the cap. -/
def LoopRuns (base delta : List UInt8) (target : Nat) (body : List UInt8) : Prop :=
  ∃ idx consumed, readDeltaVarint delta 0 = .ok (base.length, idx) ∧
    readDeltaVarint delta idx = .ok (target, consumed) ∧ target ≤ maxEntryBytes ∧
    body = delta.drop (idx + consumed)

/-- At every turn the output is within the declared size, and that within the limit. -/
def OutputBounded (base delta : List UInt8) : Prop :=
  ∀ target body, LoopRuns base delta target body → ∀ st, Visits base body st →
    st.out.length ≤ target ∧ target ≤ maxEntryBytes

/-- The output only grows, up to the size of the leading instructions. -/
theorem visits_length {base : List UInt8} {fuel : Nat} {start st : LoopState}
    (hfuel : start.rest.length ≤ fuel) (h : Relation.ReflTransGen (Turn base) start st) :
    st.out.length ≤ start.out.length + totalSize (leading base fuel start.rest) := by
  induction fuel generalizing start with
  | zero =>
      rcases h.cases_head with rfl | ⟨mid, hturn, -⟩
      · exact Nat.le_add_right _ _
      · cases hturn
        exact absurd hfuel (by simp)
  | succ fuel ih =>
      rcases h.cases_head with rfl | ⟨mid, hturn, hrest⟩
      · exact Nat.le_add_right _ _
      · cases hturn with
        | @mk op rest rest' out piece hread =>
            have hpiece := readPiece_eq base op rest
            cases hinstr : readInstr (op :: rest) with
            | none =>
                rw [hinstr] at hpiece
                obtain ⟨e, he⟩ := hpiece
                rw [hread] at he
                cases he
            | some found =>
                obtain ⟨i, tail⟩ := found
                rw [hinstr] at hpiece
                obtain ⟨hok, herror⟩ := hpiece
                by_cases hinside : i.Inside base
                · have heq := hok hinside
                  rw [hread] at heq
                  cases heq
                  have hshort : rest'.length ≤ fuel := by
                    have := length_readInstr hinstr
                    simp only [List.length_cons] at hfuel
                    omega
                  have := ih hshort hrest
                  simp only [List.length_append, length_output hinside] at this
                  simp only [leading, hinstr, if_pos hinside, totalSize_cons]
                  omega
                · obtain ⟨e, he⟩ := herror hinside
                  rw [hread] at he
                  cases he

/-- And it gets there. -/
theorem exists_visit {base : List UInt8} {fuel : Nat} (start : LoopState)
    (hfuel : start.rest.length ≤ fuel) :
    ∃ st, Relation.ReflTransGen (Turn base) start st ∧
      st.out.length = start.out.length + totalSize (leading base fuel start.rest) := by
  induction fuel generalizing start with
  | zero => exact ⟨start, Relation.ReflTransGen.refl, rfl⟩
  | succ fuel ih =>
      obtain ⟨rest, out⟩ := start
      cases rest with
      | nil => exact ⟨⟨[], out⟩, Relation.ReflTransGen.refl, rfl⟩
      | cons op rest =>
          have hpiece := readPiece_eq base op rest
          cases hinstr : readInstr (op :: rest) with
          | none =>
              refine ⟨⟨op :: rest, out⟩, Relation.ReflTransGen.refl, ?_⟩
              simp only [leading, hinstr, totalSize_nil, Nat.add_zero]
          | some found =>
              obtain ⟨i, tail⟩ := found
              rw [hinstr] at hpiece
              by_cases hinside : i.Inside base
              · have hturn : Turn base ⟨op :: rest, out⟩ ⟨tail, out ++ i.output base⟩ :=
                  Turn.mk (hpiece.1 hinside)
                have hshort : tail.length ≤ fuel := by
                  have := length_readInstr hinstr
                  simp only [List.length_cons] at hfuel
                  omega
                obtain ⟨st, hreach, hlength⟩ := ih ⟨tail, out ++ i.output base⟩ hshort
                refine ⟨st, Relation.ReflTransGen.head hturn hreach, ?_⟩
                simp only [List.length_append, length_output hinside] at hlength
                simp only [leading, hinstr, if_pos hinside, totalSize_cons]
                omega
              · refine ⟨⟨op :: rest, out⟩, Relation.ReflTransGen.refl, ?_⟩
                simp only [leading, hinstr, if_neg hinside, totalSize_nil, Nat.add_zero]

/-- **When the output stays within the declared size**: exactly when the leading instructions add up
to no more. The output is looked at after every turn of the loop, for every base and delta; that the
sizes differ is found only when the loop has ended. -/
theorem output_bounded_iff (base delta : List UInt8) :
    OutputBounded base delta ↔ ∀ target body, LoopRuns base delta target body →
      totalSize (leading base body.length body) ≤ target := by
  constructor
  · intro h target body hruns
    obtain ⟨st, hvisit, hlength⟩ := @exists_visit base body.length ⟨body, []⟩ (Nat.le_refl _)
    have hbound := (h target body hruns st hvisit).1
    simp only [List.length_nil, Nat.zero_add] at hlength
    omega
  · intro h target body hruns st hvisit
    have hlength := visits_length (Nat.le_refl body.length) hvisit
    simp only [List.length_nil, Nat.zero_add] at hlength
    have hsmall := h target body hruns
    obtain ⟨_, _, _, _, hbounded, _⟩ := hruns
    exact ⟨Nat.le_trans hlength hsmall, hbounded⟩

/-- A declared size of zero, and one COPY: the loop holds a byte. -/
theorem output_exceeds_target : ¬ ∀ base delta, OutputBounded base delta := by
  intro h
  have hruns : LoopRuns [7] [1, 0, 0x90, 1] 0 [0x90, 1] :=
    ⟨1, 1, by decide, by decide, by decide, rfl⟩
  have hsmall := (output_bounded_iff [7] [1, 0, 0x90, 1]).mp (h _ _) 0 [0x90, 1] hruns
  revert hsmall
  decide

end NativePack
end Artifacts
