import Mathlib.Data.List.Basic

/-!
# Frames read off the front of a buffer

A reader takes one frame off the front of a buffer and returns what is left.
`frames read buf` is the list of frames obtained by reading until the buffer is
empty or a frame is malformed.  The rules say what comes back when the buffer was
written frame by frame.

`Consuming` is all that is asked of the reader: what it returns is shorter than what it was given.
So the number of rounds is bounded by the length of the buffer.
-/

namespace Artifacts
namespace Foundation

variable {β ι ε : Type*}

/-- Reading with a bound on the number of frames. -/
def readFrames (read : List β → Except ε (ι × List β)) : Nat → List β → List (Except ε ι)
  | 0, _ => []
  | _ + 1, [] => []
  | fuel + 1, b :: buf =>
      match read (b :: buf) with
      | .ok (frame, rest) => .ok frame :: readFrames read fuel rest
      | .error e => [.error e]

/-- A frame takes at least one element, so the length bounds the frames. -/
def frames (read : List β → Except ε (ι × List β)) (buf : List β) : List (Except ε ι) :=
  readFrames read buf.length buf

/-- A reader that never returns more than it was given, less one element. -/
def Consuming (read : List β → Except ε (ι × List β)) : Prop :=
  ∀ buf frame rest, read buf = .ok (frame, rest) → rest.length < buf.length

variable {read : List β → Except ε (ι × List β)}

@[simp] theorem frames_nil : frames read [] = [] := rfl

/-- Any two bounds that cover the buffer read the same frames. -/
theorem readFrames_eq_of_le (hread : Consuming read) {fuel fuel' : Nat} {buf : List β}
    (hfuel : buf.length ≤ fuel) (hfuel' : buf.length ≤ fuel') :
    readFrames read fuel buf = readFrames read fuel' buf := by
  induction fuel generalizing fuel' buf with
  | zero =>
      obtain rfl : buf = [] := List.length_eq_zero_iff.mp (by omega)
      cases fuel' <;> rfl
  | succ fuel ih =>
      cases buf with
      | nil => cases fuel' <;> rfl
      | cons b buf =>
          cases fuel' with
          | zero => simp at hfuel'
          | succ fuel' =>
              rw [readFrames, readFrames]
              cases hb : read (b :: buf) with
              | error e => rfl
              | ok result =>
                  obtain ⟨frame, rest⟩ := result
                  have hlt : rest.length < (b :: buf).length := hread _ _ _ hb
                  simp only [List.length_cons] at hlt hfuel hfuel'
                  simp only [ih (show rest.length ≤ fuel by omega)
                    (show rest.length ≤ fuel' by omega)]

/-- One frame off the front. -/
theorem frames_of_read (hread : Consuming read) {buf rest : List β} {frame : ι}
    (h : read buf = .ok (frame, rest)) : frames read buf = .ok frame :: frames read rest := by
  have hlt := hread _ _ _ h
  cases buf with
  | nil => simp at hlt
  | cons b buf =>
      rw [frames, List.length_cons, readFrames, h]
      simp only [List.length_cons] at hlt
      simp only [frames]
      rw [readFrames_eq_of_le hread (show rest.length ≤ buf.length by omega) (Nat.le_refl _)]

/-- **Round trip.** What was written frame by frame is read frame by frame. -/
theorem frames_flatMap (hread : Consuming read) {γ : Type*} {write : γ → List β}
    {frame : γ → ι} {items : List γ}
    (hwrite : ∀ x ∈ items, ∀ rest, read (write x ++ rest) = .ok (frame x, rest))
    (rest : List β) :
    frames read (items.flatMap write ++ rest) =
      items.map (fun x => .ok (frame x)) ++ frames read rest := by
  induction items with
  | nil => rfl
  | cons x items ih =>
      have hhead := hwrite x List.mem_cons_self (items.flatMap write ++ rest)
      rw [List.flatMap_cons, List.append_assoc, frames_of_read hread hhead,
        ih fun y hy => hwrite y (List.mem_cons_of_mem x hy)]
      rfl

end Foundation
end Artifacts
