import NanoVllm.Shared.Python

set_option autoImplicit false

namespace Bytes

open Python

def toBytes : Nat → Nat → List UInt8
  | 0, _ => []
  | length + 1, n => UInt8.ofNat n :: toBytes length (n / 256)

def fromBytes : List UInt8 → Nat
  | [] => 0
  | byte :: bytes => byte.toNat + 256 * fromBytes bytes

@[simp] theorem length_toBytes (length n : Nat) : (toBytes length n).length = length := by
  induction length generalizing n with
  | zero => rfl
  | succ length ih => rw [toBytes, List.length_cons, ih]

theorem fromBytes_toBytes (length n : Nat) : fromBytes (toBytes length n) = n % 256 ^ length := by
  induction length generalizing n with
  | zero => rw [Nat.pow_zero, Nat.mod_one, toBytes, fromBytes]
  | succ length ih =>
      have low : (UInt8.ofNat n).toNat = n % 256 := UInt8.toNat_ofNat' ..
      rw [toBytes, fromBytes, ih, low, Nat.pow_succ, Nat.mul_comm (256 ^ length), Nat.mod_mul]

section Splice

variable {α : Type} {buf data : List α} {i : Nat}

-- `buf[i:j] = data` where the slice is as long as `data`.
def splice (buf : List α) (i : Nat) (data : List α) : List α := buf.take i ++ data ++ buf.drop (i + data.length)

theorem length_slice_add (start : i ≤ buf.length) :
    data.length = (slice buf i (i + data.length)).length ↔ i + data.length ≤ buf.length := by
  rw [length_slice]
  omega

theorem length_splice {j : Nat} (same : data.length = (slice buf i j).length) :
    (splice buf i data).length = buf.length := by
  rw [length_slice] at same
  simp only [splice, List.length_append, List.length_take, List.length_drop]
  omega

theorem slice_splice (start : i ≤ buf.length) : slice (splice buf i data) i (i + data.length) = data := by
  have front : (buf.take i).length = i := List.length_take_of_le start
  have whole : (buf.take i ++ data).length = i + data.length := by rw [List.length_append, front]
  unfold slice splice
  rw [List.take_left' whole, List.drop_left' front]

theorem slice_splice_before {j : Nat} (start : i ≤ buf.length) (before : j ≤ i) :
    slice (splice buf i data) 0 j = slice buf 0 j := by
  have front : (buf.take i).length = i := List.length_take_of_le start
  unfold slice splice
  rw [List.append_assoc, List.take_append_of_le_length (by rw [front]; exact before), List.take_take,
    Nat.min_eq_left before]

theorem drop_splice (start : i ≤ buf.length) : (splice buf i data).drop i = data ++ (buf.drop i).drop data.length := by
  have front : (buf.take i).length = i := List.length_take_of_le start
  unfold splice
  rw [List.append_assoc, List.drop_left' front, List.drop_drop]

end Splice

end Bytes
