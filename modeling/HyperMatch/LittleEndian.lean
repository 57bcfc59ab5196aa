import Mathlib.Data.Nat.Bitwise
import Mathlib.Tactic.Ring
import Mathlib.Tactic.Linarith

/-!
Natural numbers as fixed-width little-endian byte strings, and the two ways in
which programs compute them: by division and remainder, and by shifts and
bitwise or.
-/
namespace HyperMatch.LittleEndian

/-- The `width` low bytes of `v`, least significant first. -/
def leBytes : Nat → Nat → List UInt8
  | 0, _ => []
  | width+1, v => UInt8.ofNat v :: leBytes width (v / 256)

/-- The number that a little-endian byte string spells. -/
def ofLeBytes : List UInt8 → Nat
  | [] => 0
  | b :: rest => b.toNat + 256 * ofLeBytes rest

@[simp] theorem leBytes_length (width v : Nat) : (leBytes width v).length = width := by
  induction width generalizing v with
  | zero => rfl
  | succ width ih => simp [leBytes,ih]

theorem ofLeBytes_lt (bytes : List UInt8) : ofLeBytes bytes < 256 ^ bytes.length := by
  induction bytes with
  | nil => simp [ofLeBytes]
  | cons b rest ih =>
    have small : b.toNat < 256 := b.toNat_lt
    simp only [ofLeBytes,List.length_cons,Nat.pow_succ]
    omega

/-- Reading back the written bytes gives the number, modulo its width. -/
theorem ofLeBytes_leBytes (width v : Nat) : ofLeBytes (leBytes width v) = v % 256 ^ width := by
  induction width generalizing v with
  | zero => simp [leBytes,ofLeBytes,Nat.mod_one]
  | succ width ih =>
    simp only [leBytes,ofLeBytes,ih,UInt8.toNat_ofNat']
    rw [show 256 ^ (width+1) = 256 * 256 ^ width from Nat.pow_succ',Nat.mod_mul]

/-- Writing a number that was read gives its bytes again. -/
theorem leBytes_ofLeBytes (bytes : List UInt8) : leBytes bytes.length (ofLeBytes bytes) = bytes := by
  induction bytes with
  | nil => rfl
  | cons b rest ih =>
    have small : b.toNat < 256 := b.toNat_lt
    have quotient : (b.toNat + 256 * ofLeBytes rest) / 256 = ofLeBytes rest := by omega
    have low : UInt8.ofNat (b.toNat + 256 * ofLeBytes rest) = b := by
      apply UInt8.toNat_inj.mp
      simp only [UInt8.toNat_ofNat']
      omega
    simp only [List.length_cons,ofLeBytes,leBytes,low,quotient,ih]

/-- The bytes taken by shifting right a byte at a time are the little-endian
    bytes. -/
theorem leBytes_eq_map_shift (width v : Nat) :
    leBytes width v = (List.range width).map (fun i => UInt8.ofNat (v >>> (8*i))) := by
  induction width generalizing v with
  | zero => rfl
  | succ width ih =>
    rw [leBytes,ih,List.range_succ_eq_map]
    simp only [List.map_cons,List.map_map,Nat.mul_zero,Nat.shiftRight_zero]
    congr 1
    apply List.map_congr_left
    intro i _
    simp only [Function.comp,Nat.shiftRight_eq_div_pow,Nat.div_div_eq_div_mul]
    congr 2
    rw [show 8*(i+1) = 8 + 8*i by ring,Nat.pow_add]

/-- Adding a byte above the bytes read so far is or-ing it in, shifted. -/
theorem or_shift_eq_add {low byte position : Nat} (below : low < 2 ^ position) :
    low ||| byte <<< position = low + byte * 2 ^ position := by
  rw [Nat.or_comm,← Nat.shiftLeft_add_eq_or_of_lt below,Nat.shiftLeft_eq]
  ring

/-- The value of a string that ends with a byte. -/
theorem ofLeBytes_concat (bytes : List UInt8) (b : UInt8) :
    ofLeBytes (bytes ++ [b]) = ofLeBytes bytes + b.toNat * 2 ^ (8 * bytes.length) := by
  induction bytes with
  | nil => simp [ofLeBytes]
  | cons a rest ih =>
    simp only [List.cons_append,ofLeBytes,ih,List.length_cons]
    rw [show 8 * (rest.length+1) = 8 + 8 * rest.length by ring,Nat.pow_add]
    ring

/-- The value of a string is below the power of two of its width in bits. -/
theorem ofLeBytes_lt_two_pow (bytes : List UInt8) : ofLeBytes bytes < 2 ^ (8 * bytes.length) := by
  have bound := ofLeBytes_lt bytes
  rwa [show (256 : Nat) = 2 ^ 8 by norm_num,← Nat.pow_mul] at bound

/-- The value of the first `n+1` bytes, from that of the first `n` and the next
    byte; a missing byte counts 0. -/
theorem ofLeBytes_take_succ (bytes : List UInt8) (n : Nat) :
    ofLeBytes (bytes.take (n+1)) = ofLeBytes (bytes.take n) ||| (bytes.getD n 0).toNat <<< (8*n) := by
  by_cases inside : n < bytes.length
  · have split : bytes.take (n+1) = bytes.take n ++ [bytes.getD n 0] := by
      rw [List.getD_eq_getElem _ _ inside]
      exact List.take_succ_eq_append_getElem inside
    have taken : (bytes.take n).length = n := by simp; omega
    have below := ofLeBytes_lt_two_pow (bytes.take n)
    rw [taken] at below
    rw [split,ofLeBytes_concat,taken,or_shift_eq_add below]
  · rw [List.take_of_length_le (by omega : bytes.length ≤ n+1),List.take_of_length_le (by omega : bytes.length ≤ n),
      List.getD_eq_default _ _ (by omega)]
    simp

theorem ofLeBytes_take_lt (bytes : List UInt8) (n : Nat) : ofLeBytes (bytes.take n) < 2 ^ (8*n) := by
  have bound := ofLeBytes_lt_two_pow (bytes.take n)
  exact bound.trans_le (Nat.pow_le_pow_right (by norm_num) (by simp))

/-- A byte shifted to a position inside a word stays inside the word. -/
theorem shift_byte_lt (b : UInt8) {n width : Nat} (inside : n < width) : b.toNat <<< (8*n) < 2 ^ (8*width) := by
  have byte : b.toNat < 2 ^ 8 := b.toNat_lt
  rw [Nat.shiftLeft_eq]
  calc b.toNat * 2 ^ (8*n) < 2 ^ 8 * 2 ^ (8*n) := by gcongr
    _ = 2 ^ (8*(n+1)) := by rw [← Nat.pow_add]; congr 1; ring
    _ ≤ 2 ^ (8*width) := Nat.pow_le_pow_right (by norm_num) (by omega)

end HyperMatch.LittleEndian
