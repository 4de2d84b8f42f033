import AstraSync.Library.ByteStrings

namespace AstraSync.LittleEndian

open ByteStrings

def put : ℕ → ℕ → Bytes
  | 0, _ => []
  | width + 1, n => UInt8.ofNat n :: put width (n / 256)

def value : Bytes → ℕ
  | [] => 0
  | b :: bs => b.toNat + 256 * value bs

@[simp] theorem put_length (width n : ℕ) : (put width n).length = width := by
  induction width generalizing n with
  | zero => rfl
  | succ width ih => simp [put, ih]

theorem value_put (width n : ℕ) : value (put width n) = n % 256 ^ width := by
  induction width generalizing n with
  | zero => simp [put, value, Nat.mod_one]
  | succ width ih =>
    rw [put, value, ih, pow_succ', Nat.mod_mul, UInt8.toNat_ofNat']

def read (width : ℕ) (data : Bytes) : Option (ℕ × Bytes) :=
  if width ≤ data.length then some (value (data.take width), data.drop width) else none

theorem read_put {width n : ℕ} (back : Bytes) (h : n < 256 ^ width) :
    read width (put width n ++ back) = some (n, back) := by
  rw [read, if_pos (by simp), List.take_left' (put_length width n),
    List.drop_left' (put_length width n), value_put, Nat.mod_eq_of_lt h]

theorem value_lt (bs : Bytes) : value bs < 256 ^ bs.length := by
  induction bs with
  | nil => simp [value]
  | cons b bs ih =>
    have hb := b.toNat_lt
    rw [value, List.length_cons, pow_succ']
    omega

theorem put_value (bs : Bytes) : put bs.length (value bs) = bs := by
  induction bs with
  | nil => rfl
  | cons b bs ih =>
    have hb := b.toNat_lt
    have hlow : UInt8.ofNat (b.toNat + 256 * value bs) = b := by
      rw [← UInt8.toNat_inj, UInt8.toNat_ofNat']
      omega
    have hhigh : (b.toNat + 256 * value bs) / 256 = value bs := by omega
    rw [List.length_cons, value, put, hlow, hhigh, ih]

theorem read_eq_some {width n : ℕ} {data rest : Bytes} (h : read width data = some (n, rest)) :
    data = put width n ++ rest ∧ n < 256 ^ width := by
  unfold read at h
  split at h
  · next hwidth =>
    cases h
    have hput := put_value (data.take width)
    have hlt := value_lt (data.take width)
    rw [List.length_take_of_le hwidth] at hput hlt
    exact ⟨by rw [hput, List.take_append_drop], hlt⟩
  · cases h

end AstraSync.LittleEndian
