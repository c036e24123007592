import RaidTest.Base.Bytes

/-!
# Records of fixed size

A field is stored in a fixed number of bytes and read back cut to that size. Records are built
from their fields, one behind the other, and arrays from their entries.
-/

namespace RaidTest.Base

/-- `put` stores a value in `size` bytes, `get` reads one at the head of a list, and `cut` is
what is left of a value that was stored. -/
structure Codec (α : Type) where
  size : ℕ
  put : α → List UInt8
  get : List UInt8 → α
  cut : α → α
  put_length : ∀ a, (put a).length = size
  get_put : ∀ a rest, get (put a ++ rest) = cut a

namespace Codec
variable {α β : Type}

/-- A number in `k` bytes, the lowest first. -/
def num (k : ℕ) : Codec ℕ where
  size := k
  put := le k
  get := fun l => unle (l.take k)
  cut := fun x => x % 256 ^ k
  put_length := length_le k
  get_put x rest := by
    rw [List.take_append_of_le_length (Nat.le_of_eq (length_le k x).symm), List.take_of_length_le (Nat.le_of_eq (length_le k x)),
      unle_le]

/-- One value behind the other. -/
def pair (c : Codec α) (d : Codec β) : Codec (α × β) where
  size := c.size + d.size
  put := fun x => c.put x.1 ++ d.put x.2
  get := fun l => (c.get l, d.get (l.drop c.size))
  cut := fun x => (c.cut x.1, d.cut x.2)
  put_length x := by
    rw [List.length_append, c.put_length, d.put_length]
  get_put x rest := by
    rw [List.append_assoc, c.get_put, List.drop_append_of_le_length (Nat.le_of_eq (c.put_length _).symm),
      List.drop_eq_nil_of_le (Nat.le_of_eq (c.put_length _)), List.nil_append, d.get_put]

/-- A record by the tuple of its fields. -/
def record (c : Codec β) (fields : α → β) (make : β → α) : Codec α where
  size := c.size
  put := fun a => c.put (fields a)
  get := fun l => make (c.get l)
  cut := fun a => make (c.cut (fields a))
  put_length a := c.put_length _
  get_put a rest := by rw [c.get_put]

/-- The entries `0, .., n - 1` of an array. -/
def putAll (c : Codec α) (f : ℕ → α) : ℕ → List UInt8
  | 0 => []
  | n + 1 => c.putAll f n ++ c.put (f n)

theorem putAll_length (c : Codec α) (f : ℕ → α) (n : ℕ) : (c.putAll f n).length = n * c.size := by
  induction n with
  | zero => rw [Nat.zero_mul]; rfl
  | succ n ih => rw [putAll, List.length_append, ih, c.put_length, Nat.succ_mul]

/-- Entry `i` of an array that is stored at the head of a list. -/
theorem get_putAll (c : Codec α) (f : ℕ → α) {i : ℕ} (n : ℕ) :
    ∀ rest, i < n → c.get ((c.putAll f n ++ rest).drop (i * c.size)) = c.cut (f i) := by
  induction n with
  | zero => intro rest h; exact absurd h (Nat.not_lt_zero i)
  | succ n ih =>
    intro rest h
    rw [putAll, List.append_assoc]
    by_cases he : i = n
    · subst he
      rw [← c.putAll_length f i, List.drop_left, c.get_put]
    · exact ih _ (by omega)

/-- An array of `n` entries; past its end `get` gives `none`. -/
def array (c : Codec α) (n : ℕ) (none : α) : Codec (ℕ → α) where
  size := n * c.size
  put := fun f => c.putAll f n
  get := fun l i => if i < n then c.get (l.drop (i * c.size)) else none
  cut := fun f i => if i < n then c.cut (f i) else none
  put_length f := c.putAll_length f n
  get_put f rest := by
    funext i
    by_cases h : i < n
    · rw [if_pos h, if_pos h, c.get_putAll f n rest h]
    · rw [if_neg h, if_neg h]

theorem num_cut {k x : ℕ} (h : x < 256 ^ k) : (num k).cut x = x := Nat.mod_eq_of_lt h

end Codec

end RaidTest.Base
