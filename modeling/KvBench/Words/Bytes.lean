import Mathlib

/-!
# Records of bytes, and the stream they make

A record is a sequence of fields of fixed widths, each stored with its least significant byte first
(`pack`); `unpack` is what a reader of the record sees. Records of one length that follow each other
make a stream, and `window` is a piece of a stream.
-/

namespace KvBench.Words

/-! ### Fields -/

/-- An octet. -/
abbrev Byte := Fin 256

/-- The `n` low bytes of `x`. -/
def toLe : ℕ → ℕ → List Byte
  | 0, _ => []
  | n + 1, x => Fin.ofNat 256 x :: toLe n (x / 256)

instance : Inhabited Byte := ⟨0⟩

/-- The number that the bytes stand for. -/
def ofLe : List Byte → ℕ
  | [] => 0
  | b :: l => b + 256 * ofLe l

@[simp] theorem length_toLe (n x : ℕ) : (toLe n x).length = n := by
  induction n generalizing x with
  | zero => rfl
  | succ n ih => simp [toLe, ih]

theorem ofLe_toLe (n x : ℕ) : ofLe (toLe n x) = x % 256 ^ n := by
  induction n generalizing x with
  | zero => simp [toLe, ofLe, Nat.mod_one]
  | succ n ih =>
    have hsplit : x % (256 * 256 ^ n) = x % 256 + 256 * (x / 256 % 256 ^ n) := Nat.mod_mul
    simp only [toLe, ofLe, ih, pow_succ', hsplit, Fin.val_ofNat]

/-- A record with the fields `l`, each given by its width in bytes and its value. -/
def pack (l : List (ℕ × ℕ)) : List Byte := l.flatMap fun f => toLe f.1 f.2

/-- The values of the fields of a record, by their widths. -/
def unpack : List ℕ → List Byte → List ℕ
  | [], _ => []
  | n :: ns, l => ofLe (l.take n) :: unpack ns (l.drop n)

theorem length_pack (l : List (ℕ × ℕ)) : (pack l).length = (l.map Prod.fst).sum := by
  induction l with
  | nil => rfl
  | cons f l ih => simp [pack]

/-- **Round trip**: the reader finds the values, as far as they fit into their fields. -/
theorem unpack_pack (l : List (ℕ × ℕ)) :
    unpack (l.map Prod.fst) (pack l) = l.map fun f => f.2 % 256 ^ f.1 := by
  induction l with
  | nil => rfl
  | cons f l ih =>
    have hpack : pack (f :: l) = toLe f.1 f.2 ++ pack l := rfl
    rw [List.map_cons, List.map_cons, unpack, hpack, List.take_left' (length_toLe _ _),
      List.drop_left' (length_toLe _ _), ofLe_toLe, ih]

/-! ### Streams -/

section Streams

variable {α : Type} (f : ℕ → α)

/-- The `n` elements of the stream from the position `off` on. -/
def window (off n : ℕ) : List α := (List.range n).map fun k => f (off + k)

@[simp] theorem length_window (off n : ℕ) : (window f off n).length = n := by simp [window]

theorem window_append (off n n' : ℕ) :
    window f off n ++ window f (off + n) n' = window f off (n + n') := by
  simp [window, List.range_add, Nat.add_assoc]

theorem take_window (off n k : ℕ) : (window f off n).take k = window f off (min k n) := by
  rw [window, ← List.map_take, List.take_range]
  rfl

theorem drop_window {off n k : ℕ} (h : k ≤ n) :
    (window f off n).drop k = window f (off + k) (n - k) := by
  obtain ⟨d, rfl⟩ := Nat.exists_eq_add_of_le h
  rw [← window_append, List.drop_left' (length_window f off k), Nat.add_sub_cancel_left]

/-- The stream of the records `g 0`, `g 1`, ..., all of the length `size`. -/
def streamOf [Inhabited α] (size : ℕ) (g : ℕ → List α) (k : ℕ) : α :=
  (g (k / size)).getD (k % size) default

/-- The records are where they should be. -/
theorem window_streamOf [Inhabited α] {size : ℕ} {g : ℕ → List α} (hg : ∀ i, (g i).length = size)
    (i : ℕ) : window (streamOf size g) (i * size) size = g i := by
  refine List.ext_getElem (by simp [hg]) fun k hk hk' => ?_
  have hlt : k < size := by simpa using hk
  have hdiv : (i * size + k) / size = i := by
    rw [Nat.mul_comm, Nat.mul_add_div (by omega), Nat.div_eq_of_lt hlt, Nat.add_zero]
  simp [window, streamOf, hdiv, Nat.mod_eq_of_lt hlt, hk']

end Streams

end KvBench.Words
