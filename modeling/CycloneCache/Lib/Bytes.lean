import Mathlib.Data.BitVec
import Mathlib.Tactic

/-!
# Bytes in a memory

A memory is a function from addresses to bytes. `Holds m a l` says that the
bytes of `l` lie at address `a`; it splits over `++`, a write establishes it,
and a write elsewhere keeps it. Numbers are stored little-endian in a fixed
number of bytes, and a record is a list of fields, each with its width. What
`fieldsAt` reads where the fields of a record were written are the values of
the fields (`fieldsAt_of_holds`). Where bytes are a list of their own, a patch
of one field makes them the bytes of the record with that field changed
(`patchAt_putFields`).
-/

namespace CycloneCache.Lib

abbrev Memory := Nat → UInt8

/-- The `w` low bytes of a number, the lowest first. -/
def leBytes : Nat → Nat → List UInt8
  | 0, _ => []
  | w + 1, v => UInt8.ofNat (v % 256) :: leBytes w (v / 256)

/-- The number in the `w` bytes at `a`. -/
def leAt (m : Memory) : Nat → Nat → Nat
  | _, 0 => 0
  | a, w + 1 => (m a).toNat + 256 * leAt m (a + 1) w

/-- Write the bytes of `l` at `a`. -/
def writeAt (m : Memory) (a : Nat) (l : List UInt8) : Memory := fun x =>
  if a ≤ x then l.getD (x - a) (m x) else m x

/-- The `n` bytes at `a`. -/
def readAt (m : Memory) : Nat → Nat → List UInt8
  | _, 0 => []
  | a, n + 1 => m a :: readAt m (a + 1) n

def Holds (m : Memory) (a : Nat) : List UInt8 → Prop
  | [] => True
  | b :: l => m a = b ∧ Holds m (a + 1) l

theorem length_leBytes (w v : Nat) : (leBytes w v).length = w := by
  induction w generalizing v with
  | zero => rfl
  | succ w ih => rw [leBytes, List.length_cons, ih]

theorem length_readAt (m : Memory) (a n : Nat) : (readAt m a n).length = n := by
  induction n generalizing a with
  | zero => rfl
  | succ n ih => rw [readAt, List.length_cons, ih]

/-! ## What a memory holds -/

variable {m : Memory} {a : Nat} {l : List UInt8}

theorem holds_append {l₁ l₂ : List UInt8} :
    Holds m a (l₁ ++ l₂) ↔ Holds m a l₁ ∧ Holds m (a + l₁.length) l₂ := by
  induction l₁ generalizing a with
  | nil => simp [Holds]
  | cons b l ih =>
    rw [List.cons_append, Holds, Holds, ih, List.length_cons, and_assoc,
      Nat.add_right_comm, Nat.add_assoc]

theorem Holds.congr {m' : Memory} (h : Holds m a l)
    (heq : ∀ x, a ≤ x → x < a + l.length → m' x = m x) : Holds m' a l := by
  induction l generalizing a with
  | nil => trivial
  | cons b l ih =>
    rw [List.length_cons] at heq
    refine ⟨(heq a (Nat.le_refl a) (by omega)).trans h.1, ih h.2 ?_⟩
    exact fun x hle hlt => heq x (by omega) (by omega)

theorem holds_writeAt (m : Memory) (a : Nat) (l : List UInt8) : Holds (writeAt m a l) a l := by
  induction l generalizing m a with
  | nil => trivial
  | cons b l ih =>
    refine ⟨by simp [writeAt], ?_⟩
    apply (ih m (a + 1)).congr
    intro x hle hlt
    simp only [writeAt]
    rw [if_pos (by omega), if_pos hle]
    obtain ⟨k, rfl⟩ := Nat.exists_eq_add_of_le hle
    rw [show a + 1 + k - a = k + 1 by omega, show a + 1 + k - (a + 1) = k by omega,
      List.getD_cons_succ]

theorem writeAt_of_lt {x : Nat} (h : x < a) : writeAt m a l x = m x := by
  simp only [writeAt]
  rw [if_neg (by omega)]

theorem writeAt_of_ge {x : Nat} (h : a + l.length ≤ x) : writeAt m a l x = m x := by
  simp only [writeAt]
  rw [if_pos (by omega), List.getD_eq_getElem?_getD, List.getElem?_eq_none (by omega),
    Option.getD_none]

/-- A write elsewhere. -/
theorem writeAt_outside {x : Nat} (h : x < a ∨ a + l.length ≤ x) : writeAt m a l x = m x := by
  rcases h with h | h
  · exact writeAt_of_lt h
  · exact writeAt_of_ge h

theorem writeAt_append (m : Memory) (a : Nat) (l₁ l₂ : List UInt8) :
    writeAt (writeAt m a l₁) (a + l₁.length) l₂ = writeAt m a (l₁ ++ l₂) := by
  funext x
  simp only [writeAt, List.getD_eq_getElem?_getD, List.getElem?_append]
  by_cases hx : a + l₁.length ≤ x
  · simp [hx, show a ≤ x by omega, show ¬ x - a < l₁.length by omega,
      show x - (a + l₁.length) = x - a - l₁.length by omega]
  · by_cases ha : a ≤ x
    · simp [hx, ha, show x - a < l₁.length by omega]
    · simp [hx, ha]

theorem readAt_of_holds (h : Holds m a l) : readAt m a l.length = l := by
  induction l generalizing a with
  | nil => rfl
  | cons b l ih => rw [List.length_cons, readAt, h.1, ih h.2]

theorem readAt_add (m : Memory) (a n k : Nat) :
    readAt m a (n + k) = readAt m a n ++ readAt m (a + n) k := by
  induction n generalizing a with
  | zero => rw [Nat.zero_add, readAt, List.nil_append, Nat.add_zero]
  | succ n ih =>
    rw [Nat.succ_add, readAt, readAt, ih, List.cons_append, Nat.add_assoc a 1,
      Nat.add_comm 1 n]

/-! ## Numbers -/

theorem leAt_congr {m' : Memory} {w : Nat} (h : ∀ x, a ≤ x → x < a + w → m' x = m x) :
    leAt m' a w = leAt m a w := by
  induction w generalizing a with
  | zero => rfl
  | succ w ih =>
    rw [leAt, leAt, h a (Nat.le_refl a) (by omega),
      ih (fun x hle hlt => h x (by omega) (by omega))]

theorem leAt_of_holds {w v : Nat} (h : Holds m a (leBytes w v)) : leAt m a w = v % 256 ^ w := by
  induction w generalizing a v with
  | zero => rw [leAt, Nat.pow_zero, Nat.mod_one]
  | succ w ih =>
    have hb : (UInt8.ofNat (v % 256)).toNat = v % 256 := by
      rw [UInt8.toNat_ofNat']
      omega
    rw [leAt, h.1, hb, ih h.2, Nat.pow_succ', Nat.mod_mul]

theorem leAt_lt (m : Memory) (a w : Nat) : leAt m a w < 256 ^ w := by
  induction w generalizing a with
  | zero => exact Nat.one_pos
  | succ w ih =>
    have hbyte := UInt8.toNat_lt (m a)
    have hrest := ih (a + 1)
    rw [leAt, Nat.pow_succ']
    omega

/-- What is read, written back. -/
theorem leBytes_leAt (m : Memory) (a w : Nat) : leBytes w (leAt m a w) = readAt m a w := by
  induction w generalizing a with
  | zero => rfl
  | succ w ih =>
    have hbyte := UInt8.toNat_lt (m a)
    have hlow : ((m a).toNat + 256 * leAt m (a + 1) w) % 256 = (m a).toNat := by omega
    have hhigh : ((m a).toNat + 256 * leAt m (a + 1) w) / 256 = leAt m (a + 1) w := by omega
    rw [leAt, leBytes, hlow, hhigh, ih, readAt, UInt8.ofNat_toNat]

/-! ## Records -/

/-- The bytes of a record, from the widths and values of its fields. -/
def putFields : List (Nat × Nat) → List UInt8
  | [] => []
  | (w, v) :: fs => leBytes w v ++ putFields fs

/-- The values of the fields of a record at `a`. -/
def fieldsAt (m : Memory) : Nat → List Nat → List Nat
  | _, [] => []
  | a, w :: ws => leAt m a w :: fieldsAt m (a + w) ws

theorem length_putFields (fs : List (Nat × Nat)) :
    (putFields fs).length = (fs.map Prod.fst).sum := by
  induction fs with
  | nil => rfl
  | cons f fs ih =>
    rw [putFields, List.length_append, length_leBytes, ih, List.map_cons, List.sum_cons]

theorem fieldsAt_of_holds {fs : List (Nat × Nat)} (h : Holds m a (putFields fs)) :
    fieldsAt m a (fs.map Prod.fst) = fs.map fun f => f.2 % 256 ^ f.1 := by
  induction fs generalizing a with
  | nil => rfl
  | cons f fs ih =>
    rw [putFields, holds_append, length_leBytes] at h
    rw [List.map_cons, List.map_cons, fieldsAt, leAt_of_holds h.1, ih h.2]

/-- What is read fits its width. -/
theorem fieldsAt_lt (m : Memory) (a : Nat) (ws : List Nat) :
    ∀ f ∈ ws.zip (fieldsAt m a ws), f.2 < 256 ^ f.1 := by
  induction ws generalizing a with
  | nil =>
    intro f hf
    cases hf
  | cons w ws ih =>
    exact List.forall_mem_cons.mpr ⟨leAt_lt m a w, ih (a + w)⟩

theorem putFields_fieldsAt (m : Memory) (a : Nat) (ws : List Nat) :
    putFields (ws.zip (fieldsAt m a ws)) = readAt m a ws.sum := by
  induction ws generalizing a with
  | nil => rfl
  | cons w ws ih =>
    rw [fieldsAt, List.zip_cons_cons, putFields, leBytes_leAt, ih, List.sum_cons, readAt_add]

theorem fieldsAt_congr {m' : Memory} {ws : List Nat} (h : ∀ x, a ≤ x → x < a + ws.sum → m' x = m x) :
    fieldsAt m' a ws = fieldsAt m a ws := by
  induction ws generalizing a with
  | nil => rfl
  | cons w ws ih =>
    rw [List.sum_cons] at h
    rw [fieldsAt, fieldsAt, leAt_congr (fun x hle hlt => h x hle (by omega)),
      ih (fun x hle hlt => h x (by omega) (by omega))]

theorem putFields_append (fs₁ fs₂ : List (Nat × Nat)) :
    putFields (fs₁ ++ fs₂) = putFields fs₁ ++ putFields fs₂ := by
  induction fs₁ with
  | nil => rfl
  | cons f fs ih => rw [List.cons_append, putFields, putFields, ih, List.append_assoc]

/-! ## Bytes on their own -/

/-- The memory a list of bytes fills from address 0 on. -/
def memoryOf (data : List UInt8) : Memory := fun x => data.getD x 0

/-- The bytes at `a` replaced by those of `l`. -/
def patchAt (data : List UInt8) (a : Nat) (l : List UInt8) : List UInt8 :=
  data.take a ++ l ++ data.drop (a + l.length)

theorem holds_memoryOf (data : List UInt8) : Holds (memoryOf data) 0 data := by
  have hsuffix : ∀ l k, (∀ i, l.getD i 0 = data.getD (k + i) 0) → Holds (memoryOf data) k l := by
    intro l
    induction l with
    | nil =>
      intro k _
      trivial
    | cons b l ih =>
      intro k h
      refine ⟨(h 0).symm, ih (k + 1) fun i => ?_⟩
      have hnext := h (i + 1)
      rw [List.getD_cons_succ] at hnext
      rw [hnext, Nat.add_right_comm, Nat.add_assoc]
  exact hsuffix data 0 fun i => by rw [Nat.zero_add]

theorem readAt_memoryOf (data : List UInt8) : readAt (memoryOf data) 0 data.length = data :=
  readAt_of_holds (holds_memoryOf data)

theorem patchAt_append {l₁ l₂ l₃ : List UInt8} (h : l.length = l₂.length) :
    patchAt (l₁ ++ (l₂ ++ l₃)) l₁.length l = l₁ ++ (l ++ l₃) := by
  have hdrop : (l₁ ++ (l₂ ++ l₃)).drop (l₁.length + l.length) = l₃ := by
    rw [h, ← List.append_assoc, ← List.length_append, List.drop_left]
  rw [patchAt, List.take_left, hdrop, List.append_assoc]

/-- A patch of the field behind the fields `fs₁`. -/
theorem patchAt_putFields {fs₁ fs₂ : List (Nat × Nat)} {w v v' : Nat} {rest : List UInt8}
    (ha : a = (fs₁.map Prod.fst).sum) :
    patchAt (putFields (fs₁ ++ (w, v) :: fs₂) ++ rest) a (leBytes w v') =
      putFields (fs₁ ++ (w, v') :: fs₂) ++ rest := by
  rw [ha, ← length_putFields, putFields_append, putFields_append, putFields, putFields]
  simp only [List.append_assoc]
  exact patchAt_append (by rw [length_leBytes, length_leBytes])

end CycloneCache.Lib
