import Mathlib.Data.List.TakeWhile
import Mathlib.Tactic.Common

/-!
# C strings in byte memory

Memory from some address on is a list of bytes. A C string starts at that address and ends
before the first NUL; a list without a NUL stands for memory whose next byte is one. The copying
functions of `string.h` and `stdio.h` are given by the bytes they write.
-/

namespace CString

/-- The bytes of the string that starts at the head of `mem`. -/
def cstr (mem : List UInt8) : List UInt8 := mem.takeWhile (· != 0)

/-- The bytes of a string literal, without its terminator. -/
def lit (s : String) : List UInt8 := s.toList.flatMap String.utf8EncodeChar

/-- `strcmp(a, b) == 0` -/
def strcmpEq (a b : List UInt8) : Bool := cstr a == cstr b

/-- The `n` bytes `strncpy(dst, src, n)` writes: no terminator when the string has `n` bytes
or more, padding with NULs when it has fewer. -/
def strncpy (src : List UInt8) (n : Nat) : List UInt8 :=
  (cstr src).take n ++ List.replicate (n - (cstr src).length) 0

/-- The bytes `snprintf(dst, n, "%s", src)` and `strlcpy(dst, src, n)` write: at most `n - 1`
bytes of the string and a terminator. -/
def snprintf (src : List UInt8) (n : Nat) : List UInt8 := (cstr src).take (n - 1) ++ [0]

/-- An array after its first bytes have been overwritten. -/
def store (dst bytes : List UInt8) : List UInt8 := bytes ++ dst.drop bytes.length

/-- A string holds no NUL. -/
def NoNul (s : List UInt8) : Prop := ∀ c ∈ s, c ≠ 0

theorem noNul_cstr (mem : List UInt8) : NoNul (cstr mem) := by
  intro c hc
  simpa using List.mem_takeWhile_imp hc

theorem NoNul.take {s : List UInt8} (h : NoNul s) (n : Nat) : NoNul (s.take n) :=
  fun c hc => h c (List.mem_of_mem_take hc)

theorem NoNul.append {s t : List UInt8} (hs : NoNul s) (ht : NoNul t) : NoNul (s ++ t) := by
  intro c hc
  rcases List.mem_append.mp hc with hc | hc
  · exact hs c hc
  · exact ht c hc

@[simp] theorem cstr_nil : cstr [] = [] := rfl

@[simp] theorem cstr_zero_cons (mem : List UInt8) : cstr (0 :: mem) = [] := rfl

theorem cstr_append_of_noNul {s : List UInt8} (h : NoNul s) (mem : List UInt8) :
    cstr (s ++ mem) = s ++ cstr mem := by
  refine List.takeWhile_append_of_pos fun c hc => ?_
  simpa using h c hc

theorem cstr_of_noNul {s : List UInt8} (h : NoNul s) : cstr s = s := by
  simpa using cstr_append_of_noNul h []

/-- A terminated string hides whatever follows it. -/
theorem cstr_terminated {s : List UInt8} (h : NoNul s) (mem : List UInt8) :
    cstr (s ++ 0 :: mem) = s := by
  rw [cstr_append_of_noNul h, cstr_zero_cons, List.append_nil]

theorem strcmpEq_iff {a b : List UInt8} : strcmpEq a b = true ↔ cstr a = cstr b := by
  simp [strcmpEq]

/-- A string that leaves room for its terminator is read back from `strncpy`'s copy. -/
theorem cstr_strncpy_append {src : List UInt8} {n : Nat} (h : (cstr src).length < n)
    (mem : List UInt8) : cstr (strncpy src n ++ mem) = cstr src := by
  obtain ⟨k, hk⟩ : ∃ k, n - (cstr src).length = k + 1 := ⟨n - (cstr src).length - 1, by omega⟩
  rw [strncpy, List.take_of_length_le (Nat.le_of_lt h), hk, List.replicate_succ,
    List.append_assoc, List.cons_append]
  exact cstr_terminated (noNul_cstr src) _

/-- A string that fills the array is read on into the memory behind it. -/
theorem cstr_strncpy_append_of_le {src : List UInt8} {n : Nat} (h : n ≤ (cstr src).length)
    (mem : List UInt8) : cstr (strncpy src n ++ mem) = (cstr src).take n ++ cstr mem := by
  have hpad : n - (cstr src).length = 0 := by omega
  rw [strncpy, hpad, List.replicate_zero, List.append_nil]
  exact cstr_append_of_noNul ((noNul_cstr src).take n) mem

@[simp] theorem cstr_snprintf_append (src : List UInt8) (n : Nat) (mem : List UInt8) :
    cstr (snprintf src n ++ mem) = (cstr src).take (n - 1) := by
  rw [snprintf, List.append_assoc, List.singleton_append]
  exact cstr_terminated ((noNul_cstr src).take (n - 1)) mem

@[simp] theorem cstr_store_snprintf (dst src : List UInt8) (n : Nat) :
    cstr (store dst (snprintf src n)) = (cstr src).take (n - 1) :=
  cstr_snprintf_append src n _

end CString
