import MsysSdk.Text.Ascii

/-! C strings. A pointer into a NUL-terminated string is the list of the bytes from it up to
the NUL, so that `*cursor == '\0'` is the empty list; the character classes are those of the
C locale. -/

namespace Libc

abbrev Bytes := List UInt8

def chr (c : Char) : UInt8 := UInt8.ofNat c.toNat

theorem toNat_chr {c : Char} (h : c.toNat < 256) : (chr c).toNat = c.toNat := by
  simp [chr, Nat.mod_eq_of_lt h]

theorem chr_inj {c d : Char} (hc : c.toNat < 256) (hd : d.toNat < 256) :
    chr c = chr d ↔ c = d := by
  rw [← UInt8.toNat_inj, toNat_chr hc, toNat_chr hd, Char.toNat_inj]

/-- The bytes of an ASCII literal. -/
def text (s : String) : Bytes := s.toList.map chr

def isspace (b : UInt8) : Bool := Ascii.isSpace b.toNat
def isdigit (b : UInt8) : Bool := Ascii.isDigit b.toNat
def isalpha (b : UInt8) : Bool := Ascii.isAlpha b.toNat
def isalnum (b : UInt8) : Bool := Ascii.isAlnum b.toNat
def tolower (b : UInt8) : UInt8 := UInt8.ofNat (Ascii.toLower b.toNat)
def toupper (b : UInt8) : UInt8 := UInt8.ofNat (Ascii.toUpper b.toNat)

/-- Memory from the start of a buffer. -/
abbrev Buffer := Nat → UInt8

/-- The first `n` bytes of a buffer. -/
def Buffer.read (m : Buffer) (n : Nat) : Bytes := (List.range n).map m

/-- `memcpy(m + i, s, length of s)`. -/
def Buffer.copy (m : Buffer) (i : Nat) (s : Bytes) : Buffer :=
  fun j => if i ≤ j then (s[j - i]?).getD (m j) else m j

/-- The buffer holds the string and a NUL after it. -/
def Buffer.holds (m : Buffer) (s : Bytes) : Prop := m.read s.length = s ∧ m s.length = 0

/-- The string in a buffer of `n` bytes. -/
def Buffer.string (m : Buffer) (n : Nat) : Bytes := (m.read n).takeWhile (· ≠ 0)

theorem Buffer.read_copy (m : Buffer) (s : Bytes) (n : Nat) :
    (m.copy 0 s).read n = s.take n ++ (m.read n).drop s.length := by
  refine List.ext_getElem (by simp [Buffer.read]; omega) fun i hi _ => ?_
  have hin : i < n := by simpa [Buffer.read] using hi
  rw [List.getElem_append]
  split_ifs with hs
  · have hs : i < s.length := by
      rw [List.length_take] at hs
      omega
    simp [Buffer.read, Buffer.copy, hs]
  · have hs : s.length ≤ i := by
      rw [List.length_take] at hs
      omega
    have htake : (s.take n).length = s.length := by
      rw [List.length_take]
      omega
    simp [Buffer.read, Buffer.copy, hs, htake]

/-- A string that is copied with its NUL is the string in the buffer. -/
theorem Buffer.string_copy (m : Buffer) {s : Bytes} {n : Nat} (h : s.length < n) (hs : 0 ∉ s) :
    0 ∈ (m.copy 0 (s ++ [0])).read n ∧ (m.copy 0 (s ++ [0])).string n = s := by
  have hfits : (s ++ [0]).take n = s ++ [0] :=
    List.take_of_length_le (by rw [List.length_append]; exact h)
  rw [Buffer.string, Buffer.read_copy, hfits, List.append_assoc,
    List.takeWhile_append_of_pos fun b hb => by simpa using ne_of_mem_of_not_mem hb hs]
  simp

/-- The string goes on behind a part of what is copied unless a NUL follows that part. -/
theorem Buffer.string_append (m : Buffer) {s t : Bytes} {b : UInt8} {n : Nat} (h : s.length < n)
    (hs : 0 ∉ s) : ∃ tail, (m.copy 0 (s ++ b :: t)).string n = s ++ tail ∧
      (b = 0 → tail = []) ∧ (b ≠ 0 → b ∈ tail) := by
  obtain ⟨k, rfl⟩ := Nat.exists_eq_add_of_lt h
  have hfits : (s ++ b :: t).take (s.length + k + 1) = s ++ b :: t.take k := by
    rw [Nat.add_assoc, List.take_length_add_append, List.take_succ_cons]
  rw [Buffer.string, Buffer.read_copy, hfits, List.append_assoc,
    List.takeWhile_append_of_pos fun b hb => by simpa using ne_of_mem_of_not_mem hb hs]
  refine ⟨_, rfl, ?_, fun hb => ?_⟩
  · rintro rfl
    rfl
  · rw [List.cons_append, List.takeWhile_cons_of_pos (by simpa using hb)]
    exact List.mem_cons_self

end Libc
