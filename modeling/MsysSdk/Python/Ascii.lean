import MsysSdk.Python.JsonDecoder
import MsysSdk.Python.Utf8
import MsysSdk.Text.Bytes
import MsysSdk.Text.Encoded

/-! ASCII strings, and their bytes as a C string. -/

namespace Python

theorem ch_val {c : Char} (h : c.toNat < 0x80) : (ch c).val = c.toNat :=
  Nat.mod_eq_of_lt (by omega)

theorem ch_inj {c d : Char} (hc : c.toNat < 0x80) (hd : d.toNat < 0x80) :
    ch c = ch d ↔ c = d := by
  rw [Fin.ext_iff, ch_val hc, ch_val hd, Char.toNat_inj]

theorem map_ch_inj {cs ds : List Char} (hc : ∀ c ∈ cs, c.toNat < 0x80)
    (hd : ∀ c ∈ ds, c.toNat < 0x80) : cs.map ch = ds.map ch ↔ cs = ds :=
  Encoded.map_inj fun c hcs d hds h => (ch_inj (hc c hcs) (hd d hds)).mp h

theorem utf8_ch {c : Char} (h : c.toNat < 0x80) : utf8 [ch c] = [Libc.chr c] := by
  rw [utf8_cons, utf8_nil, ch, encodeChar_ascii h]
  rfl

theorem utf8_map_ch {cs : List Char} (h : ∀ c ∈ cs, c.toNat < 0x80) :
    utf8 (cs.map ch) = cs.map Libc.chr := by
  induction cs with
  | nil => rfl
  | cons c cs ih =>
    obtain ⟨hc, hcs⟩ := List.forall_mem_cons.mp h
    rw [List.map_cons, ← List.singleton_append, utf8_append, utf8_ch hc, ih hcs]
    rfl

/-- An ASCII literal of the Python side is the same literal of the C side. -/
theorem utf8_str {s : String} (h : ∀ c ∈ s.toList, c.toNat < 0x80) :
    utf8 (str s) = Libc.text s := utf8_map_ch h

theorem utf8_cons_ch {c : Char} (h : c.toNat < 0x80) (s : Str) :
    utf8 (ch c :: s) = Libc.chr c :: utf8 s := by
  rw [← List.singleton_append, utf8_append, utf8_ch h]
  rfl

theorem encodable_map_ch {cs : List Char} (h : ∀ c ∈ cs, c.toNat < 0x80) :
    Encodable (cs.map ch) := by
  refine List.forall_mem_map.mpr fun c hc => ?_
  have := h c hc
  rw [CodePoint.isSurrogate, ch_val this, Bool.and_eq_false_iff, decide_eq_false_iff_not]
  exact .inl (by omega)

/-- The test of a literal in the form that evaluates. -/
theorem ascii_of_all {cs : List Char} (h : cs.all (fun c => c.toNat < 0x80) = true) :
    ∀ c ∈ cs, c.toNat < 0x80 := by simpa using h

/-! ### C strings -/

theorem utf8_no_nul {s : Str} (h : CodePoint.ofNat 0 ∉ s) : (0 : UInt8) ∉ utf8 s := by
  intro hmem
  rcases mem_utf8 hmem with ⟨c, hc, hascii, hzero⟩ | hhigh
  · refine h ?_
    have hval : c.val = 0 := by
      have := congrArg UInt8.toNat hzero
      rw [byte_val (by omega)] at this
      exact this.symm
    rwa [ofNat_eq hval]
  · exact absurd hhigh (by decide)

/-- A text as a C string, which ends at the first NUL. -/
def cBytes (s : Str) : Libc.Bytes := (utf8 s).takeWhile (· ≠ 0)

/-- A text that a C string holds whole. -/
structure CText (s : Str) : Prop where
  encodable : Encodable s
  nulFree : CodePoint.ofNat 0 ∉ s

theorem CText.cBytes_eq {s : Str} (h : CText s) : cBytes s = utf8 s := by
  rw [cBytes, List.takeWhile_eq_self_iff]
  exact fun b hb => decide_eq_true (ne_of_mem_of_not_mem hb (utf8_no_nul h.nulFree))

theorem CText.append {s t : Str} (hs : CText s) (ht : CText t) : CText (s ++ t) where
  encodable := List.forall_mem_append.mpr ⟨hs.encodable, ht.encodable⟩
  nulFree := fun h => (List.mem_append.mp h).elim hs.nulFree ht.nulFree

theorem cText_map_ch {cs : List Char}
    (h : cs.all (fun c => 0 < c.toNat && c.toNat < 0x80) = true) : CText (cs.map ch) := by
  have hall : ∀ c ∈ cs, 0 < c.toNat ∧ c.toNat < 0x80 := by simpa using h
  refine ⟨encodable_map_ch fun c hc => (hall c hc).2, fun hmem => ?_⟩
  obtain ⟨c, hc, hzero⟩ := List.mem_map.mp hmem
  obtain ⟨hpos, hlow⟩ := hall c hc
  have hval := congrArg Fin.val hzero
  rw [ch_val hlow] at hval
  exact hpos.ne' hval

end Python
