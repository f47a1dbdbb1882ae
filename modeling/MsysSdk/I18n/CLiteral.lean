import MsysSdk.I18n.CEmission

/-! The literals of a string, read back: together they hold its bytes. -/

namespace Msys.CHeader
open Python C11
open Msys.I18n hiding Token

/-- The tokens of adjacent literals. -/
def strings (bs : List Bytes) : List Token := bs.map .string

theorem strings_append (bs cs : List Bytes) : strings (bs ++ cs) = strings bs ++ strings cs :=
  List.map_append

theorem step_text {ts : List Token} {b : Bytes} {c : CodePoint} (hquote : c ≠ ch '"')
    (hback : c ≠ backslash) (hline : c ≠ newline) :
    step ⟨ts, .text b⟩ c = ⟨ts, .text (b ++ utf8 [c])⟩ :=
  (if_neg hquote).trans ((if_neg hback).trans (if_neg hline))

theorem step_quote (ts : List Token) (b : Bytes) :
    step ⟨ts, .text b⟩ (ch '"') = ⟨ts ++ [.string b], .code⟩ := rfl

theorem step_escape {ts : List Token} {b : Bytes} {c d : CodePoint} (h : (c, d) ∈ escapedForms) :
    step (step ⟨ts, .text b⟩ backslash) d = ⟨ts, .text (b ++ utf8 [c])⟩ := by
  have hback : step ⟨ts, .text b⟩ backslash = ⟨ts, .escape b⟩ := rfl
  have hall : escapedForms.all (fun p =>
      (simpleEscapes.lookup p.2).map (fun d => [d]) = some (utf8 [p.1])) = true := by decide +kernel
  have hform : (simpleEscapes.lookup d).map (fun d => [d]) = some (utf8 [c]) := by
    simpa using List.all_eq_true.mp hall _ h
  obtain ⟨byte, hbyte, hutf8⟩ := Option.map_eq_some_iff.mp hform
  rw [hback, ← hutf8]
  simp only [step, inEscape, hbyte]

/-! ### Bytes -/

theorem hexPiece_read (b : UInt8) :
    scan ⟨[], .code⟩ (hexPiece b) = ⟨[.string [b]], .code⟩ ∧
      Quiet (ch 'x' :: (hexDigits 2 b.toNat ++ [ch '"'])) := by
  have hall : ∀ n < 256, scan ⟨[], .code⟩ (hexPiece (UInt8.ofNat n)) =
        ⟨[.string [UInt8.ofNat n]], .code⟩ ∧
      (ch 'x' :: (hexDigits 2 (UInt8.ofNat n).toNat ++ [ch '"'])).all
        (fun c => c ≠ question && c ≠ backslash) = true := by decide +kernel
  have hb := hall b.toNat b.toNat_lt
  rw [UInt8.ofNat_toNat] at hb
  exact ⟨hb.1, quiet_of_all hb.2⟩

theorem source_hexPiece (b : UInt8) (u : Str) :
    source (hexPiece b ++ u) = hexPiece b ++ source u := by
  refine (source_plain (by decide) (by decide) _).trans (congrArg (ch '"' :: ·) ?_)
  refine (source_cons (clear_of_ne (by decide) _) fun _ hhead => ?_).trans ?_
  · exact absurd (Option.some.inj hhead) (by decide)
  · exact congrArg (backslash :: ·) (source_quiet (hexPiece_read b).2 u)

theorem gives_hexPiece (b : UInt8) : Gives (hexPiece b) (strings [[b]]) := by
  intro u
  rw [source_hexPiece, scan_append, (hexPiece_read b).1]
  rfl

theorem gives_blank : Gives [ch ' '] [] := gives_quiet (quiet_of_all (by decide)) rfl

theorem gives_hexText (c : CodePoint) :
    Gives (hexText c) (strings ((utf8 [c]).map fun b => [b])) := by
  have h := @Gives.flatMap _ (fun b => ch ' ' :: hexPiece b) (fun b => strings [[b]]) (utf8 [c])
    fun b _ => gives_blank.append (gives_hexPiece b)
  rw [List.map_eq_flatMap, strings, List.map_flatMap]
  exact h

/-! ### Strings without trigraphs -/

theorem clear_of_hasTrigraph {c : CodePoint} {s : Str} (h : hasTrigraph (c :: s) = false) :
    Clear c s ∧ hasTrigraph s = false := by
  match s, h with
  | [], _ => exact ⟨fun _ _ _ => by simp, rfl⟩
  | [b], _ => exact ⟨fun _ _ _ => by simp, rfl⟩
  | b :: d :: s, h =>
    rw [hasTrigraph, Bool.or_eq_false_iff] at h
    refine ⟨fun b' d' t heq => ?_, h.2⟩
    cases heq
    exact Option.not_isSome_iff_eq_none.mp (by simp [h.1])

/-- Literals that hold these bytes, the first of them already begun. -/
structure ReadsOpen (s : Str) (first : Bytes) (rest : List Bytes) : Prop where
  bytes : first ++ rest.flatten = utf8 s
  feeds : ∀ ts b, Feeds ⟨ts, .text b⟩ (emitted true s) ⟨ts ++ strings ((b ++ first) :: rest), .code⟩

structure ReadsClosed (s : Str) (chunks : List Bytes) : Prop where
  bytes : chunks.flatten = utf8 s
  gives : Gives (emitted false s) (strings chunks)

theorem ReadsClosed.of_open {c : CodePoint} {s form : Str} (hform : plainForm c = some form)
    {first : Bytes} {rest : List Bytes} (h : ReadsOpen (c :: s) first rest) :
    ReadsClosed (c :: s) (first :: rest) where
  bytes := h.bytes
  gives u := by
    rw [emitted_closed_plain hform, List.cons_append, List.cons_append,
      source_plain (by decide) (by decide), source_plain (by decide) (by decide)]
    exact h.feeds [] [] u

theorem exists_reads {s : Str} (h : hasTrigraph s = false) :
    (∃ first rest, ReadsOpen s first rest) ∧ ∃ chunks, ReadsClosed s chunks := by
  induction s with
  | nil =>
    refine ⟨⟨[], [], rfl, fun ts b u => ?_⟩, [], rfl, gives_nil⟩
    rw [source_emitted_nil, scan_cons, step_quote, List.append_nil]
    rfl
  | cons c s ih =>
    obtain ⟨hclear, hs⟩ := clear_of_hasTrigraph h
    obtain ⟨⟨first, rest, hopen⟩, chunks, hclosed⟩ := ih hs
    -- a character that stays in the literal
    have stays : ∀ {form}, plainForm c = some form →
        (∀ ts b u, scan ⟨ts, .text b⟩ (source (emitted true (c :: s) ++ u)) =
          scan ⟨ts, .text (b ++ utf8 [c])⟩ (source (emitted true s ++ u))) →
        (∃ first rest, ReadsOpen (c :: s) first rest) ∧ ∃ chunks, ReadsClosed (c :: s) chunks := by
      intro form hform hstep
      have hreads : ReadsOpen (c :: s) (utf8 [c] ++ first) rest := by
        refine ⟨?_, fun ts b u => ?_⟩
        · rw [List.append_assoc, hopen.bytes, ← utf8_append]
          rfl
        · rw [hstep, hopen.feeds ts _ u, List.append_assoc]
      exact ⟨⟨_, _, hreads⟩, _, .of_open hform hreads⟩
    rcases plainForm_cases c with ⟨hform, hlo, hhi, hquote, hback⟩ | ⟨d, hform, hd⟩ | hform
    · refine stays hform fun ts b u => ?_
      have hline : c ≠ newline := by
        rintro rfl
        exact absurd hlo (by decide)
      rw [source_emitted_single u hform hback hclear, scan_cons, step_text hquote hback hline]
    · refine stays hform fun ts b u => ?_
      rw [source_emitted_escaped u hform hd, scan_cons, scan_cons, step_escape hd]
    · have hbytes : (((utf8 [c]).map fun b => [b]) ++ chunks).flatten = utf8 (c :: s) := by
        rw [List.flatten_append, ← List.flatMap_def, List.flatMap_singleton', hclosed.bytes,
          ← utf8_append]
        rfl
      have hgives : Gives (hexText c ++ emitted false s)
          (strings (((utf8 [c]).map fun b => [b]) ++ chunks)) := by
        rw [strings_append]
        exact (gives_hexText c).append hclosed.gives
      refine ⟨⟨[], _, hbytes, fun ts b u => ?_⟩, _, hbytes, emitted_closed_hex hform ▸ hgives⟩
      rw [emitted_hex hform, List.cons_append, source_plain (by decide) (by decide), scan_cons,
        step_quote, hgives.feeds _ u, List.append_assoc, List.append_nil]
      rfl

/-- The text of a string is the text of adjacent literals with its bytes. -/
theorem gives_cString {s : Str} (hs : Encodable s) (h : hasTrigraph s = false) :
    ∃ chunks, chunks ≠ [] ∧ chunks.flatten = utf8 s ∧ Gives (cString s) (strings chunks) := by
  rcases eq_or_ne s [] with rfl | hne
  · exact ⟨[[]], List.cons_ne_nil _ _, rfl, gives_quiet (quiet_of_all (by decide)) (by decide)⟩
  · obtain ⟨-, chunks, hclosed⟩ := exists_reads h
    refine ⟨chunks, ?_, hclosed.bytes, fun u => ?_⟩
    · rintro rfl
      obtain ⟨c, s, rfl⟩ := List.exists_cons_of_ne_nil hne
      obtain ⟨b, bs, hutf8⟩ := exists_utf8_cons (hs c List.mem_cons_self)
      have hempty : utf8 [c] ++ utf8 s = [] := (utf8_append [c] s).symm.trans hclosed.bytes.symm
      rw [hutf8] at hempty
      cases hempty
    · have hgives := hclosed.gives u
      rw [← cString_eq hs hne, List.cons_append, source_plain (by decide) (by decide)] at hgives
      exact hgives

end Msys.CHeader
