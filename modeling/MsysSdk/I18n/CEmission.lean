import MsysSdk.CSource.Source
import MsysSdk.I18n.CHeader
import MsysSdk.Text.Join

/-! The text that `_c_string` emits, seen from inside and outside of its literals. -/

namespace Msys.CHeader
open Python C11
open Msys.I18n hiding Token

/-- A literal with the hexadecimal form of each byte, and a space before each. -/
def hexText (c : CodePoint) : Str := (utf8 [c]).flatMap fun b => ch ' ' :: hexPiece b

/-- What is left to emit, with a literal open or not. -/
def emitted : Bool → Str → Str
  | true, [] => [ch '"']
  | false, [] => []
  | isOpen, c :: cs =>
    match plainForm c with
    | some form => (if isOpen then [] else [ch ' ', ch '"']) ++ form ++ emitted true cs
    | none => (if isOpen then [ch '"'] else []) ++ hexText c ++ emitted false cs

section
variable {c : CodePoint} {form cs : Str}

theorem emitted_plain (h : plainForm c = some form) :
    emitted true (c :: cs) = form ++ emitted true cs := by
  rw [emitted, h]
  rfl

theorem emitted_hex (h : plainForm c = none) :
    emitted true (c :: cs) = ch '"' :: (hexText c ++ emitted false cs) := by
  rw [emitted, h]
  rfl

theorem emitted_closed_plain (h : plainForm c = some form) :
    emitted false (c :: cs) = ch ' ' :: ch '"' :: emitted true (c :: cs) := by
  rw [emitted_plain h, emitted, h]
  rfl

theorem emitted_closed_hex (h : plainForm c = none) :
    emitted false (c :: cs) = hexText c ++ emitted false cs := by
  rw [emitted, h]
  rfl

end

/-! ### The pieces -/

/-- The pieces with a space before each. -/
def spaced (ps : List Str) : Str := ps.flatMap (ch ' ' :: ·)

theorem spaced_append (ps qs : List Str) : spaced (ps ++ qs) = spaced ps ++ spaced qs :=
  List.flatMap_append

theorem plainForm_ne_nil {c : CodePoint} {form : Str} (h : plainForm c = some form) : form ≠ [] := by
  unfold plainForm at h
  split_ifs at h <;> · cases h; simp

theorem spaced_flush {t : Str} (h : t ≠ []) : spaced (flush t) = ch ' ' :: ch '"' :: t ++ [ch '"'] := by
  rw [flush, if_neg h]
  simp [spaced]

theorem spaced_hex (c : CodePoint) : spaced ((utf8 [c]).map hexPiece) = hexText c :=
  List.flatMap_map ..

theorem spaced_pieces (s : Str) :
    spaced (pieces [] s) = emitted false s ∧
      ∀ t, t ≠ [] → spaced (pieces t s) = ch ' ' :: ch '"' :: t ++ emitted true s := by
  induction s with
  | nil => exact ⟨rfl, fun t ht => spaced_flush ht⟩
  | cons c s ih =>
    obtain ⟨ihclosed, ihopen⟩ := ih
    cases hform : plainForm c with
    | none =>
      have hpieces : ∀ t, pieces t (c :: s) =
          flush t ++ (utf8 [c]).map hexPiece ++ pieces [] s := by
        intro t
        rw [pieces, hform]
      refine ⟨?_, fun t ht => ?_⟩
      · rw [hpieces, spaced_append, spaced_append, spaced_hex, ihclosed, emitted_closed_hex hform]
        rfl
      · rw [hpieces, spaced_append, spaced_append, spaced_hex, ihclosed, spaced_flush ht,
          emitted_hex hform]
        simp
    | some form =>
      have hpieces : ∀ t, pieces t (c :: s) = pieces (t ++ form) s := by
        intro t
        rw [pieces, hform]
      have hne := plainForm_ne_nil hform
      refine ⟨?_, fun t ht => ?_⟩
      · rw [hpieces, List.nil_append, ihopen form hne, emitted_closed_plain hform,
          emitted_plain hform]
        rfl
      · rw [hpieces, ihopen _ (List.append_ne_nil_of_left_ne_nil ht _), emitted_plain hform]
        simp

/-- Joined by spaces, with one in front. -/
theorem spaced_intercalate {ps : List Str} (h : ps ≠ []) :
    ch ' ' :: (str " ").intercalate ps = spaced ps := by
  obtain ⟨p, ps, rfl⟩ := List.exists_cons_of_ne_nil h
  rw [Joined.intercalate_cons]
  rfl

theorem exists_utf8_cons {c : CodePoint} (h : c.isSurrogate = false) :
    ∃ b bs, utf8 [c] = b :: bs := by
  have hsome := encodeChar_isSome c
  rw [h] at hsome
  obtain ⟨form, hform⟩ := Option.isSome_iff_exists.mp hsome
  have hutf8 : utf8 [c] = form := by
    rw [utf8_cons, hform, utf8_nil, List.append_nil]
    rfl
  rw [hutf8]
  apply List.exists_cons_of_ne_nil
  rintro rfl
  unfold encodeChar at hform
  split_ifs at hform <;> cases hform

theorem hexText_eq {c : CodePoint} {b : UInt8} {bs : Bytes} (h : utf8 [c] = b :: bs) :
    hexText c = ch ' ' :: (hexPiece b ++ bs.flatMap fun b => ch ' ' :: hexPiece b) := by
  rw [hexText, h]
  rfl

/-- The text of a string that is not empty. -/
theorem cString_eq {s : Str} (hs : Encodable s) (h : s ≠ []) :
    ch ' ' :: cString s = emitted false s := by
  have hspaced := (spaced_pieces s).1
  have hne : pieces [] s ≠ [] := by
    intro hnil
    rw [hnil] at hspaced
    obtain ⟨c, s, rfl⟩ := List.exists_cons_of_ne_nil h
    cases hform : plainForm c with
    | some form =>
      rw [emitted_closed_plain hform] at hspaced
      cases hspaced
    | none =>
      rw [emitted_closed_hex hform] at hspaced
      obtain ⟨b, bs, hutf8⟩ := exists_utf8_cons (hs c List.mem_cons_self)
      rw [hexText_eq hutf8] at hspaced
      cases hspaced
  rw [cString, if_neg hne, spaced_intercalate hne, hspaced]

/-! ### What phase 3 sees of it -/

/-- The characters that are escaped, and the letters that stand for them. -/
def escapedForms : List (CodePoint × CodePoint) :=
  [(ch '"', ch '"'), (ch '\\', ch '\\'), (ch '\n', ch 'n'), (ch '\r', ch 'r'), (ch '\t', ch 't')]

theorem plainForm_cases (c : CodePoint) :
    (plainForm c = some [c] ∧ 0x20 ≤ c.val ∧ c.val ≤ 0x7E ∧ c ≠ ch '"' ∧ c ≠ backslash) ∨
      (∃ d, plainForm c = some [backslash, d] ∧ (c, d) ∈ escapedForms) ∨ plainForm c = none := by
  unfold plainForm
  split_ifs with hrange hspecial hn hr ht
  · rcases hspecial with rfl | rfl
    · exact .inr (.inl ⟨_, rfl, by decide⟩)
    · exact .inr (.inl ⟨_, rfl, by decide⟩)
  · rw [not_or] at hspecial
    exact .inl ⟨rfl, hrange.1, hrange.2, hspecial⟩
  · exact .inr (.inl ⟨_, rfl, by rw [hn]; decide⟩)
  · exact .inr (.inl ⟨_, rfl, by rw [hr]; decide⟩)
  · exact .inr (.inl ⟨_, rfl, by rw [ht]; decide⟩)
  · exact .inr (.inr rfl)

/-- A character that is emitted as it is. -/
def Single (c : CodePoint) : Prop := plainForm c = some [c]

theorem emitted_head {s u : Str} : (emitted true s ++ u).head? ≠ some newline := by
  cases s with
  | nil => exact fun h => absurd (Option.some.inj h) (by decide)
  | cons c s =>
    rcases plainForm_cases c with ⟨hform, hlo, -⟩ | ⟨d, hform, -⟩ | hform
    · rw [emitted_plain hform]
      intro h
      have hc : c = newline := Option.some.inj h
      rw [hc] at hlo
      exact absurd hlo (by decide)
    · rw [emitted_plain hform]
      exact fun h => absurd (Option.some.inj h) (by decide)
    · rw [emitted_hex hform]
      exact fun h => absurd (Option.some.inj h) (by decide)

/-- The third characters of trigraphs are emitted as they are, and nothing else begins so. -/
theorem lookup_of_trigraph {a b c d : CodePoint} (h : trigraph a b c = some d) :
    a = question ∧ b = question ∧ trigraphs.lookup c = some d := by
  unfold trigraph at h
  split_ifs at h with hq
  exact ⟨hq.1, hq.2, h⟩

theorem single_of_third {c d : CodePoint} (h : trigraphs.lookup c = some d) : Single c := by
  have hall : trigraphs.all (fun p => plainForm p.1 = some [p.1]) = true := by decide +kernel
  have hthird := List.all_eq_true.mp hall _ (Tables.mem_of_lookup h)
  show plainForm c = some [c]
  simpa using hthird

theorem single_question : Single question := by
  show plainForm question = some [question]
  decide +kernel

/-- The head of what is emitted is the next character itself, a quote or a backslash. -/
theorem emitted_cons_cases (s u : Str) : ∃ h t, emitted true s ++ u = h :: t ∧
    (h = ch '"' ∨ h = backslash ∨ ∃ s', s = h :: s' ∧ Single h ∧ t = emitted true s' ++ u) := by
  cases s with
  | nil => exact ⟨ch '"', u, rfl, .inl rfl⟩
  | cons c s =>
    rcases plainForm_cases c with ⟨hform, -⟩ | ⟨d, hform, -⟩ | hform
    · rw [emitted_plain hform]
      exact ⟨c, _, rfl, .inr (.inr ⟨s, rfl, hform, rfl⟩)⟩
    · rw [emitted_plain hform]
      exact ⟨backslash, _, rfl, .inr (.inl rfl)⟩
    · rw [emitted_hex hform]
      exact ⟨ch '"', _, rfl, .inl rfl⟩

/-- A trigraph in the emission is one of the string. -/
theorem clear_emitted {c : CodePoint} {s : Str} (h : Clear c s) (u : Str) :
    Clear c (emitted true s ++ u) := by
  intro x y t heq
  by_contra htrigraph
  obtain ⟨d, hd⟩ := Option.ne_none_iff_exists'.mp htrigraph
  obtain ⟨-, rfl, hthird⟩ := lookup_of_trigraph hd
  obtain ⟨x', t', hcons, hcases⟩ := emitted_cons_cases s u
  obtain ⟨rfl, rfl⟩ := List.cons.inj (heq.symm.trans hcons)
  rcases hcases with hq | hq | ⟨s', rfl, -, hrest⟩
  · exact absurd hq (by decide)
  · exact absurd hq (by decide)
  · obtain ⟨y', t'', hcons', hcases'⟩ := emitted_cons_cases s' u
    obtain ⟨rfl, -⟩ := List.cons.inj (hrest.trans hcons')
    rcases hcases' with rfl | rfl | ⟨s'', rfl, -⟩
    · cases hthird.symm.trans (show trigraphs.lookup (ch '"') = none by decide)
    · cases hthird.symm.trans (show trigraphs.lookup backslash = none by decide)
    · rw [h _ _ _ rfl] at hd
      cases hd

section
variable {c d : CodePoint} {s : Str} (u : Str)

theorem source_emitted_nil : source (emitted true [] ++ u) = ch '"' :: source u :=
  source_plain (by decide) (by decide) u

theorem source_emitted_single (hform : Single c) (hb : c ≠ backslash) (h : Clear c s) :
    source (emitted true (c :: s) ++ u) = c :: source (emitted true s ++ u) := by
  rw [emitted_plain hform]
  exact source_cons (clear_emitted h u) fun hc => absurd hc hb

theorem source_emitted_trigraph (h : trigraphs.lookup c = some d) :
    source (emitted true (question :: question :: c :: s) ++ u) =
      d :: source (emitted true s ++ u) := by
  rw [emitted_plain single_question, emitted_plain single_question,
    emitted_plain (single_of_third h)]
  have htrigraph : trigraph question question c = some d := by
    rw [trigraph, if_pos ⟨rfl, rfl⟩, h]
  exact source_trigraph htrigraph emitted_head

theorem source_emitted_escaped (hform : plainForm c = some [backslash, d])
    (hd : (c, d) ∈ escapedForms) :
    source (emitted true (c :: s) ++ u) = backslash :: d :: source (emitted true s ++ u) := by
  have hall : escapedForms.all (fun p => p.2 ≠ question && p.2 ≠ newline) = true := by decide
  have hdne : d ≠ question ∧ d ≠ newline := by simpa using List.all_eq_true.mp hall _ hd
  rw [emitted_plain hform]
  refine (source_cons (clear_of_ne (by decide) _) fun _ hhead => ?_).trans ?_
  · exact hdne.2 (Option.some.inj hhead)
  · exact congrArg (backslash :: ·)
      (source_cons (clear_of_ne hdne.1 _) fun _ => emitted_head)

end

end Msys.CHeader
