import MsysSdk.CSource.Lexing
import MsysSdk.Text.Tables

/-! How the phases go through a text from left to right. -/

namespace C11
open Python

/-! ### Phases 1 and 2 -/

def question : CodePoint := ch '?'
def backslash : CodePoint := ch '\\'
def newline : CodePoint := ch '\n'

theorem trigraph_of_ne {a b c : CodePoint} (h : a ≠ question) : trigraph a b c = none :=
  if_neg fun h' => h h'.1

/-- No trigraph begins here. -/
def Clear (a : CodePoint) (s : Str) : Prop := ∀ b c t, s = b :: c :: t → trigraph a b c = none

theorem clear_of_ne {a : CodePoint} (h : a ≠ question) (s : Str) : Clear a s :=
  fun _ _ _ _ => trigraph_of_ne h

theorem replaceTrigraphs_cons {a : CodePoint} {s : Str} (h : Clear a s) :
    replaceTrigraphs (a :: s) = a :: replaceTrigraphs s := by
  match s, h with
  | [], _ => rfl
  | [b], _ => rfl
  | b :: c :: s, h => rw [replaceTrigraphs, h b c s rfl]

theorem replaceTrigraphs_trigraph {a b c d : CodePoint} (h : trigraph a b c = some d) (s : Str) :
    replaceTrigraphs (a :: b :: c :: s) = d :: replaceTrigraphs s := by
  rw [replaceTrigraphs, h]

theorem trigraph_mem {a b c d : CodePoint} (h : trigraph a b c = some d) : (c, d) ∈ trigraphs := by
  unfold trigraph at h
  split_ifs at h
  exact Tables.mem_of_lookup h

theorem trigraph_ne_newline {a b c d : CodePoint} (h : trigraph a b c = some d) : d ≠ newline := by
  have hall : trigraphs.all (fun p => p.2 ≠ newline) = true := by decide
  simpa using List.all_eq_true.mp hall _ (trigraph_mem h)

theorem head_replaceTrigraphs {s : Str} (h : s.head? ≠ some newline) :
    (replaceTrigraphs s).head? ≠ some newline := by
  match s with
  | [] => exact h
  | [a] => exact h
  | [a, b] => exact h
  | a :: b :: c :: s =>
    rw [replaceTrigraphs]
    cases ht : trigraph a b c with
    | none => exact h
    | some d =>
      intro hd
      exact trigraph_ne_newline ht (Option.some.inj hd)

theorem splice_cons {a : CodePoint} {s : Str} (h : a = backslash → s.head? ≠ some newline) :
    splice (a :: s) = a :: splice s := by
  match s, h with
  | [], _ => rfl
  | b :: s, h =>
    rw [splice, if_neg]
    rintro ⟨ha, rfl⟩
    exact h ha rfl

/-- A character that phases 1 and 2 leave alone. -/
theorem source_cons {a : CodePoint} {s : Str} (hclear : Clear a s)
    (hline : a = backslash → s.head? ≠ some newline) : source (a :: s) = a :: source s := by
  rw [source, replaceTrigraphs_cons hclear, splice_cons fun ha => head_replaceTrigraphs (hline ha)]
  rfl

theorem source_plain {a : CodePoint} (hq : a ≠ question) (hb : a ≠ backslash) (s : Str) :
    source (a :: s) = a :: source s :=
  source_cons (clear_of_ne hq s) fun ha => absurd ha hb

theorem source_trigraph {a b c d : CodePoint} {s : Str} (h : trigraph a b c = some d)
    (hline : s.head? ≠ some newline) : source (a :: b :: c :: s) = d :: source s := by
  rw [source, replaceTrigraphs_trigraph h, splice_cons fun _ => head_replaceTrigraphs hline]
  rfl

/-- Neither a question mark nor a backslash. -/
def Quiet (t : Str) : Prop := ∀ c ∈ t, c ≠ question ∧ c ≠ backslash

theorem Quiet.append {s t : Str} (hs : Quiet s) (ht : Quiet t) : Quiet (s ++ t) :=
  List.forall_mem_append.mpr ⟨hs, ht⟩

/-- The test of a literal in the form that evaluates. -/
theorem quiet_of_all {t : Str} (h : t.all (fun c => c ≠ question && c ≠ backslash) = true) :
    Quiet t := by
  simpa [Quiet] using h

theorem source_quiet {t : Str} (h : Quiet t) (s : Str) : source (t ++ s) = t ++ source s := by
  induction t with
  | nil => rfl
  | cons c t ih =>
    obtain ⟨⟨hq, hb⟩, ht⟩ := List.forall_mem_cons.mp h
    rw [List.cons_append, source_plain hq hb, ih ht]
    rfl

/-! ### Phase 3 -/

theorem scan_cons (s : Lexer) (c : CodePoint) (t : Str) : scan s (c :: t) = scan (step s c) t := rfl

theorem scan_append (s : Lexer) (t u : Str) : scan s (t ++ u) = scan (scan s t) u :=
  List.foldl_append

/-- The text takes the lexer from one state to the other, whatever comes after it. -/
def Feeds (s : Lexer) (t : Str) (s' : Lexer) : Prop :=
  ∀ u, scan s (source (t ++ u)) = scan s' (source u)

theorem Feeds.append {s s' s'' : Lexer} {t u : Str} (h : Feeds s t s') (h' : Feeds s' u s'') :
    Feeds s (t ++ u) s'' := by
  intro v
  rw [List.append_assoc, h (u ++ v), h' v]

theorem feeds_quiet {s : Lexer} {t : Str} (h : Quiet t) : Feeds s t (scan s t) := by
  intro u
  rw [source_quiet h, scan_append]

/-- The lexer with tokens in front of its own. -/
def Lexer.after (s : Lexer) (ts : List Token) : Lexer := ⟨ts ++ s.tokens, s.mode⟩

section
variable (ts us : List Token) (b : Bytes) (c : CodePoint)

theorem inCode_after : inCode (ts ++ us) c = (inCode us c).after ts := by
  unfold inCode
  split_ifs <;> simp [Lexer.after]

theorem inText_after : inText (ts ++ us) b c = (inText us b c).after ts := by
  unfold inText
  split_ifs <;> simp [Lexer.after]

theorem inEscape_after : inEscape (ts ++ us) b c = (inEscape us b c).after ts := by
  unfold inEscape
  split
  · rfl
  · rfl
  · split_ifs <;> rfl

theorem afterNumber_after (n : Nat) :
    afterNumber (ts ++ us) b n c = (afterNumber us b n c).after ts := by
  unfold afterNumber
  split_ifs
  · exact inText_after ts us _ c
  · rfl

theorem inOctal_after (k n : Nat) :
    inOctal (ts ++ us) b k n c = (inOctal us b k n c).after ts := by
  unfold inOctal
  split
  · rfl
  · exact afterNumber_after ts us b c n

theorem inHex_after (n : Option Nat) :
    inHex (ts ++ us) b n c = (inHex us b n c).after ts := by
  unfold inHex
  split
  · rfl
  · exact afterNumber_after ts us b c _
  · rfl

theorem inUniversal_after (k n : Nat) :
    inUniversal (ts ++ us) b k n c = (inUniversal us b k n c).after ts := by
  unfold inUniversal
  split
  · rfl
  · split <;> rfl
  · rfl

end

theorem step_after (s : Lexer) (ts : List Token) (c : CodePoint) :
    step (s.after ts) c = (step s c).after ts := by
  obtain ⟨us, mode⟩ := s
  cases mode with
  | code => exact inCode_after ts us c
  | text b => exact inText_after ts us b c
  | escape b => exact inEscape_after ts us b c
  | octal b k n => exact inOctal_after ts us b c k n
  | hex b n => exact inHex_after ts us b c n
  | universal b k n => exact inUniversal_after ts us b c k n
  | word w =>
    simp only [step, Lexer.after]
    split_ifs
    · rfl
    · rw [List.append_assoc]
      exact inCode_after ts _ c
  | slash =>
    simp only [step, Lexer.after]
    split_ifs
    · rfl
    · rfl
    · rw [List.append_assoc]
      exact inCode_after ts _ c
  | lineComment | comment | star =>
    simp only [step, Lexer.after]
    split_ifs <;> simp
  | error => rfl

theorem scan_after (s : Lexer) (ts : List Token) (t : Str) :
    scan (s.after ts) t = (scan s t).after ts := by
  induction t generalizing s with
  | nil => rfl
  | cons c t ih => rw [scan_cons, scan_cons, step_after, ih]

theorem Feeds.after {s s' : Lexer} {t : Str} (h : Feeds s t s') (ts : List Token) :
    Feeds (s.after ts) t (s'.after ts) := by
  intro u
  rw [scan_after, scan_after, h u]

/-- A text that begins and ends outside of all tokens. -/
def Gives (t : Str) (ts : List Token) : Prop := Feeds ⟨[], .code⟩ t ⟨ts, .code⟩

theorem gives_nil : Gives [] [] := fun _ => rfl

theorem gives_quiet {t : Str} {ts : List Token} (hq : Quiet t)
    (h : scan ⟨[], .code⟩ t = ⟨ts, .code⟩) : Gives t ts := by
  rw [Gives, ← h]
  exact feeds_quiet hq

/-- The same with tokens already there. -/
theorem Gives.feeds {t : Str} {ts : List Token} (h : Gives t ts) (us : List Token) :
    Feeds ⟨us, .code⟩ t ⟨us ++ ts, .code⟩ := by
  have hafter := Feeds.after h us
  rwa [Lexer.after, List.append_nil] at hafter

theorem Gives.append {t u : Str} {ts us : List Token} (h : Gives t ts) (h' : Gives u us) :
    Gives (t ++ u) (ts ++ us) :=
  Feeds.append h (h'.feeds ts)

theorem Gives.flatMap {α : Type} {f : α → Str} {g : α → List Token} {l : List α}
    (h : ∀ x ∈ l, Gives (f x) (g x)) : Gives (l.flatMap f) (l.flatMap g) := by
  induction l with
  | nil => exact gives_nil
  | cons x l ih =>
    obtain ⟨hx, hl⟩ := List.forall_mem_cons.mp h
    exact hx.append (ih hl)

theorem scan_error (ts : List Token) (t : Str) : scan ⟨ts, .error⟩ t = ⟨ts, .error⟩ := by
  induction t with
  | nil => rfl
  | cons c t ih => exact ih

theorem scan_word (ts : List Token) {w t : Str} (h : ∀ c ∈ t, isWordChar c = true) :
    scan ⟨ts, .word w⟩ t = ⟨ts, .word (w ++ t)⟩ := by
  induction t generalizing w with
  | nil => rw [List.append_nil]; rfl
  | cons c t ih =>
    obtain ⟨hc, ht⟩ := List.forall_mem_cons.mp h
    have hstep : step ⟨ts, .word w⟩ c = ⟨ts, .word (w ++ [c])⟩ := if_pos hc
    rw [scan_cons, hstep, ih ht, List.append_assoc]
    rfl

theorem inCode_word (ts : List Token) {c : CodePoint} (h : isWordChar c = true) :
    inCode ts c = ⟨ts, .word [c]⟩ := by
  have hline : c ≠ ch '\n' := by
    rintro rfl
    exact absurd h (by decide)
  have hblank : isBlank c = false := by
    by_contra hblank
    simp only [isBlank, Bool.not_eq_false, Bool.or_eq_true, decide_eq_true_eq] at hblank
    rcases hblank with ((rfl | rfl) | rfl) | rfl <;> exact absurd h (by decide)
  rw [inCode, if_neg hline, hblank, if_neg Bool.false_ne_true, if_pos h]

theorem quiet_word {w : Str} (h : ∀ c ∈ w, isWordChar c = true) : Quiet w := by
  intro c hc
  have hword := h c hc
  constructor <;>
  · rintro rfl
    exact absurd hword (by decide)

/-- A word ends where a character follows that cannot be part of it. -/
theorem Gives.word {w t : Str} {x : CodePoint} {ts : List Token} (h : Gives (x :: t) ts)
    (hne : w ≠ []) (hw : ∀ c ∈ w, isWordChar c = true) (hx : isWordChar x = false)
    (hquiet : x ≠ question ∧ x ≠ backslash) : Gives (w ++ x :: t) (.word w :: ts) := by
  intro u
  have hscan : scan ⟨[], .code⟩ w = ⟨[], .word w⟩ := by
    obtain ⟨c, w, rfl⟩ := List.exists_cons_of_ne_nil hne
    obtain ⟨hc, hw⟩ := List.forall_mem_cons.mp hw
    have hstep : step ⟨[], .code⟩ c = ⟨[], .word [c]⟩ := inCode_word [] hc
    rw [scan_cons, hstep, scan_word [] hw]
    rfl
  have hend : step ⟨[], .word w⟩ x = step ⟨[.word w], .code⟩ x := if_neg (by simp [hx])
  have hrest := h.feeds [.word w] u
  rw [List.cons_append, source_plain hquiet.1 hquiet.2, scan_cons] at hrest
  rw [List.append_assoc, source_quiet (quiet_word hw), scan_append, hscan, List.cons_append,
    source_plain hquiet.1 hquiet.2, scan_cons, hend, hrest]
  rfl

end C11
