import MsysSdk.I18n.Template

/-! Templates without errors are the printed forms of their tokens. -/

namespace Msys.I18n
open Python
open Template (expand)

/-- A brace of a literal is doubled. -/
def printChar (c : CodePoint) : Str := if c = ch '{' ∨ c = ch '}' then [c, c] else [c]

def printLiteral (literal : Str) : Str := literal.flatMap printChar

def Token.print : Token → Str
  | .literal value => printLiteral value
  | .placeholder name => visible name

def printTokens (tokens : List Token) : Str := tokens.flatMap Token.print

/-- A token that a template can have. -/
def Token.Printable : Token → Prop
  | .literal value => value ≠ []
  | .placeholder name => I18n.placeholder.rmatch name = true

def Token.isLiteral : Token → Bool
  | .literal _ => true
  | .placeholder _ => false

structure Canonical (tokens : List Token) : Prop where
  printable : ∀ t ∈ tokens, t.Printable
  apart : tokens.IsChain fun s t => ¬ (s.isLiteral = true ∧ t.isLiteral = true)

/-- The grammar of the templates. -/
inductive IsTemplate : Str → Prop
  | nil : IsTemplate []
  | char {c : CodePoint} {s : Str} (ho : c ≠ ch '{') (hc : c ≠ ch '}') (h : IsTemplate s) :
      IsTemplate (c :: s)
  | opening {s : Str} (h : IsTemplate s) : IsTemplate (ch '{' :: ch '{' :: s)
  | closing {s : Str} (h : IsTemplate s) : IsTemplate (ch '}' :: ch '}' :: s)
  | name {name s : Str} (hname : placeholder.rmatch name = true) (h : IsTemplate s) :
      IsTemplate (visible name ++ s)

variable {u : UnicodeData}

theorem braces_notMem {name : Str} (h : placeholder.rmatch name = true) :
    ch '{' ∉ name ∧ ch '}' ∉ name := by
  have hletters : placeholder.letters.all (fun c => c ≠ ch '{' ∧ c ≠ ch '}') = true := by
    decide +kernel
  have hname := RegularExpression.forall_of_letters
    (fun c hc => of_decide_eq_true (List.all_eq_true.mp hletters c hc))
    ((RegularExpression.rmatch_iff_matches' placeholder name).mp h)
  exact ⟨fun hmem => (hname _ hmem).1 rfl, fun hmem => (hname _ hmem).2 rfl⟩

theorem printTokens_cons (t : Token) (tokens : List Token) :
    printTokens (t :: tokens) = t.print ++ printTokens tokens := rfl

theorem printTokens_append (s t : List Token) :
    printTokens (s ++ t) = printTokens s ++ printTokens t := List.flatMap_append

theorem printLiteral_append (s t : Str) :
    printLiteral (s ++ t) = printLiteral s ++ printLiteral t := List.flatMap_append

theorem printTokens_flush (literal : Str) :
    printTokens (flushLiteral literal) = printLiteral literal := by
  rw [flushLiteral]
  split_ifs with h
  · rw [h]
    rfl
  · exact List.append_nil _

theorem printChar_plain {c : CodePoint} (ho : c ≠ ch '{') (hc : c ≠ ch '}') :
    printChar c = [c] := if_neg (not_or.mpr ⟨ho, hc⟩)

theorem printChar_brace {c : CodePoint} (h : c = ch '{' ∨ c = ch '}') : printChar c = [c, c] :=
  if_pos h

/-! ### A round of the loop -/

theorem parseLoop_plain {c : CodePoint} (ho : c ≠ ch '{') (hc : c ≠ ch '}')
    (fuel index : Nat) (literal rest : Str) :
    parseLoop u (fuel + 1) index literal (c :: rest) =
      parseLoop u fuel (index + 1) (literal ++ [c]) rest := by
  rw [parseLoop, if_neg ho, if_neg hc]

theorem parseLoop_escape {c : CodePoint} (h : c = ch '{' ∨ c = ch '}') (fuel index : Nat)
    (literal rest : Str) : parseLoop u (fuel + 1) index literal (c :: c :: rest) =
      parseLoop u fuel (index + 2) (literal ++ [c]) rest := by
  rw [parseLoop]
  rcases h with rfl | rfl
  · rw [if_pos rfl, List.head?_cons, if_pos rfl, List.tail_cons]
  · rw [if_neg (by decide), if_pos rfl, List.head?_cons, if_pos rfl, List.tail_cons]

theorem upTo_append {name : Str} {c : CodePoint} (h : c ∉ name) (rest : Str) :
    upTo c (name ++ c :: rest) = name ∧
      (name ++ c :: rest).dropWhile (· ≠ c) = c :: rest := by
  have hne : ∀ d ∈ name, decide (d ≠ c) = true := fun d hd =>
    decide_eq_true fun heq => h (heq ▸ hd)
  constructor
  · rw [upTo, List.takeWhile_append_of_pos hne, List.takeWhile_cons_of_neg (by simp),
      List.append_nil]
  · rw [List.dropWhile_append_of_pos hne, List.dropWhile_cons_of_neg (by simp)]

theorem visible_append (name rest : Str) :
    visible name ++ rest = ch '{' :: (name ++ ch '}' :: rest) := by simp [visible]

theorem parseLoop_name {name : Str} (h : placeholder.rmatch name = true) (fuel index : Nat)
    (literal rest : Str) :
    parseLoop u (fuel + 1) index literal (visible name ++ rest) =
      (flushLiteral literal ++
        .placeholder name :: (parseLoop u fuel (index + name.length + 2) [] rest).1,
        (parseLoop u fuel (index + name.length + 2) [] rest).2) := by
  obtain ⟨hopening, hclosing⟩ := braces_notMem h
  have hhead : (name ++ ch '}' :: rest).head? ≠ some (ch '{') := fun hhead => by
    cases name with
    | nil => cases h
    | cons c name => exact hopening (Option.some.inj hhead ▸ List.mem_cons_self)
  obtain ⟨hname, hdrop⟩ := upTo_append hclosing rest
  rw [visible_append, parseLoop, if_pos rfl, if_neg hhead]
  simp only [hname, hdrop, h, Bool.not_true, if_neg Bool.false_ne_true]

/-! ### Printed tokens are read back -/

/-- The printed literal joins the one that is open. -/
theorem parseLoop_literal (value : Str) {fuel : Nat} {rest : Str}
    (hfuel : (printLiteral value ++ rest).length ≤ fuel) (index : Nat) (literal : Str) :
    ∃ fuel' index', rest.length ≤ fuel' ∧
      parseLoop u fuel index literal (printLiteral value ++ rest) =
        parseLoop u fuel' index' (literal ++ value) rest := by
  induction value generalizing fuel index literal with
  | nil => exact ⟨fuel, index, hfuel, by rw [List.append_nil]; rfl⟩
  | cons c value ih =>
    have hcons : printLiteral (c :: value) ++ rest =
        printChar c ++ (printLiteral value ++ rest) := List.append_assoc _ _ _
    rw [hcons] at hfuel ⊢
    by_cases hbrace : c = ch '{' ∨ c = ch '}'
    · rw [printChar_brace hbrace] at hfuel ⊢
      obtain ⟨n, rfl⟩ : ∃ n, fuel = n + 1 := Nat.exists_eq_add_one.mpr (Nat.zero_lt_of_lt hfuel)
      obtain ⟨fuel', index', hfuel', heq⟩ :=
        ih (Nat.le_of_succ_le (Nat.le_of_succ_le_succ hfuel)) (index + 2) (literal ++ [c])
      refine ⟨fuel', index', hfuel', ?_⟩
      rw [List.append_assoc, List.singleton_append] at heq
      exact (parseLoop_escape hbrace n index literal _).trans heq
    · obtain ⟨ho, hc⟩ := not_or.mp hbrace
      rw [printChar_plain ho hc] at hfuel ⊢
      obtain ⟨n, rfl⟩ : ∃ n, fuel = n + 1 := Nat.exists_eq_add_one.mpr (Nat.zero_lt_of_lt hfuel)
      obtain ⟨fuel', index', hfuel', heq⟩ :=
        ih (Nat.le_of_succ_le_succ hfuel) (index + 1) (literal ++ [c])
      refine ⟨fuel', index', hfuel', ?_⟩
      rw [List.append_assoc, List.singleton_append] at heq
      exact (parseLoop_plain ho hc n index literal _).trans heq

/-- An open literal is closed by the next token, which is no literal. -/
theorem parseLoop_print {tokens : List Token} (h : Canonical tokens) {fuel : Nat}
    (hfuel : (printTokens tokens).length ≤ fuel) (index : Nat) {literal : Str}
    (hliteral : literal ≠ [] → ∀ t ∈ tokens.head?, t.isLiteral = false) :
    parseLoop u fuel index literal (printTokens tokens) = (flushLiteral literal ++ tokens, []) := by
  induction tokens generalizing fuel index literal with
  | nil =>
    rw [List.append_nil]
    cases fuel <;> rfl
  | cons t tokens ih =>
    obtain ⟨hprint, hprintable⟩ := List.forall_mem_cons.mp h.printable
    obtain ⟨hnext, hchain⟩ := List.isChain_cons.mp h.apart
    have hrest : Canonical tokens := ⟨hprintable, hchain⟩
    rw [printTokens_cons] at hfuel ⊢
    cases t with
    | literal value =>
      obtain rfl : literal = [] := by
        by_contra hne
        cases hliteral hne _ rfl
      obtain ⟨fuel', index', hfuel', heq⟩ := parseLoop_literal value hfuel index []
      refine heq.trans ((ih hrest hfuel' index' fun _ t ht => ?_).trans ?_)
      · exact Bool.eq_false_of_not_eq_true fun hlit => hnext t ht ⟨rfl, hlit⟩
      · rw [List.nil_append, flushLiteral, if_neg hprint]
        rfl
    | placeholder name =>
      obtain ⟨n, rfl⟩ : ∃ n, fuel = n + 1 := Nat.exists_eq_add_one.mpr (Nat.zero_lt_of_lt hfuel)
      have hlen : (printTokens tokens).length ≤ n := by
        rw [Token.print, visible_append] at hfuel
        simp only [List.length_cons, List.length_append] at hfuel
        omega
      refine (parseLoop_name hprint n index literal _).trans ?_
      rw [ih hrest hlen _ fun hne => absurd rfl hne]
      rfl

theorem parseTemplate_print {tokens : List Token} (h : Canonical tokens) :
    parseTemplate u (printTokens tokens) = (tokens, []) :=
  parseLoop_print h le_rfl 0 fun hne => absurd rfl hne

/-! ### Read templates are printed back -/

/-- What a round finds, unless it reports an error. -/
theorem parseLoop_cases (fuel index : Nat) (literal : Str) (c : CodePoint) (rest : Str)
    (h : (parseLoop u (fuel + 1) index literal (c :: rest)).2 = []) :
    (c ≠ ch '{' ∧ c ≠ ch '}') ∨
      ((c = ch '{' ∨ c = ch '}') ∧ ∃ after, rest = c :: after) ∨
      ∃ name after, placeholder.rmatch name = true ∧ c :: rest = visible name ++ after := by
  by_cases hbrace : c = ch '{' ∨ c = ch '}'
  swap
  · exact .inl (not_or.mp hbrace)
  by_cases hnext : rest.head? = some c
  · exact .inr (.inl ⟨hbrace, rest.tail, (List.cons_head?_tail hnext).symm⟩)
  rw [parseLoop] at h
  rcases hbrace with rfl | rfl
  · rw [if_pos rfl, if_neg hnext] at h
    rcases Template.find_cases (ch '}') rest with ⟨-, hdrop⟩ | ⟨after, -, hdrop, hsplit⟩
    · rw [hdrop] at h
      cases h
    · rw [hdrop] at h
      refine .inr (.inr ⟨upTo (ch '}') rest, after, ?_, ?_⟩)
      · by_contra hname
        rw [Bool.not_eq_true] at hname
        simp [hname] at h
      · rw [visible_append]
        exact congrArg (ch '{' :: ·) hsplit.symm
  · rw [if_neg (by decide), if_pos rfl, if_neg hnext] at h
    cases h

theorem canonical_flush (literal : Str) : Canonical (flushLiteral literal) := by
  rw [flushLiteral]
  split_ifs with h
  · exact ⟨List.forall_mem_nil _, List.isChain_nil⟩
  · exact ⟨List.forall_mem_singleton.mpr h, List.isChain_singleton _⟩

theorem Canonical.name {tokens : List Token} (h : Canonical tokens) (literal : Str) {name : Str}
    (hname : placeholder.rmatch name = true) :
    Canonical (flushLiteral literal ++ .placeholder name :: tokens) := by
  have hflush := canonical_flush literal
  have hcons : Canonical (.placeholder name :: tokens) :=
    ⟨List.forall_mem_cons.mpr ⟨hname, h.printable⟩,
      List.isChain_cons.mpr ⟨fun _ _ hboth => Bool.false_ne_true hboth.1, h.apart⟩⟩
  refine ⟨List.forall_mem_append.mpr ⟨hflush.printable, hcons.printable⟩,
    List.isChain_append.mpr ⟨hflush.apart, hcons.apart, fun _ _ t ht hboth => ?_⟩⟩
  obtain rfl := Option.some.inj ht
  exact Bool.false_ne_true hboth.2

theorem print_parseLoop {fuel : Nat} {s : Str} (hfuel : s.length ≤ fuel) {index : Nat}
    {literal : Str} (h : (parseLoop u fuel index literal s).2 = []) :
    printTokens (parseLoop u fuel index literal s).1 = printLiteral literal ++ s ∧
      Canonical (parseLoop u fuel index literal s).1 := by
  induction fuel using Nat.strong_induction_on generalizing s index literal with
  | h fuel ih =>
    cases s with
    | nil =>
      have hloop : parseLoop u fuel index literal [] = (flushLiteral literal, []) := by
        cases fuel <;> rfl
      rw [hloop, List.append_nil]
      exact ⟨printTokens_flush literal, canonical_flush literal⟩
    | cons c rest =>
      obtain ⟨n, rfl⟩ : ∃ n, fuel = n + 1 := Nat.exists_eq_add_one.mpr (Nat.zero_lt_of_lt hfuel)
      have hrest := Nat.le_of_succ_le_succ hfuel
      have hsnoc : ∀ d, printLiteral (literal ++ [d]) = printLiteral literal ++ printChar d :=
        fun d => by
          rw [printLiteral_append]
          exact congrArg (printLiteral literal ++ ·) (List.append_nil _)
      rcases parseLoop_cases n index literal c rest h with
        ⟨ho, hc⟩ | ⟨hbrace, after, rfl⟩ | ⟨name, after, hname, hsplit⟩
      · rw [parseLoop_plain ho hc] at h ⊢
        obtain ⟨hprint, hcanonical⟩ := ih n n.lt_succ_self hrest h
        rw [hprint, hsnoc, printChar_plain ho hc, List.append_assoc]
        exact ⟨rfl, hcanonical⟩
      · rw [parseLoop_escape hbrace] at h ⊢
        obtain ⟨hprint, hcanonical⟩ := ih n n.lt_succ_self (Nat.le_of_succ_le hrest) h
        rw [hprint, hsnoc, printChar_brace hbrace, List.append_assoc]
        exact ⟨rfl, hcanonical⟩
      · rw [hsplit] at h ⊢
        rw [parseLoop_name hname] at h ⊢
        have hlen : after.length ≤ n := by
          have hlen := congrArg List.length hsplit
          rw [visible_append] at hlen
          simp only [List.length_cons, List.length_append] at hlen
          omega
        obtain ⟨hprint, hcanonical⟩ := ih n n.lt_succ_self hlen h
        refine ⟨?_, hcanonical.name literal hname⟩
        rw [printTokens_append, printTokens_flush, printTokens_cons, hprint]
        rfl

theorem print_parseTemplate {s : Str} (h : (parseTemplate u s).2 = []) :
    printTokens (parseTemplate u s).1 = s ∧ Canonical (parseTemplate u s).1 :=
  print_parseLoop le_rfl h

/-! ### The grammar -/

theorem IsTemplate.literal {s : Str} (h : IsTemplate s) (value : Str) :
    IsTemplate (printLiteral value ++ s) := by
  induction value with
  | nil => exact h
  | cons c value ih =>
    have hcons : printLiteral (c :: value) ++ s = printChar c ++ (printLiteral value ++ s) :=
      List.append_assoc _ _ _
    rw [hcons]
    by_cases hbrace : c = ch '{' ∨ c = ch '}'
    · rw [printChar_brace hbrace]
      rcases hbrace with rfl | rfl
      · exact .opening ih
      · exact .closing ih
    · obtain ⟨ho, hc⟩ := not_or.mp hbrace
      rw [printChar_plain ho hc]
      exact .char ho hc ih

theorem isTemplate_print {tokens : List Token} (h : ∀ t ∈ tokens, t.Printable) :
    IsTemplate (printTokens tokens) := by
  induction tokens with
  | nil => exact .nil
  | cons t tokens ih =>
    obtain ⟨hprint, htokens⟩ := List.forall_mem_cons.mp h
    rw [printTokens_cons]
    cases t with
    | literal value => exact (ih htokens).literal value
    | placeholder name => exact .name hprint (ih htokens)

theorem IsTemplate.parses {s : Str} (h : IsTemplate s) {fuel : Nat} (hfuel : s.length ≤ fuel)
    (index : Nat) (literal : Str) : (parseLoop u fuel index literal s).2 = [] := by
  induction h generalizing fuel index literal with
  | nil => cases fuel <;> rfl
  | char ho hc _ ih =>
    obtain ⟨n, rfl⟩ : ∃ n, fuel = n + 1 := Nat.exists_eq_add_one.mpr (Nat.zero_lt_of_lt hfuel)
    rw [parseLoop_plain ho hc]
    exact ih (Nat.le_of_succ_le_succ hfuel) _ _
  | opening _ ih =>
    obtain ⟨n, rfl⟩ : ∃ n, fuel = n + 1 := Nat.exists_eq_add_one.mpr (Nat.zero_lt_of_lt hfuel)
    rw [parseLoop_escape (.inl rfl)]
    exact ih (Nat.le_of_succ_le (Nat.le_of_succ_le_succ hfuel)) _ _
  | closing _ ih =>
    obtain ⟨n, rfl⟩ : ∃ n, fuel = n + 1 := Nat.exists_eq_add_one.mpr (Nat.zero_lt_of_lt hfuel)
    rw [parseLoop_escape (.inr rfl)]
    exact ih (Nat.le_of_succ_le (Nat.le_of_succ_le_succ hfuel)) _ _
  | name hname _ ih =>
    rw [visible_append] at hfuel
    obtain ⟨n, rfl⟩ : ∃ n, fuel = n + 1 := Nat.exists_eq_add_one.mpr (Nat.zero_lt_of_lt hfuel)
    rw [parseLoop_name hname]
    refine ih ?_ _ _
    simp only [List.length_cons, List.length_append] at hfuel
    omega

theorem errors_eq_nil_iff {s : Str} : (parseTemplate u s).2 = [] ↔ IsTemplate s := by
  constructor
  · intro h
    obtain ⟨hprint, hcanonical⟩ := print_parseTemplate h
    exact hprint ▸ isTemplate_print hcanonical.printable
  · exact fun h => h.parses le_rfl 0 []

/-- Parsing and printing are inverse to each other, between the canonical token sequences and the
templates of the grammar. -/
theorem parse_print_inverse (u : UnicodeData) :
    (∀ tokens, Canonical tokens → parseTemplate u (printTokens tokens) = (tokens, [])) ∧
      (∀ s, (parseTemplate u s).2 = [] → printTokens (parseTemplate u s).1 = s) ∧
      ∀ s, (parseTemplate u s).2 = [] ↔ IsTemplate s :=
  ⟨fun _ => parseTemplate_print, fun _ h => (print_parseTemplate h).1, fun _ => errors_eq_nil_iff⟩

theorem parse_print_braces :
    parseTemplate .ascii (printTokens
        [.literal (str "\x7b"), .placeholder (str "x"), .literal (str "\x7d")]) =
      ([.literal (str "\x7b"), .placeholder (str "x"), .literal (str "\x7d")], []) ∧
    printTokens (parseTemplate .ascii (str "\x7b\x7b\x7bx\x7d\x7d\x7d")).1 =
      str "\x7b\x7b\x7bx\x7d\x7d\x7d" := by
  refine ⟨(parse_print_inverse .ascii).1 _ ⟨?_, ?_⟩,
    (parse_print_inverse .ascii).2.1 _ (by decide +kernel)⟩
  · have hname : placeholder.rmatch (str "x") = true := by decide +kernel
    simp only [List.forall_mem_cons]
    exact ⟨List.cons_ne_nil _ _, hname, List.cons_ne_nil _ _, List.forall_mem_nil _⟩
  · simp [Token.isLiteral]

end Msys.I18n
