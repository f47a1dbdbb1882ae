import MsysSdk.I18n.Patterns
import MsysSdk.Text.Template

/-! `_parse_template` and the loop of `Translator._render`. The tokens of a template without
errors are its expansion. -/

namespace Msys.I18n
open Python

inductive Token
  | literal (value : Str)
  | placeholder (name : Str)
deriving DecidableEq

def flushLiteral (literal : Str) : List Token := if literal = [] then [] else [.literal literal]

section Texts

variable (u : UnicodeData)

def unclosed (index : Nat) : Str := str "unclosed '\x7b' at offset " ++ natRepr index

def invalidPlaceholder (name : Str) (index : Nat) : Str :=
  str "invalid placeholder " ++ u.repr name ++ str " at offset " ++ natRepr index

def unescaped (index : Nat) : Str := str "unescaped '\x7d' at offset " ++ natRepr index

end Texts

variable (u : UnicodeData)

/-- The loop of `_parse_template`; every round takes at least one character. -/
def parseLoop : Nat → Nat → Str → Str → List Token × List Str
  | _, _, literal, [] | 0, _, literal, _ => (flushLiteral literal, [])
  | fuel + 1, index, literal, character :: rest =>
    if character = ch '{' then
      if rest.head? = some (ch '{') then
        parseLoop fuel (index + 2) (literal ++ [ch '{']) rest.tail
      else
        let name := upTo (ch '}') rest
        match rest.dropWhile (· ≠ ch '}') with
        | [] => (flushLiteral literal, [unclosed index])
        | _ :: after =>
          if !placeholder.rmatch name then
            let (tokens, errors) := parseLoop fuel (index + name.length + 2) literal after
            (tokens, invalidPlaceholder u name index :: errors)
          else
            let (tokens, errors) := parseLoop fuel (index + name.length + 2) [] after
            (flushLiteral literal ++ .placeholder name :: tokens, errors)
    else if character = ch '}' then
      if rest.head? = some (ch '}') then
        parseLoop fuel (index + 2) (literal ++ [ch '}']) rest.tail
      else
        let (tokens, errors) := parseLoop fuel (index + 1) literal rest
        (tokens, unescaped index :: errors)
    else parseLoop fuel (index + 1) (literal ++ [character]) rest

def parseTemplate (template : Str) : List Token × List Str :=
  parseLoop u template.length 0 [] template

inductive Code
  | invalidLocale
  | localeFallback
  | missingKey
  | invalidParameters
  | invalidTemplate
  | missingPlaceholder
  | invalidPlaceholderValue
deriving DecidableEq

def Code.text : Code → String
  | invalidLocale => "invalid-locale"
  | localeFallback => "locale-fallback"
  | missingKey => "missing-key"
  | invalidParameters => "invalid-parameters"
  | invalidTemplate => "invalid-template"
  | missingPlaceholder => "missing-placeholder"
  | invalidPlaceholderValue => "invalid-placeholder-value"

/-- The text of an argument, where no argument is `_MISSING`. -/
def rendered : Option Value → Option Str
  | some (.str s) => some s
  | some (.int i) =>
    if minPlaceholderInteger ≤ i ∧ i ≤ maxPlaceholderInteger then some (intText i) else none
  | _ => none

def visible (name : Str) : Str := ch '{' :: name ++ [ch '}']

/-- The code and the detail of what is reported for a placeholder. -/
def placeholderProblem (name : Str) : Option Value → Code × Str
  | none => (.missingPlaceholder, str "placeholder " ++ u.repr name ++ str " has no argument")
  | some _ => (.invalidPlaceholderValue, str "placeholder " ++ u.repr name ++
      str " requires a string or an integer in -9007199254740991..9007199254740991")

/-- The loop of `_render`: the output, and what it emits. -/
def renderTokens (params : Str → Option Value) : List Str → List Token → Str × List (Code × Str)
  | _, [] => ([], [])
  | reported, .literal value :: tokens =>
    let (output, emitted) := renderTokens params reported tokens
    (value ++ output, emitted)
  | reported, .placeholder value :: tokens =>
    match rendered (params value) with
    | some text =>
      let (output, emitted) := renderTokens params reported tokens
      (text ++ output, emitted)
    | none =>
      if value ∈ reported then
        let (output, emitted) := renderTokens params reported tokens
        (visible value ++ output, emitted)
      else
        let (output, emitted) := renderTokens params (value :: reported) tokens
        (visible value ++ output, placeholderProblem u value (params value) :: emitted)

/-- `_render`, with the key and the locale of what it emits left to its caller. -/
def render (template : Str) (params : Str → Option Value) : Str × List (Code × Str) :=
  let (tokens, errors) := parseTemplate u template
  if errors ≠ [] then (template, [(.invalidTemplate, (str "; ").intercalate errors)])
  else renderTokens u params [] tokens

/-! ### The expansion -/

def braces : Template.Braces CodePoint where
  opening := ch '{'
  closing := ch '}'
  isName := placeholder.rmatch
  opening_ne_closing := by decide
  isName_nil := rfl

open Template (expand)

def Token.text (fill : Str → Str) : Token → Str
  | .literal value => value
  | .placeholder name => fill name

def tokensText (fill : Str → Str) (tokens : List Token) : Str := tokens.flatMap (Token.text fill)

/-- Behind the literal that is still open, the tokens say what the expansion is. -/
def Reads (fill : Str → Str) (literal : Str) (parsed : List Token × List Str) : Option Str → Prop
  | none => parsed.2 ≠ []
  | some output => parsed.2 = [] ∧ tokensText fill parsed.1 = literal ++ output

variable {u} {fill : Str → Str}

theorem Reads.char {literal : Str} {c : CodePoint} {parsed : List Token × List Str}
    {e : Option Str} (h : Reads fill (literal ++ [c]) parsed e) :
    Reads fill literal parsed (e.map (c :: ·)) := by
  cases e with
  | none => exact h
  | some output => exact ⟨h.1, by simpa using h.2⟩

theorem tokensText_flush (literal : Str) : tokensText fill (flushLiteral literal) = literal := by
  rw [flushLiteral]
  split_ifs with h
  · rw [h]
    rfl
  · simp [tokensText, Token.text]

theorem Reads.name {literal name : Str} {parsed : List Token × List Str} {e : Option Str}
    (h : Reads fill [] parsed e) :
    Reads fill literal (flushLiteral literal ++ .placeholder name :: parsed.1, parsed.2)
      (e.map (fill name ++ ·)) := by
  cases e with
  | none => exact h
  | some output =>
    refine ⟨h.1, ?_⟩
    rw [tokensText, List.flatMap_append, ← tokensText, tokensText_flush, List.flatMap_cons,
      ← tokensText, h.2]
    rfl

theorem parseLoop_reads {fuel : Nat} {s : Str} (hfuel : s.length ≤ fuel) (index : Nat)
    (literal : Str) :
    Reads fill literal (parseLoop u fuel index literal s) (expand braces fill .text s) := by
  induction fuel generalizing s index literal with
  | zero =>
    obtain rfl := List.length_eq_zero_iff.mp (Nat.le_zero.mp hfuel)
    exact ⟨rfl, by simp [parseLoop, tokensText_flush]⟩
  | succ fuel ih =>
    cases s with
    | nil => exact ⟨rfl, by simp [parseLoop, tokensText_flush]⟩
    | cons c rest =>
      have hfuel : rest.length ≤ fuel := by simpa using hfuel
      rw [parseLoop]
      by_cases ho : c = ch '{'
      · rw [if_pos ho, ho]
        by_cases hnext : rest.head? = some (ch '{')
        · obtain ⟨rest, rfl⟩ : ∃ t, rest = ch '{' :: t :=
            ⟨rest.tail, (List.cons_head?_tail hnext).symm⟩
          have hexpand : expand braces fill .text (ch '{' :: ch '{' :: rest) = _ :=
            Template.expand_opening_opening rest
          rw [if_pos hnext, hexpand]
          exact (ih (Nat.le_of_succ_le hfuel) _ _).char
        rw [if_neg hnext]
        rcases Template.expand_opening_cases (b := braces) hnext with
          ⟨hdrop, hexpand⟩ | ⟨after, hafter, hdrop, hexpand⟩
        · have hdrop : rest.dropWhile (· ≠ ch '}') = [] := hdrop
          have hexpand : expand braces fill .text (ch '{' :: rest) = none := hexpand
          rw [hdrop, hexpand]
          exact List.cons_ne_nil _ _
        · have hdrop : rest.dropWhile (· ≠ ch '}') = ch '}' :: after := hdrop
          have hexpand : expand braces fill .text (ch '{' :: rest) =
              if placeholder.rmatch (upTo (ch '}') rest) then
                (expand braces fill .text after).map (fill (upTo (ch '}') rest) ++ ·)
              else none := hexpand
          rw [hdrop, hexpand]
          by_cases hvalid : placeholder.rmatch (upTo (ch '}') rest) = true
          · simp only [hvalid, Bool.not_true, if_neg Bool.false_ne_true, if_true]
            exact (ih (by omega) _ []).name
          · simp only [hvalid, Bool.not_false, if_true, if_neg Bool.false_ne_true]
            exact List.cons_ne_nil _ _
      by_cases hc : c = ch '}'
      · rw [if_neg ho, if_pos hc, hc]
        by_cases hnext : rest.head? = some (ch '}')
        · obtain ⟨rest, rfl⟩ : ∃ t, rest = ch '}' :: t :=
            ⟨rest.tail, (List.cons_head?_tail hnext).symm⟩
          have hexpand : expand braces fill .text (ch '}' :: ch '}' :: rest) = _ :=
            Template.expand_closing_closing rest
          rw [if_pos hnext, hexpand]
          exact (ih (Nat.le_of_succ_le hfuel) _ _).char
        · have hexpand : expand braces fill .text (ch '}' :: rest) = none :=
            Template.expand_closing hnext
          rw [if_neg hnext, hexpand]
          exact List.cons_ne_nil _ _
      · rw [if_neg ho, if_neg hc, Template.expand_plain ho hc]
        exact (ih hfuel _ _).char

theorem parseTemplate_reads (fill : Str → Str) (template : Str) :
    Reads fill [] (parseTemplate u template) (expand braces fill .text template) :=
  parseLoop_reads le_rfl 0 []

theorem errors_ne_nil_iff (fill : Str → Str) {template : Str} :
    (parseTemplate u template).2 ≠ [] ↔ expand braces fill .text template = none := by
  have h := parseTemplate_reads (u := u) fill template
  cases hexpand : expand braces fill .text template with
  | none =>
    rw [hexpand] at h
    exact iff_of_true h rfl
  | some output =>
    rw [hexpand] at h
    exact iff_of_false (not_not.mpr h.1) (by simp)

/-- What `_render` puts in the place of a name. -/
def fillWith (params : Str → Option Value) (name : Str) : Str :=
  (rendered (params name)).getD (visible name)

theorem renderTokens_output (params : Str → Option Value) (reported : List Str)
    (tokens : List Token) :
    (renderTokens u params reported tokens).1 = tokensText (fillWith params) tokens := by
  induction tokens generalizing reported with
  | nil => rfl
  | cons token tokens ih =>
    rw [tokensText, List.flatMap_cons, ← tokensText]
    cases token with
    | literal value =>
      rw [renderTokens, ← ih reported]
      rfl
    | placeholder name =>
      rw [renderTokens, Token.text, fillWith]
      cases rendered (params name) with
      | some text => rw [← ih reported, Option.getD_some]
      | none =>
        rw [Option.getD_none]
        split_ifs
        · rw [← ih reported]
        · rw [← ih (name :: reported)]

/-- `_render` gives the expansion of a template that has one. -/
theorem render_output {template : Str} {params : Str → Option Value} {output : Str}
    (h : expand braces (fillWith params) .text template = some output) :
    (render u template params).1 = output := by
  have hreads := parseTemplate_reads (u := u) (fillWith params) template
  rw [h] at hreads
  rw [render]
  generalize parseTemplate u template = parsed at hreads
  obtain ⟨tokens, errors⟩ := parsed
  obtain ⟨rfl, htext⟩ := hreads
  simp only [if_neg (not_not.mpr rfl), renderTokens_output]
  exact htext

end Msys.I18n
