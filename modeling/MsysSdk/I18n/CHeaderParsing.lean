import MsysSdk.I18n.CHeaderLines

/-! The declarations of a generated header, read from its tokens. -/

namespace Msys.CHeader
open Python C11
open Msys.I18n hiding Token

theorem expect_append (a b : List C11.Token) : expect a (a ++ b) = some b := by
  rw [expect, if_pos (List.prefix_append a b), List.drop_left]

/-! ### The include guard -/

def openingTokens (guard : Str) : List C11.Token :=
  [.newline] ++ ifndefLine guard ++ defineLine guard ++ (.newline :: includeLine)

/-- The tokens before the next directive. -/
def bodyOf (ts : List C11.Token) : List C11.Token := ts.takeWhile (· ≠ punct '#')

theorem unguard_opening (guard : Str) (ts : List C11.Token) :
    unguard (openingTokens guard ++ ts) =
      if ts.dropWhile (· ≠ punct '#') = endifLine ∧ (bodyOf ts).getLast? = some .newline ∧
          .word guard ∉ bodyOf ts then some ((bodyOf ts).filter (· ≠ .newline))
      else none := by
  have hstart : skipLines (openingTokens guard ++ ts) =
      ifndefLine guard ++ (defineLine guard ++ (.newline :: includeLine ++ ts)) := rfl
  have hguard : guardOf (ifndefLine guard ++ (defineLine guard ++ (.newline :: includeLine ++ ts))) =
      some guard := rfl
  have hdefine : skipLines (defineLine guard ++ (.newline :: includeLine ++ ts)) =
      defineLine guard ++ (.newline :: includeLine ++ ts) := rfl
  have hinclude : skipLines (.newline :: includeLine ++ ts) = includeLine ++ ts := rfl
  simp only [unguard, hstart, hguard, Option.bind_eq_bind, Option.bind_some, expect_append, hdefine,
    hinclude, bodyOf]
  rfl

/-! ### The table -/

def entryOf (e : HeaderEntry) : I18n.C.Entry := ⟨utf8 e.locale, utf8 e.key, utf8 e.value⟩

theorem readEntries_row (fuel : Nat) (e : HeaderEntry) (ts : List C11.Token) :
    readEntries (fuel + 1) (rowTokens e ++ ts) =
      (readEntries fuel ts).map fun r => (entryOf e :: r.1, r.2) := by
  have hentry : readEntry (rowTokens e ++ ts) = some (entryOf e, punct ',' :: ts) := rfl
  rw [readEntries, if_neg (by simp [rowTokens, punct]; decide), hentry]
  rfl

/-- The rows come first, in their order. -/
theorem readEntries_rows (es : List HeaderEntry) (fuel : Nat) (ts : List C11.Token) :
    readEntries (es.length + fuel) (es.flatMap rowTokens ++ ts) =
      (readEntries fuel ts).map fun r => (es.map entryOf ++ r.1, r.2) := by
  induction es with
  | nil =>
    rw [List.length_nil, Nat.zero_add]
    exact Option.map_id'.symm
  | cons e es ih =>
    rw [List.flatMap_cons, List.append_assoc, List.length_cons, Nat.add_right_comm,
      readEntries_row, ih, Option.map_map]
    rfl

theorem rowTokens_length (es : List HeaderEntry) :
    (es.flatMap rowTokens).length = 8 * es.length := by
  induction es with
  | nil => rfl
  | cons e es ih =>
    rw [List.flatMap_cons, List.length_append, ih, List.length_cons]
    simp only [rowTokens, List.length_cons, List.length_nil]
    omega

/-- The rows of a table that is followed by other tokens. -/
theorem exists_fuel (es : List HeaderEntry) (ts : List C11.Token) :
    ∃ fuel, (es.flatMap rowTokens ++ ts).length = es.length + fuel ∧ ts.length ≤ fuel := by
  refine ⟨7 * es.length + ts.length, ?_, by omega⟩
  rw [List.length_append, rowTokens_length]
  omega

theorem readDeclarations_table (symbol : Str) (es : List HeaderEntry) (ts : List C11.Token) :
    ∃ fuel, ts.length ≤ fuel ∧
      readDeclarations symbol (tableStart symbol ++ (es.flatMap rowTokens ++ ts)) =
        (readEntries fuel ts).bind fun r => (expect (catalogStart symbol) r.2).bind fun rest =>
          if es.map entryOf ++ r.1 = [] then none
          else readCatalog symbol (es.map entryOf ++ r.1) rest := by
  obtain ⟨fuel, hlength, hfuel⟩ := exists_fuel es ts
  refine ⟨fuel, hfuel, ?_⟩
  simp only [readDeclarations, expect_append, Option.bind_eq_bind, Option.bind_some, hlength,
    readEntries_rows, Option.bind_map]
  rfl

theorem readDeclarations_closing (symbol : Str) {c : I18n.Catalog} (h : c.entries ≠ []) :
    readDeclarations symbol (tableStart symbol ++ (c.entries.flatMap rowTokens ++
      closingTokens c symbol)) = some (meaning c) := by
  obtain ⟨fuel, hfuel, hread⟩ := readDeclarations_table symbol c.entries (closingTokens c symbol)
  obtain ⟨fuel, rfl⟩ : ∃ n, fuel = n + 1 :=
    ⟨fuel - 1, by simp only [closingTokens, List.cons_append, List.length_cons] at hfuel; omega⟩
  have hend : readEntries (fuel + 1) (closingTokens c symbol) =
      some ([], catalogStart symbol ++
        (.string (utf8 c.id) :: punct ',' :: .string (utf8 c.defaultLocale) :: catalogEnd symbol)) :=
    rfl
  have hne : c.entries.map entryOf ++ [] ≠ [] := by simpa using h
  rw [hread, hend, Option.bind_some, expect_append, Option.bind_some, if_neg hne, List.append_nil]
  exact if_pos ⟨rfl, rfl⟩

end Msys.CHeader
