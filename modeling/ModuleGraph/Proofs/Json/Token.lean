import ModuleGraph.Json.Basic
import ModuleGraph.Json.Token
import Mathlib.Tactic.IntervalCases

/-!
What the lexer reads from spelled tokens. A text that spells tokens one after the other, with blanks
between them and no number running on into what follows, is read as exactly those tokens
(`tokens_of_written`).
-/
namespace ModuleGraph.Json

/-- The spelling of a token. -/
inductive Spelling : List Char → Token → Prop where
  | openBrace : Spelling ['{'] .openBrace
  | closeBrace : Spelling ['}'] .closeBrace
  | openBracket : Spelling ['['] .openBracket
  | closeBracket : Spelling [']'] .closeBracket
  | comma : Spelling [','] .comma
  | colon : Spelling [':'] .colon
  | null : Spelling ['n', 'u', 'l', 'l'] .null
  | holds : Spelling ['t', 'r', 'u', 'e'] (.bool true)
  | fails : Spelling ['f', 'a', 'l', 's', 'e'] (.bool false)
  | number (value : Nat) (fits : value < wordLimit) :
    Spelling (Nat.toDigits 10 value) (.number (.natural value fits))
  | string (text : String) : Spelling (quoted text) (.string (some text))

/-- A text behind a number that is no part of it. -/
def EndsNumber (rest : List Char) : Prop :=
  ∀ c ∈ rest.head?, c.isDigit = false ∧ c ≠ '.' ∧ c ≠ 'e' ∧ c ≠ 'E'

/-- A text that spells tokens. -/
inductive Written : List Char → List Token → Prop where
  | nil : Written [] []
  | blank {c : Char} {rest : List Char} {ts : List Token} (space : Lexer.isSpace c = true)
    (written : Written rest ts) : Written (c :: rest) ts
  | token {word rest : List Char} {t : Token} {ts : List Token} (spelled : Spelling word t)
    (apart : ∀ n, t = .number n → EndsNumber rest) (written : Written rest ts) :
    Written (word ++ rest) (t :: ts)

variable {l : Lexer} {acc : List Token} {cs rest word : List Char} {t : Token} {ts : List Token}

namespace Lexer

@[simp] theorem scan_nil (l : Lexer) : l.scan [] = l := rfl

@[simp] theorem scan_cons (l : Lexer) (c : Char) (cs : List Char) : l.scan (c :: cs) = (l.step c).scan cs := rfl

/-! ## Numbers -/

theorem digit?_digitChar {d : Nat} (small : d < 10) : digit? d.digitChar = some d := by
  interval_cases d <;> decide

theorem stepBetween_digit {d : Nat} (small : d < 10) :
    (⟨.between, acc⟩ : Lexer).stepBetween d.digitChar =
      ⟨.number ⟨false, [d], [], none, false⟩ (if d = 0 then .zero else .whole), acc⟩ := by
  interval_cases d <;> rfl

/-- The digits of a number are read into a number that may end there. -/
private theorem scan_toDigits (acc : List Token) (value : Nat) : ∃ digits part,
    (⟨.between, acc⟩ : Lexer).scan (Nat.toDigits 10 value) = ⟨.number ⟨false, digits, [], none, false⟩ part, acc⟩ ∧
      digits.foldl (fun value digit => value * 10 + digit) 0 = value ∧
      (part = .whole ∨ value = 0 ∧ part = .zero) := by
  induction value using Nat.strongRecOn with
  | ind value ih =>
    rw [Nat.toDigits_eq_if (by decide)]
    by_cases small : value < 10
    · rw [if_pos small]
      refine ⟨[value], if value = 0 then .zero else .whole, ?_, by simp, ?_⟩
      · exact stepBetween_digit small
      · by_cases zero : value = 0 <;> simp [zero]
    · rw [if_neg small, scan_append]
      obtain ⟨digits, part, scanned, counted, may⟩ := ih (value / 10) (by omega)
      rcases may with rfl | ⟨zero, -⟩
      · refine ⟨digits ++ [value % 10], .whole, ?_, ?_, .inl rfl⟩
        · rw [scanned]
          simp [step, NumberText.next?, digit?_digitChar (Nat.mod_lt value (by decide)), goTo]
        · rw [List.foldl_append, counted]
          simp only [List.foldl_cons, List.foldl_nil]
          omega
      · omega

private theorem le_foldl (digits : List Nat) (value : Nat) :
    value ≤ digits.foldl (fun value digit => value * 10 + digit) value := by
  induction digits generalizing value with
  | nil => exact Nat.le_refl _
  | cons digit rest ih => exact Nat.le_trans (by omega) (ih (value * 10 + digit))

private theorem leading_of_fits {digits : List Nat} {value : Nat}
    (fits : digits.foldl (fun value digit => value * 10 + digit) value < wordLimit) :
    leading value digits = (digits.foldl (fun value digit => value * 10 + digit) value, 0) := by
  induction digits generalizing value with
  | nil => rfl
  | cons digit rest ih =>
    have bound := le_foldl rest (value * 10 + digit)
    rw [List.foldl_cons] at fits ⊢
    rw [leading, if_pos (Nat.lt_of_le_of_lt bound fits), ih fits]

private theorem kind_of_fits {digits : List Nat} {value : Nat} (fits : value < wordLimit)
    (counted : digits.foldl (fun value digit => value * 10 + digit) 0 = value) :
    NumberText.kind ⟨false, digits, [], none, false⟩ = .natural value fits := by
  subst counted
  simp [NumberText.kind, leading_of_fits fits]

private theorem next?_of_ends {n : NumberText} {part : NumberPart} {c : Char}
    (ends : c.isDigit = false ∧ c ≠ '.' ∧ c ≠ 'e' ∧ c ≠ 'E') (ready : part.mayEnd = true) :
    n.next? part c = none := by
  obtain ⟨noDigit, noPoint, noLetter, noLetter'⟩ := ends
  have off : digit? c = none := by simp [digit?, noDigit]
  cases part <;> simp_all [NumberText.next?, NumberPart.mayEnd]

/-- A number that may end is over where nothing of it follows. -/
theorem finish_scan_number {n : NumberText} {part : NumberPart} (ready : part.mayEnd = true)
    (ends : EndsNumber rest) : ((⟨.number n part, acc⟩ : Lexer).scan rest).finish =
      ((⟨.between, .number n.kind :: acc⟩ : Lexer).scan rest).finish := by
  cases rest with
  | nil => simp [finish, ready, emit]
  | cons c rest =>
    have ends := ends c rfl
    have known : ¬(part = .zero ∧ c.isDigit = true) := by simp [ends.1]
    have left : (⟨.number n part, acc⟩ : Lexer).step c = (⟨.between, .number n.kind :: acc⟩ : Lexer).step c := by
      simp only [step, if_neg known, next?_of_ends ends ready, ready, if_true, emit]
    rw [scan_cons, scan_cons, left]

theorem scan_number {value : Nat} (fits : value < wordLimit) (ends : EndsNumber rest) :
    ((⟨.between, acc⟩ : Lexer).scan (Nat.toDigits 10 value ++ rest)).finish =
      ((⟨.between, .number (.natural value fits) :: acc⟩ : Lexer).scan rest).finish := by
  obtain ⟨digits, part, scanned, counted, may⟩ := scan_toDigits acc value
  have ready : part.mayEnd = true := by rcases may with rfl | ⟨-, rfl⟩ <;> rfl
  rw [scan_append, scanned, finish_scan_number ready ends, kind_of_fits fits counted]

/-! ## Strings -/

private theorem hexValue?_hexDigit {d : Nat} (small : d < 16) : hexValue? (hexDigit d) = some d := by
  interval_cases d <;> decide

private theorem utf8Size_hexDigit {d : Nat} (small : d < 16) : (hexDigit d).utf8Size = 1 := by
  interval_cases d <;> decide

/-- Inside a string a written character is read as itself. -/
private theorem scan_escaped (c : Char) (read : List Char) :
    (⟨.string ⟨some read, none⟩, acc⟩ : Lexer).scan (escaped c) =
      ⟨.string ⟨some (c :: read), none⟩, acc⟩ := by
  unfold escaped
  by_cases quote : c = '"'
  · subst quote; rfl
  by_cases backslash : c = '\\'
  · subst backslash; rfl
  by_cases backspace : c = '\x08'
  · subst backspace; rfl
  by_cases formFeed : c = '\x0c'
  · subst formFeed; rfl
  by_cases newline : c = '\n'
  · subst newline; rfl
  by_cases carriage : c = '\r'
  · subst carriage; rfl
  by_cases tab : c = '\t'
  · subst tab; rfl
  simp only [quote, backslash, backspace, formFeed, newline, carriage, tab, if_false]
  by_cases control : c.toNat < 0x20
  · have high : c.toNat / 16 < 16 := by omega
    have low : c.toNat % 16 < 16 := by omega
    have value : c.toNat / 16 * 16 + c.toNat % 16 = c.toNat := by omega
    have zero : hexValue? '0' = some 0 := rfl
    have size : ('0' : Char).utf8Size = 1 := rfl
    have below : ¬55296 ≤ c.toNat := by omega
    have below' : ¬56320 ≤ c.toNat := by omega
    simp [control, step, goTo, zero, size, hexValue?_hexDigit high, hexValue?_hexDigit low,
      utf8Size_hexDigit high, utf8Size_hexDigit low, value, StringText.pushUnit, below, below',
      StringText.push, StringText.settle]
  · simp [control, step, goTo, quote, backslash, StringText.push, StringText.settle]

private theorem scan_flatMap_escaped (text read : List Char) :
    (⟨.string ⟨some read, none⟩, acc⟩ : Lexer).scan (text.flatMap escaped) =
      ⟨.string ⟨some (text.reverse ++ read), none⟩, acc⟩ := by
  induction text generalizing read with
  | nil => rfl
  | cons c rest ih =>
    rw [List.flatMap_cons, scan_append, scan_escaped, ih]
    simp

private theorem scan_quoted (text : String) :
    (⟨.between, acc⟩ : Lexer).scan (quoted text) = ⟨.between, .string (some text) :: acc⟩ := by
  have opened : (⟨.between, acc⟩ : Lexer).step '"' = ⟨.string ⟨some [], none⟩, acc⟩ := rfl
  rw [quoted, List.cons_append, scan_cons, opened, scan_append, scan_flatMap_escaped]
  simp [step, emit, StringText.text?, StringText.settle]

/-! ## All tokens -/

/-- After a token the lexer goes on as if the token had been there all along. -/
theorem scan_spelling (spelled : Spelling word t) (apart : ∀ n, t = .number n → EndsNumber rest) :
    ((⟨.between, acc⟩ : Lexer).scan (word ++ rest)).finish =
      ((⟨.between, t :: acc⟩ : Lexer).scan rest).finish := by
  cases spelled with
  | number value fits => exact scan_number fits (apart _ rfl)
  | string text => rw [scan_append, scan_quoted]
  | _ => rfl

theorem finish_scan (written : Written cs ts) (acc : List Token) :
    ((⟨.between, acc⟩ : Lexer).scan cs).finish = ⟨.between, ts.reverse ++ acc⟩ := by
  induction written generalizing acc with
  | nil => rfl
  | @blank c rest ts space written ih =>
    rw [scan_cons, ← ih acc]
    simp [step, stepBetween, space, goTo]
  | token spelled apart written ih =>
    rw [scan_spelling spelled apart, ih]
    simp

end Lexer

/-- A text is read as the tokens that it spells. -/
theorem tokens_of_written (written : Written cs ts) : tokens cs = ts := by
  rw [tokens, Lexer.start, Lexer.finish_scan written]
  simp

end ModuleGraph.Json
