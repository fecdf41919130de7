import ModuleGraph.Proofs.Json.Draft
import ModuleGraph.Proofs.Json.Script

/-!
How scripts are read. The lexer takes the letters of a string unit by unit (`Lexer.scan_letter`) and a number part by
part, so whichever choices a script makes, its text is read as the tokens of one value (`Script.ofText_text`).
-/
namespace ModuleGraph.Json
variable {acc : List Token} {cs rest : List Char} {ts : List Token} {t : Token}

/-! ## Strings -/

namespace StringText

theorem pushUnit_single (s : StringText) {unit : Nat} (single : unit < 0xD800 ∨ 0xDFFF < unit) :
    s.pushUnit unit = s.push (Char.ofNat unit) := by
  have high : ¬(0xD800 ≤ unit ∧ unit ≤ 0xDBFF) := by omega
  have low : ¬(0xDC00 ≤ unit ∧ unit ≤ 0xDFFF) := by omega
  rw [pushUnit, if_neg high, if_neg low]

theorem pushUnit_pair (s : StringText) {first second : Nat} (high : first < 0x400) (low : second < 0x400) :
    (s.pushUnit (0xD800 + first)).pushUnit (0xDC00 + second) =
      s.push (Char.ofNat (first * 0x400 + second + 0x10000)) := by
  have isHigh : 0xD800 ≤ 0xD800 + first ∧ 0xD800 + first ≤ 0xDBFF := by omega
  have notHigh : ¬(0xD800 ≤ 0xDC00 + second ∧ 0xDC00 + second ≤ 0xDBFF) := by omega
  have isLow : 0xDC00 ≤ 0xDC00 + second ∧ 0xDC00 + second ≤ 0xDFFF := by omega
  have opened : s.pushUnit (0xD800 + first) = ⟨s.settle.reversed, some (0xD800 + first)⟩ := if_pos isHigh
  rw [opened, pushUnit, if_neg notHigh, if_pos isLow]
  simp only [Nat.add_sub_cancel_left, push]

/-- A character counts as its code units. -/
theorem push_eq (s : StringText) (c : Char) : s.push c = (utf16 c).foldl pushUnit s := by
  have valid := c.valid
  simp only [UInt32.isValidChar, Nat.isValidChar] at valid
  have valid : c.toNat < 0xD800 ∨ 0xDFFF < c.toNat ∧ c.toNat < 0x110000 := valid
  unfold utf16
  split
  · have single : c.toNat < 0xD800 ∨ 0xDFFF < c.toNat := valid.imp_right And.left
    rw [List.foldl_cons, List.foldl_nil, pushUnit_single s single, Char.ofNat_toNat]
  · obtain ⟨rest, whole⟩ : ∃ rest, c.toNat = 0x10000 + rest := Nat.exists_eq_add_of_le (by omega)
    have joined : rest / 0x400 * 0x400 + rest % 0x400 + 0x10000 = c.toNat := by omega
    rw [whole, Nat.add_sub_cancel_left, List.foldl_cons, List.foldl_cons, List.foldl_nil,
      pushUnit_pair s (by omega) (Nat.mod_lt _ (by decide)), joined, Char.ofNat_toNat]

theorem foldl_push (text read : List Char) :
    (text.flatMap utf16).foldl pushUnit ⟨some read, none⟩ = ⟨some (text.reverse ++ read), none⟩ := by
  induction text generalizing read with
  | nil => rfl
  | cons c rest ih =>
    have pushed : (utf16 c).foldl pushUnit ⟨some read, none⟩ = ⟨some (c :: read), none⟩ := (push_eq _ c).symm
    rw [List.flatMap_cons, List.foldl_append, pushed, ih]
    simp

end StringText

/-- The text of letters, or none if half a surrogate pair stands among them. -/
def spelt? (letters : List Letter) : Option String :=
  ((letters.flatMap Letter.units).foldl StringText.pushUnit .start).text?

theorem spelt?_of_spells {letters : List Letter} {text : String} (spells : Spells letters text) :
    spelt? letters = some text := by
  rw [spelt?, spells, StringText.start, StringText.foldl_push]
  simp [StringText.text?, StringText.settle]

namespace Lexer

private theorem hexValue?_char (d : HexDigit) : hexValue? d.char = some d.value.val := by
  have all : ∀ capital value, hexValue? (HexDigit.char ⟨value, capital⟩) = some value.val := by decide
  exact all d.capital d.value

private theorem utf8Size_char (d : HexDigit) : d.char.utf8Size = 1 := by
  have all : ∀ capital value, (HexDigit.char ⟨value, capital⟩).utf8Size = 1 := by decide
  exact all d.capital d.value

/-- A letter is read as its code units. -/
theorem scan_letter (letter : Letter) (s : StringText) : (⟨.string s, acc⟩ : Lexer).scan letter.text =
    ⟨.string (letter.units.foldl StringText.pushUnit s), acc⟩ := by
  cases letter with
  | plain c clean =>
    rw [Letter.units, ← StringText.push_eq]
    have low : ¬c.toNat < 0x20 := Nat.not_lt.mpr clean.1
    simp only [Letter.text, scan_cons, scan_nil, step, if_neg clean.2.1, if_neg clean.2.2, if_neg low, goTo]
  | short short =>
    rw [Letter.units, ← StringText.push_eq]
    cases short <;> rfl
  | unit a b c d =>
    simp [Letter.text, Letter.units, step, goTo, hexValue?_char, utf8Size_char]

theorem scan_letters (letters : List Letter) (s : StringText) :
    (⟨.string s, acc⟩ : Lexer).scan (letters.flatMap Letter.text) =
      ⟨.string ((letters.flatMap Letter.units).foldl StringText.pushUnit s), acc⟩ := by
  induction letters generalizing s with
  | nil => rfl
  | cons letter rest ih => rw [List.flatMap_cons, List.flatMap_cons, scan_append, scan_letter, ih, List.foldl_append]

theorem scan_quotedLetters (letters : List Letter) : (⟨.between, acc⟩ : Lexer).scan (quotedLetters letters) =
    ⟨.between, .string (spelt? letters) :: acc⟩ := by
  have opened : (⟨.between, acc⟩ : Lexer).step '"' = ⟨.string .start, acc⟩ := rfl
  rw [quotedLetters, List.cons_append, scan_cons, opened, scan_append, scan_letters]
  rfl

end Lexer

/-! ## Numbers -/

/-- The sign of an exponent, if it is negative, and its value. -/
def Exponent.read (e : Exponent) : Bool × Nat :=
  (e.negative?.getD false, e.digits.values.foldl (fun value digit => value * 10 + digit) 0)

/-- What is read of a number. -/
def Numeral.read (n : Numeral) : NumberText where
  negative := n.negative
  whole := n.whole.values
  fraction := n.fraction.elim [] Digits.values
  exponent := n.exponent.map Exponent.read
  hasFraction := n.fraction.isSome

namespace Lexer
variable {n n' : NumberText} {part part' : NumberPart}

private theorem step_number {c : Char} (next : n.next? part c = some (n', part'))
    (fine : part ≠ .zero ∨ c.isDigit = false) : (⟨.number n part, acc⟩ : Lexer).step c = ⟨.number n' part', acc⟩ := by
  have known : ¬(part = .zero ∧ c.isDigit = true) := by
    rintro ⟨zero, digit⟩
    rcases fine with other | other
    · exact other zero
    · simp [digit] at other
  simp only [step, if_neg known, next, goTo]

/-- Digits are added one by one to a part that stays the same. -/
private theorem scan_digits (add : NumberText → Nat → NumberText) (inside : part ≠ .zero)
    (next : ∀ (n : NumberText) (d : Fin 10), n.next? part (Nat.digitChar d) = some (add n d, part))
    (digits : List (Fin 10)) (n : NumberText) :
    (⟨.number n part, acc⟩ : Lexer).scan ((digits.map Fin.val).map Nat.digitChar) =
      ⟨.number ((digits.map Fin.val).foldl add n) part, acc⟩ := by
  induction digits generalizing n with
  | nil => rfl
  | cons d rest ih =>
    rw [List.map_cons, List.map_cons, scan_cons, step_number (next n d) (.inl inside), ih]
    rfl

private theorem foldl_whole (digits : List Nat) (n : NumberText) :
    digits.foldl (fun n d => { n with whole := n.whole ++ [d] }) n = { n with whole := n.whole ++ digits } := by
  induction digits generalizing n with
  | nil => simp
  | cons d rest ih => simp [ih]

private theorem foldl_fraction (digits : List Nat) (n : NumberText) :
    digits.foldl (fun n d => { n with fraction := n.fraction ++ [d] }) n =
      { n with fraction := n.fraction ++ digits } := by
  induction digits generalizing n with
  | nil => simp
  | cons d rest ih => simp [ih]

/-- One more digit of an exponent. -/
private def addExponent (n : NumberText) (d : Nat) : NumberText :=
  { n with exponent := some ((n.exponent.getD (false, 0)).1, (n.exponent.getD (false, 0)).2 * 10 + d) }

private theorem foldl_exponent (digits : List Nat) (n : NumberText) (negative : Bool) (value : Nat) :
    digits.foldl addExponent { n with exponent := some (negative, value) } =
      { n with exponent := some (negative, digits.foldl (fun value digit => value * 10 + digit) value) } := by
  induction digits generalizing value with
  | nil => rfl
  | cons d rest ih => exact ih (value * 10 + d)

private theorem digit?_char (d : Fin 10) : digit? (Nat.digitChar d) = some d.val := digit?_digitChar d.isLt

/-- Where the digits in front of the point end. -/
private def wholeEnd (first : Fin 10) : NumberPart := if first = 0 then .zero else .whole

private theorem scan_whole (n : Numeral) :
    (⟨.between, acc⟩ : Lexer).scan ((if n.negative then ['-'] else []) ++ n.whole.text) =
      ⟨.number ⟨n.negative, n.whole.values, [], none, false⟩ (wholeEnd n.whole.first), acc⟩ := by
  obtain ⟨negative, ⟨first, more⟩, leading, fraction, exponent⟩ := n
  have started : (⟨.between, acc⟩ : Lexer).scan ((if negative then ['-'] else []) ++ [Nat.digitChar first]) =
      ⟨.number ⟨negative, [first.val], [], none, false⟩ (wholeEnd first), acc⟩ := by
    have part : (if first.val = 0 then NumberPart.zero else .whole) = wholeEnd first := by
      simp only [wholeEnd, Fin.ext_iff, Fin.val_zero]
    cases negative with
    | true =>
      have signed : (⟨.between, acc⟩ : Lexer).step '-' = ⟨.number (noNumber true) .sign, acc⟩ := rfl
      rw [if_pos rfl, List.cons_append, List.nil_append, scan_cons, signed, scan_cons, scan_nil, ← part]
      exact step_number (by simp [NumberText.next?, digit?_char, noNumber]) (.inl (by decide))
    | false => exact (stepBetween_digit first.isLt).trans (by rw [part])
  have text : Digits.text ⟨first, more⟩ = [Nat.digitChar first] ++ (more.map Fin.val).map Nat.digitChar := rfl
  rw [text, ← List.append_assoc, scan_append, started]
  by_cases zero : first = 0
  · have alone : more = [] := leading zero
    subst alone
    rfl
  · rw [wholeEnd, if_neg zero, scan_digits (fun n d => { n with whole := n.whole ++ [d] }) (by decide)
      (fun n d => by simp [NumberText.next?, digit?_char]), foldl_whole]
    rfl

private theorem scan_fraction (may : part = .zero ∨ part = .whole) (n : NumberText) (digits : Digits) :
    (⟨.number n part, acc⟩ : Lexer).scan ('.' :: digits.text) =
      ⟨.number { n with fraction := digits.values, hasFraction := true } .fraction, acc⟩ := by
  obtain ⟨first, more⟩ := digits
  have noDigit : digit? '.' = none := rfl
  have point : n.next? part '.' = some ({ n with hasFraction := true }, .point) := by
    rcases may with rfl | rfl <;> simp [NumberText.next?, noDigit]
  have text : Digits.text ⟨first, more⟩ = Nat.digitChar first :: (more.map Fin.val).map Nat.digitChar := rfl
  have started : NumberText.next? { n with hasFraction := true } .point (Nat.digitChar first) =
      some ({ n with fraction := [first.val], hasFraction := true }, .fraction) := by
    simp [NumberText.next?, digit?_char]
  rw [scan_cons, step_number point (.inr rfl), text, scan_cons, step_number started (.inl (by decide)),
    scan_digits (fun n d => { n with fraction := n.fraction ++ [d] }) (by decide)
      (fun n d => by simp [NumberText.next?, digit?_char]), foldl_fraction]
  rfl

private theorem scan_exponent (may : part = .zero ∨ part = .whole ∨ part = .fraction) (n : NumberText)
    (e : Exponent) : (⟨.number n part, acc⟩ : Lexer).scan e.text =
      ⟨.number { n with exponent := some e.read } .exponent, acc⟩ := by
  obtain ⟨capital, negative?, first, more⟩ := e
  have opened : (⟨.number n part, acc⟩ : Lexer).step (if capital then 'E' else 'e') =
      ⟨.number { n with exponent := some (false, 0) } .letter, acc⟩ := by
    have noDigit : digit? 'e' = none ∧ digit? 'E' = none := ⟨rfl, rfl⟩
    refine step_number ?_ (.inr (by cases capital <;> rfl))
    rcases may with rfl | rfl | rfl <;> cases capital <;> simp [NumberText.next?, noDigit]
  -- The digits come behind the letter or behind a sign.
  have digits (negative : Bool) {part : NumberPart} (ready : part = .letter ∨ part = .exponentSign) :
      (⟨.number { n with exponent := some (negative, 0) } part, acc⟩ : Lexer).scan (Digits.text ⟨first, more⟩) =
        ⟨.number { n with exponent := some (negative,
          (Digits.values ⟨first, more⟩).foldl (fun value digit => value * 10 + digit) 0) } .exponent, acc⟩ := by
    have text : Digits.text ⟨first, more⟩ = Nat.digitChar first :: (more.map Fin.val).map Nat.digitChar := rfl
    have started : NumberText.next? { n with exponent := some (negative, 0) } part (Nat.digitChar first) =
        some ({ n with exponent := some (negative, 0 * 10 + first.val) }, .exponent) := by
      rcases ready with rfl | rfl <;> simp [NumberText.next?, digit?_char]
    have other : part ≠ .zero := by rcases ready with rfl | rfl <;> decide
    rw [text, scan_cons, step_number started (.inl other), scan_digits addExponent (by decide)
      (fun n d => by simp [NumberText.next?, digit?_char, addExponent]), foldl_exponent]
    rfl
  rw [Exponent.text, scan_cons, opened]
  rcases negative? with _ | _ | _
  · exact digits false (.inl rfl)
  · have signed : (⟨.number { n with exponent := some (false, 0) } .letter, acc⟩ : Lexer).step '+' =
        ⟨.number { n with exponent := some (false, 0) } .exponentSign, acc⟩ := rfl
    rw [scan_cons, signed]
    exact digits false (.inr rfl)
  · have signed : (⟨.number { n with exponent := some (false, 0) } .letter, acc⟩ : Lexer).step '-' =
        ⟨.number { n with exponent := some (true, 0) } .exponentSign, acc⟩ := rfl
    rw [scan_cons, signed]
    exact digits true (.inr rfl)

/-- A number is read part by part, and then it may end. -/
theorem exists_scan_numeral (n : Numeral) (acc : List Token) : ∃ part, part.mayEnd = true ∧
    (⟨.between, acc⟩ : Lexer).scan n.text = ⟨.number n.read part, acc⟩ := by
  have whole : wholeEnd n.whole.first = .zero ∨ wholeEnd n.whole.first = .whole := by
    unfold wholeEnd
    split <;> simp
  have ready : (wholeEnd n.whole.first).mayEnd = true := by rcases whole with same | same <;> rw [same] <;> rfl
  have started : (⟨.between, acc⟩ : Lexer).scan ((if n.negative then ['-'] else []) ++ n.whole.text) = _ := scan_whole n
  obtain ⟨negative, digits, leading, fraction, exponent⟩ := n
  rw [Numeral.text, scan_append, scan_append, started]
  cases fraction with
  | none =>
    cases exponent with
    | none => exact ⟨_, ready, rfl⟩
    | some e => exact ⟨.exponent, rfl, scan_exponent (whole.imp_right .inl) _ e⟩
  | some fraction =>
    simp only [scan_fraction whole]
    cases exponent with
    | none => exact ⟨.fraction, rfl, rfl⟩
    | some e => exact ⟨.exponent, rfl, scan_exponent (.inr (.inr rfl)) _ e⟩

theorem scan_numeral (n : Numeral) (ends : EndsNumber rest) :
    ((⟨.between, acc⟩ : Lexer).scan (n.text ++ rest)).finish =
      ((⟨.between, .number n.read.kind :: acc⟩ : Lexer).scan rest).finish := by
  obtain ⟨part, ready, scanned⟩ := exists_scan_numeral n acc
  rw [scan_append, scanned, finish_scan_number ready ends]

end Lexer

/-- A number in decimal digits is read as that number. -/
theorem Numeral.kind_read {n : Numeral} {value : Nat} (fits : value < wordLimit)
    (decimal : n.text = Nat.toDigits 10 value) : n.read.kind = .natural value fits := by
  have ends : EndsNumber [] := fun c first => by cases first
  have read : ((⟨.between, []⟩ : Lexer).scan (n.text ++ [])).finish = _ := Lexer.scan_numeral n ends
  rw [decimal, Lexer.scan_number fits ends] at read
  simpa [Lexer.finish] using read.symm

/-! ## Values -/

/-- A text is read as tokens, whatever was read before. -/
def ReadAs (cs : List Char) (ts : List Token) : Prop :=
  ∀ acc, ((⟨.between, acc⟩ : Lexer).scan cs).finish = ⟨.between, ts.reverse ++ acc⟩

namespace ReadAs

theorem nil : ReadAs [] [] := fun _ => rfl

theorem blanks (gap : List Blank) (later : ReadAs rest ts) : ReadAs (blanks gap ++ rest) ts := by
  induction gap with
  | nil => exact later
  | cons blank gap ih =>
    intro acc
    have skipped : (⟨.between, acc⟩ : Lexer).step blank.char = ⟨.between, acc⟩ := by cases blank <;> rfl
    rw [blanks_cons, List.cons_append, Lexer.scan_cons, skipped]
    exact ih acc

/-- A token that the lexer takes as it stands. -/
private theorem step {word : List Char} (later : ReadAs rest ts)
    (taken : ∀ acc, ((⟨.between, acc⟩ : Lexer).scan (word ++ rest)).finish =
      ((⟨.between, t :: acc⟩ : Lexer).scan rest).finish) : ReadAs (word ++ rest) (t :: ts) := by
  intro acc
  rw [taken, later]
  simp

/-- A token that is no number may stand before anything. -/
theorem mark {word : List Char} (spelled : Spelling word t) (mark : ∀ n, t ≠ .number n) (later : ReadAs rest ts) :
    ReadAs (word ++ rest) (t :: ts) :=
  later.step fun _ => Lexer.scan_spelling spelled fun n same => absurd same (mark n)

theorem letters (letters : List Letter) (later : ReadAs rest ts) :
    ReadAs (quotedLetters letters ++ rest) (.string (spelt? letters) :: ts) :=
  later.step fun _ => by rw [Lexer.scan_append, Lexer.scan_quotedLetters]

theorem numeral (n : Numeral) (ends : EndsNumber rest) (later : ReadAs rest ts) :
    ReadAs (n.text ++ rest) (.number n.read.kind :: ts) :=
  later.step fun _ => Lexer.scan_numeral n ends

end ReadAs

namespace Script

mutual

/-- The value of a script, its names and strings decoded. -/
def draft : Script → Draft
  | .null => .null
  | .bool value => .bool value
  | .number n => .number n.read.kind
  | .string letters => .string (spelt? letters)
  | .array _ items => .array (draftItems items) .closed
  | .object _ fields => .object (draftFields fields) .closed

def draftItems : List (Padded Script) → List Draft
  | [] => []
  | ⟨_, item, _⟩ :: items => item.draft :: draftItems items

def draftFields : List (Field Script) → List (FieldName × Draft)
  | [] => []
  | ⟨name, ⟨_, value, _⟩⟩ :: fields => (.text (spelt? name.value), value.draft) :: draftFields fields

end

theorem draftItems_eq (items : List (Padded Script)) : draftItems items = items.map (·.value.draft) := by
  induction items with
  | nil => rfl
  | cons item rest ih => rw [draftItems, ih, List.map_cons]

/-- The name and the value of a field. -/
def draftField (field : Field Script) : FieldName × Draft := (.text (spelt? field.name.value), field.value.value.draft)

theorem draftFields_eq (fields : List (Field Script)) : draftFields fields = fields.map draftField := by
  induction fields with
  | nil => rfl
  | cons field rest ih => rw [draftFields, ih, List.map_cons, draftField]

mutual

/-- Nothing in a script keeps a reader from skipping it. -/
theorem skipFault?_draft (s : Script) : s.draft.skipFault? = none := by
  match s with
  | .null | .bool _ | .number _ | .string _ => simp [draft, Draft.skipFault?]
  | .array _ items => simp [draft, Draft.skipFault?, skipItems_draft items, Draft.endFault?]
  | .object _ fields => simp [draft, Draft.skipFault?, skipFields_draft fields, Draft.endFault?]

theorem skipItems_draft (items : List (Padded Script)) : Draft.skipItems (draftItems items) = none := by
  match items with
  | [] => rfl
  | ⟨_, item, _⟩ :: items => simp [draftItems, Draft.skipItems, skipFault?_draft item, skipItems_draft items]

theorem skipFields_draft (fields : List (Field Script)) : Draft.skipFields (draftFields fields) = none := by
  match fields with
  | [] => rfl
  | ⟨name, ⟨_, value, _⟩⟩ :: fields =>
    simp [draftFields, Draft.skipFields, skipFault?_draft value, skipFields_draft fields]

end

private theorem ends_mark {c : Char} (other : c.isDigit = false ∧ c ≠ '.' ∧ c ≠ 'e' ∧ c ≠ 'E') :
    EndsNumber (c :: rest) := by
  intro d first
  rw [List.head?_cons, Option.mem_def, Option.some.injEq] at first
  exact first ▸ other

private theorem ends_blanks (gap : List Blank) (ends : EndsNumber rest) : EndsNumber (blanks gap ++ rest) := by
  cases gap with
  | nil => exact ends
  | cons blank gap => exact ends_mark (by cases blank <;> decide)

private theorem ends_items (items : List (Padded Script)) (ends : EndsNumber rest) :
    EndsNumber (itemsText items ++ rest) := by
  cases items with
  | nil => exact ends
  | cons item items => exact ends_mark (by decide)

private theorem ends_fields (fields : List (Field Script)) (ends : EndsNumber rest) :
    EndsNumber (fieldsText fields ++ rest) := by
  cases fields with
  | nil => exact ends
  | cons field fields => exact ends_mark (by decide)

/-- The name of a field and the colon. -/
private theorem readAs_name (name : Padded (List Letter)) (later : ReadAs rest ts) :
    ReadAs (blanks name.before ++ (quotedLetters name.value ++ (blanks name.after ++ ':' :: rest)))
      (.string (spelt? name.value) :: .colon :: ts) :=
  .blanks _ (.letters _ (.blanks _ (.mark .colon (by simp) later)))

mutual

/-- The text of a script is read as the tokens of its value. -/
theorem readAs_text {rest : List Char} {ts : List Token} (s : Script) (ends : EndsNumber rest)
    (later : ReadAs rest ts) : ReadAs (s.text ++ rest) (s.draft.tokens ++ ts) := by
  match s with
  | .null => exact .mark .null (by simp) later
  | .bool true => exact .mark .holds (by simp) later
  | .bool false => exact .mark .fails (by simp) later
  | .number n => exact .numeral n ends later
  | .string letters => exact .letters letters later
  | .array inner [] =>
    have closing : ReadAs (']' :: rest) (.closeBracket :: ts) := .mark .closeBracket (by simp) later
    have whole := ReadAs.mark .openBracket (by simp) (closing.blanks inner)
    simpa [text, draft, draftItems, Draft.tokens] using whole
  | .array inner (⟨before, item, after⟩ :: items) =>
    have closing : ReadAs (']' :: rest) (.closeBracket :: ts) := .mark .closeBracket (by simp) later
    have ends : EndsNumber (']' :: rest) := ends_mark (by decide)
    have more := readAs_items items ends closing
    have first := readAs_text item (ends_blanks after (ends_items items ends)) (more.blanks after)
    have whole := ReadAs.mark .openBracket (by simp) ((first.blanks before).blanks inner)
    simpa [text, draft, draftItems, Draft.tokens] using whole
  | .object inner [] =>
    have closing : ReadAs ('}' :: rest) (.closeBrace :: ts) := .mark .closeBrace (by simp) later
    have whole := ReadAs.mark .openBrace (by simp) (closing.blanks inner)
    simpa [text, draft, draftFields, Draft.tokens] using whole
  | .object inner (⟨name, ⟨before, value, after⟩⟩ :: fields) =>
    have closing : ReadAs ('}' :: rest) (.closeBrace :: ts) := .mark .closeBrace (by simp) later
    have ends : EndsNumber ('}' :: rest) := ends_mark (by decide)
    have more := readAs_fields fields ends closing
    have first := readAs_text value (ends_blanks after (ends_fields fields ends)) (more.blanks after)
    have whole := ReadAs.mark .openBrace (by simp) ((readAs_name name (first.blanks before)).blanks inner)
    simpa [text, draft, draftFields, Draft.tokens, Draft.nameToken] using whole

theorem readAs_items {rest : List Char} {ts : List Token} (items : List (Padded Script)) (ends : EndsNumber rest)
    (later : ReadAs rest ts) : ReadAs (itemsText items ++ rest) (Draft.itemTokens (draftItems items) ++ ts) := by
  match items with
  | [] => exact later
  | ⟨before, item, after⟩ :: items =>
    have more := readAs_items items ends later
    have first := readAs_text item (ends_blanks after (ends_items items ends)) (more.blanks after)
    have whole := ReadAs.mark .comma (by simp) (first.blanks before)
    simpa [itemsText, draftItems, Draft.itemTokens] using whole

theorem readAs_fields {rest : List Char} {ts : List Token} (fields : List (Field Script)) (ends : EndsNumber rest)
    (later : ReadAs rest ts) : ReadAs (fieldsText fields ++ rest) (Draft.fieldTokens (draftFields fields) ++ ts) := by
  match fields with
  | [] => exact later
  | ⟨name, ⟨before, value, after⟩⟩ :: fields =>
    have more := readAs_fields fields ends later
    have first := readAs_text value (ends_blanks after (ends_fields fields ends)) (more.blanks after)
    have whole := ReadAs.mark .comma (by simp) (readAs_name name (first.blanks before))
    simpa [fieldsText, draftFields, Draft.fieldTokens, Draft.nameToken] using whole

end

/-- The text of a script is read as its value, and nothing is left behind it. -/
theorem ofText_text (s : Script) (before after : List Blank) :
    Draft.ofText (blanks before ++ s.text ++ blanks after) = (s.draft, []) := by
  have none : ReadAs (blanks after) [] := by simpa using ReadAs.nil.blanks after
  have nothing : EndsNumber [] := fun c first => by cases first
  have ends : EndsNumber (blanks after) := by simpa using ends_blanks after nothing
  have read := (readAs_text s ends none).blanks before
  refine Draft.ofText_of_tokens (skipFault?_draft s) ?_
  rw [tokens, Lexer.start, List.append_assoc, read]
  simp

end Script
end ModuleGraph.Json
