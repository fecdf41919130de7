import Mathlib.Computability.Language
import Mathlib.Data.List.TakeWhile
import ModuleGraph.LineMetrics
import ModuleGraph.Proofs.Text.Lines
import ModuleGraph.Proofs.Text.Split

/-!
The counts of a source text. The lines of each kind are a language, put together from single characters
by concatenation, choice and repetition. A line is read from the left and never backwards, so a repetition
takes all it can, which is no loss where what follows could not begin with what it takes (`Skips`). Thus a
line is of the kind whose language it is in (`kind_eq`), the counts are the numbers of the lines of each
language (`ofSource_eq`), and they add up where a text is cut behind a line (`ofSource_append`).
-/
namespace ModuleGraph.LineMetrics
open Text
open scoped Computability
variable {p q : Char → Bool} {c : Char} {keyword openers cs rest line : List Char} {K : Language Char}

/-! ## The languages of lines -/

/-- The words of one character that satisfies a condition. -/
def oneOf (p : Char → Bool) : Language Char := {cs | ∃ c, p c = true ∧ cs = [c]}

/-- Any number of blanks. -/
def blanks : Language Char := (oneOf isBlank)∗

/-- Blanks, at least one. -/
def gap : Language Char := oneOf isBlank * blanks

/-- Names: an ASCII letter or an underscore, and word characters. -/
def name : Language Char := oneOf (fun c => c.isAlpha || c == '_') * (oneOf isWordChar)∗

/-- A keyword, a name behind a gap, and one of some characters, with anything behind it. -/
def definition (keyword openers : List Char) : Language Char :=
  {keyword} * (gap * (name * (blanks * (oneOf openers.contains * ⊤))))

/-- Blank lines. -/
def Line.blank : Language Char := blanks

/-- Comments: the first character that is not blank is a number sign. -/
def Line.comment : Language Char := blanks * (oneOf (· == '#') * ⊤)

/-- Lines of code: the first character that is not blank is another one. -/
def Line.code : Language Char := blanks * (oneOf (fun c => !isBlank c && c != '#') * ⊤)

/-- Lines that open a function. -/
def Line.function : Language Char :=
  blanks * ((1 + {['a', 's', 'y', 'n', 'c']} * gap) * definition ['d', 'e', 'f'] ['('])

/-- Lines that open a class. -/
def Line.type : Language Char := blanks * definition ['c', 'l', 'a', 's', 's'] ['(', ':']

/-! ## Reading from the left -/

theorem mem_oneOf_mul : cs ∈ oneOf p * K ↔ ∃ c rest, cs = c :: rest ∧ p c = true ∧ rest ∈ K := by
  rw [Language.mem_mul]
  constructor
  · rintro ⟨_, ⟨c, holds, rfl⟩, rest, member, rfl⟩
    exact ⟨c, rest, rfl, holds, member⟩
  · rintro ⟨c, rest, rfl, holds, member⟩
    exact ⟨[c], ⟨c, holds, rfl⟩, rest, member, rfl⟩

/-- The first character decides where anything may come behind it. -/
theorem mem_oneOf_mul_top : cs ∈ oneOf p * ⊤ ↔ ∃ c, cs.head? = some c ∧ p c = true := by
  rw [mem_oneOf_mul]
  constructor
  · rintro ⟨c, rest, rfl, holds, _⟩
    exact ⟨c, rfl, holds⟩
  · rintro ⟨c, head, holds⟩
    obtain ⟨rest, rfl⟩ := List.head?_eq_some_iff.mp head
    exact ⟨c, rest, rfl, holds, trivial⟩

theorem mem_word_mul : cs ∈ ({keyword} : Language Char) * K ↔ ∃ rest, cs = keyword ++ rest ∧ rest ∈ K := by
  rw [Language.mem_mul]
  constructor
  · rintro ⟨_, rfl, rest, member, rfl⟩
    exact ⟨rest, rfl, member⟩
  · rintro ⟨rest, rfl, member⟩
    exact ⟨keyword, rfl, rest, member, rfl⟩

theorem mem_star_oneOf : cs ∈ (oneOf p)∗ ↔ ∀ c ∈ cs, p c = true := by
  rw [Language.mem_kstar]
  constructor
  · rintro ⟨words, rfl, all⟩ c inside
    obtain ⟨word, member, inside⟩ := List.mem_flatten.mp inside
    obtain ⟨d, holds, rfl⟩ := all word member
    exact List.mem_singleton.mp inside ▸ holds
  · intro all
    refine ⟨cs.map ([·]), (List.flatMap_singleton' cs).symm, fun word member => ?_⟩
    obtain ⟨c, inside, rfl⟩ := List.mem_map.mp member
    exact ⟨c, all c inside, rfl⟩

/-- A language whose words stay in it when characters that satisfy a condition are taken away in front. -/
def Skips (p : Char → Bool) (K : Language Char) : Prop := ∀ cs ∈ K, cs.dropWhile p ∈ K

theorem mem_star_mul (skips : Skips p K) : cs ∈ (oneOf p)∗ * K ↔ cs.dropWhile p ∈ K := by
  rw [Language.mem_mul]
  constructor
  · rintro ⟨front, all, back, member, rfl⟩
    rw [List.dropWhile_append_of_pos (mem_star_oneOf.mp all)]
    exact skips back member
  · intro member
    refine ⟨cs.takeWhile p, mem_star_oneOf.mpr ?_, _, member, List.takeWhile_append_dropWhile⟩
    exact List.all_eq_true.mp List.all_takeWhile

/-- Where no word starts with such a character, nothing is taken away. -/
theorem skips_of_head (head : ∀ cs ∈ K, ∃ c rest, cs = c :: rest ∧ p c = false) : Skips p K := by
  intro cs member
  obtain ⟨c, rest, rfl, differs⟩ := head cs member
  rwa [List.dropWhile_cons_of_neg (by simp [differs])]

theorem skips_star_mul (skips : Skips p K) : Skips p ((oneOf q)∗ * K) := by
  intro cs member
  obtain ⟨front, all, back, inside, rfl⟩ := Language.mem_mul.mp member
  rw [List.dropWhile_append]
  split
  · exact Language.mem_mul.mpr ⟨[], Language.nil_mem_kstar _, _, skips back inside, rfl⟩
  · refine Language.mem_mul.mpr ⟨_, mem_star_oneOf.mpr fun c kept => ?_, back, inside, rfl⟩
    exact mem_star_oneOf.mp all c ((List.dropWhile_sublist p).subset kept)

theorem skips_oneOf_mul (apart : ∀ c, q c = true → p c = false) : Skips p (oneOf q * K) := by
  refine skips_of_head fun cs member => ?_
  obtain ⟨c, rest, rfl, holds, _⟩ := mem_oneOf_mul.mp member
  exact ⟨c, rest, rfl, apart c holds⟩

theorem skips_word_mul (differs : p c = false) : Skips p ({c :: keyword} * K) := by
  refine skips_of_head fun cs member => ?_
  obtain ⟨rest, rfl, _⟩ := mem_word_mul.mp member
  exact ⟨c, _, rfl, differs⟩

theorem Skips.add {L : Language Char} (left : Skips p K) (right : Skips p L) : Skips p (K + L) :=
  fun cs member => member.imp (left cs) (right cs)

/-! ## Definitions -/

theorem afterKeyword_eq_some_iff : afterKeyword keyword cs = some rest ↔
    ∃ c tail, cs = keyword ++ c :: tail ∧ isBlank c = true ∧ tail.dropWhile isBlank = rest := by
  unfold afterKeyword
  constructor
  · intro after
    split at after
    · rename_i starts
      obtain ⟨back, rfl⟩ := List.isPrefixOf_iff_prefix.mp starts
      rw [List.drop_left] at after
      grind
    · cases after
  · rintro ⟨c, tail, rfl, blank, rfl⟩
    rw [if_pos (List.isPrefixOf_iff_prefix.mpr (List.prefix_append _ _)), List.drop_left]
    exact if_pos blank

theorem exists_afterKeyword (skips : Skips isBlank K) :
    (∃ rest, afterKeyword keyword cs = some rest ∧ rest ∈ K) ↔ cs ∈ {keyword} * (gap * K) := by
  simp only [afterKeyword_eq_some_iff, gap, blanks, mul_assoc, mem_word_mul, mem_oneOf_mul, mem_star_mul skips]
  grind

theorem exists_afterName (blank : Skips isBlank K) (word : Skips isWordChar K) :
    (∃ rest, afterName cs = some rest ∧ rest ∈ K) ↔ cs ∈ name * (blanks * K) := by
  rw [name, blanks, mul_assoc, mem_oneOf_mul]
  simp only [mem_star_mul (skips_star_mul word), mem_star_mul blank]
  cases cs with
  | nil => simp [afterName]
  | cons c tail => simp [afterName]

private theorem isBlank_of_startsName (starts : (c.isAlpha || c == '_') = true) : isBlank c = false := by
  have range : c.toNat = 95 ∨ (65 ≤ c.toNat ∧ c.toNat ≤ 90) ∨ 97 ≤ c.toNat ∧ c.toNat ≤ 122 := by
    rcases Bool.or_eq_true_iff.mp starts with letter | underscore
    · right
      have bounds : (decide (c.val ≥ 65 ∧ c.val ≤ 90) || decide (c.val ≥ 97) && decide (c.val ≤ 122)) = true :=
        letter
      simpa [UInt32.le_iff_toNat_le] using bounds
    · left
      rw [eq_of_beq underscore]
      rfl
  simp [isBlank]
  omega

private theorem definesWith_eq_true_iff : definesWith keyword openers cs = true ↔
    ∃ rest, (afterKeyword keyword cs).bind afterName = some rest ∧ rest ∈ oneOf openers.contains * ⊤ := by
  simp only [definesWith, mem_oneOf_mul_top]
  rcases (afterKeyword keyword cs).bind afterName with _ | _ | ⟨c, rest⟩ <;> simp

/-- The characters that open a definition have to differ from those of a name and from blanks. -/
theorem definesWith_iff (apart : ∀ c ∈ openers, isBlank c = false ∧ isWordChar c = false) :
    definesWith keyword openers cs = true ↔ cs ∈ definition keyword openers := by
  let opened : Language Char := oneOf openers.contains * ⊤
  have blank : Skips isBlank opened := skips_oneOf_mul fun c inside => (apart c (by simpa using inside)).1
  have word : Skips isWordChar opened := skips_oneOf_mul fun c inside => (apart c (by simpa using inside)).2
  have named : Skips isBlank (name * (blanks * opened)) := by
    rw [name, mul_assoc]
    exact skips_oneOf_mul fun c => isBlank_of_startsName
  rw [definesWith_eq_true_iff, definition, ← exists_afterKeyword named]
  simp only [← exists_afterName blank word, Option.bind_eq_some_iff]
  grind

/-! ## Lines -/

private theorem skips_definition (differs : p c = false) : Skips p (definition (c :: keyword) openers) :=
  skips_word_mul differs

private theorem parenthesis_apart : ∀ c ∈ ['('], isBlank c = false ∧ isWordChar c = false :=
  List.forall_mem_singleton.mpr ⟨rfl, rfl⟩

private theorem openers_apart : ∀ c ∈ ['(', ':'], isBlank c = false ∧ isWordChar c = false :=
  List.forall_mem_cons.mpr ⟨⟨rfl, rfl⟩, List.forall_mem_singleton.mpr ⟨rfl, rfl⟩⟩

theorem mem_function_iff : line ∈ Line.function ↔
    line.dropWhile isBlank ∈ definition ['d', 'e', 'f'] ['('] ∨
      line.dropWhile isBlank ∈ {['a', 's', 'y', 'n', 'c']} * (gap * definition ['d', 'e', 'f'] ['(']) := by
  rw [Line.function, blanks, add_mul, one_mul, mul_assoc, mem_star_mul]
  · exact Language.mem_add _ _ _
  · exact (skips_definition (by decide)).add (skips_word_mul (by decide))

theorem mem_type_iff : line ∈ Line.type ↔
    line.dropWhile isBlank ∈ definition ['c', 'l', 'a', 's', 's'] ['(', ':'] :=
  mem_star_mul (skips_definition (by decide))

theorem opensFunction_iff : opensFunction line = true ↔ line ∈ Line.function := by
  rw [mem_function_iff, opensFunction, definesWith_iff parenthesis_apart,
    ← exists_afterKeyword (skips_definition (by decide))]
  cases after : afterKeyword ['a', 's', 'y', 'n', 'c'] (line.dropWhile isBlank) with
  | none => simp
  | some rest =>
    -- What starts with the first keyword does not start with the second.
    have other : line.dropWhile isBlank ∉ definition ['d', 'e', 'f'] ['('] := by
      intro member
      obtain ⟨tail, start, _⟩ := mem_word_mul.mp member
      obtain ⟨c, rest, same, _⟩ := afterKeyword_eq_some_iff.mp after
      simp [same] at start
    simp [other]

theorem opensClass_iff : opensClass line = true ↔ line ∈ Line.type := by
  rw [mem_type_iff, opensClass, definesWith_iff openers_apart]

/-- No line opens both a function and a class. -/
theorem not_mem_type_of_mem_function (member : line ∈ Line.function) : line ∉ Line.type := by
  rw [mem_type_iff]
  intro other
  obtain ⟨tail, start, _⟩ := mem_word_mul.mp other
  rcases mem_function_iff.mp member with plain | async
  · obtain ⟨rest, same, _⟩ := mem_word_mul.mp plain
    simp [same] at start
  · obtain ⟨rest, same, _⟩ := mem_word_mul.mp async
    simp [same] at start

theorem mem_blank_iff : line ∈ Line.blank ↔ (line.dropWhile isBlank).head? = none := by
  rw [Line.blank, blanks, mem_star_oneOf, List.head?_eq_none_iff, List.dropWhile_eq_nil_iff]

theorem mem_comment_iff : line ∈ Line.comment ↔ (line.dropWhile isBlank).head? = some '#' := by
  rw [Line.comment, blanks, mem_star_mul, mem_oneOf_mul_top]
  · simp
  · exact skips_oneOf_mul fun c sign => by rw [eq_of_beq sign]; decide

private theorem isBlank_of_head (head : (line.dropWhile isBlank).head? = some c) : isBlank c = false := by
  have first := List.head?_dropWhile_not isBlank line
  rwa [head] at first

theorem mem_code_iff : line ∈ Line.code ↔ ∃ c, (line.dropWhile isBlank).head? = some c ∧ c ≠ '#' := by
  rw [Line.code, blanks, mem_star_mul, mem_oneOf_mul_top]
  · exact exists_congr fun c => and_congr_right fun head => by simp [isBlank_of_head head]
  · exact skips_oneOf_mul fun c other => by simp_all

/-- A line is blank or a comment or code, and never two of them. -/
theorem classified (line : List Char) :
    line ∈ Line.blank ∧ line ∉ Line.comment ∧ line ∉ Line.code ∨
      line ∉ Line.blank ∧ line ∈ Line.comment ∧ line ∉ Line.code ∨
      line ∉ Line.blank ∧ line ∉ Line.comment ∧ line ∈ Line.code := by
  rw [mem_blank_iff, mem_comment_iff, mem_code_iff]
  cases (line.dropWhile isBlank).head? with
  | none => simp
  | some c => by_cases sign : c = '#' <;> simp [sign]

theorem head?_trim (line : List Char) : (trim line).head? = (line.dropWhile isBlank).head? := by
  unfold trim trimEnd
  cases rest : line.dropWhile isBlank with
  | nil => rfl
  | cons c tail =>
    have head : (line.dropWhile isBlank).head? = some c := by rw [rest]; rfl
    rw [dropEndWhile_cons_of_neg (isBlank_of_head head)]
    rfl

instance (line : List Char) : Decidable (line ∈ Line.blank) := decidable_of_iff _ mem_blank_iff.symm

instance (line : List Char) : Decidable (line ∈ Line.comment) := decidable_of_iff _ mem_comment_iff.symm

instance (line : List Char) : Decidable (line ∈ Line.code) :=
  decidable_of_iff (line ∉ Line.blank ∧ line ∉ Line.comment) (by have := classified line; tauto)

instance (line : List Char) : Decidable (line ∈ Line.function) := decidable_of_iff _ opensFunction_iff

instance (line : List Char) : Decidable (line ∈ Line.type) := decidable_of_iff _ opensClass_iff

/-- The kind of a line, from the languages in which it is. -/
theorem kind_eq (line : List Char) : LineKind.of line =
    if line ∈ Line.blank then .blank
    else if line ∈ Line.comment then .comment
    else if line ∈ Line.function then .code (some .function)
    else if line ∈ Line.type then .code (some .type)
    else .code none := by
  have head := head?_trim line
  simp only [LineKind.of, mem_blank_iff, mem_comment_iff, ← head, opensFunction_iff, opensClass_iff]
  cases trim line with
  | nil => simp
  | cons c rest => simp

/-! ## Counting -/

/-- Field by field. -/
instance : Add LineMetrics where
  add m n := ⟨m.lines + n.lines, m.codeLines + n.codeLines, m.commentLines + n.commentLines,
    m.blankLines + n.blankLines, m.functions + n.functions, m.classes + n.classes⟩

/-- The numbers of the lines of each language. -/
def tally (ls : List (List Char)) : LineMetrics where
  lines := ls.length
  codeLines := ls.countP fun line => line ∈ Line.code
  commentLines := ls.countP fun line => line ∈ Line.comment
  blankLines := ls.countP fun line => line ∈ Line.blank
  functions := ls.countP fun line => line ∈ Line.code ∧ line ∈ Line.function
  classes := ls.countP fun line => line ∈ Line.code ∧ line ∈ Line.type

theorem tally_append (ls more : List (List Char)) : tally (ls ++ more) = tally ls + tally more := by
  simp only [tally, List.length_append, List.countP_append]
  rfl

theorem tally_concat (ls : List (List Char)) (line : List Char) :
    tally (ls ++ [line]) = (tally ls).count (LineKind.of line) := by
  rw [kind_eq]
  simp only [tally, List.length_append, List.countP_append, List.countP_singleton]
  rcases classified line with ⟨yes, no, nor⟩ | ⟨no, yes, nor⟩ | ⟨no, nor, yes⟩
  · simp [count, yes, no, nor]
  · simp [count, yes, no, nor]
  · by_cases function : line ∈ Line.function
    · simp [count, yes, no, nor, function, not_mem_type_of_mem_function function]
    · by_cases type : line ∈ Line.type <;> simp [count, yes, no, nor, function, type]

theorem ofSource_eq (source : List Char) : ofSource source = tally (Text.lines source) := by
  rw [ofSource]
  induction Text.lines source using List.reverseRecOn with
  | nil => rfl
  | append_singleton ls line ih => rw [List.map_append, List.foldl_append, ih, tally_concat]; rfl

theorem ofSource_append {front : List Char} (ends : front = [] ∨ front.getLast? = some '\n') (back : List Char) :
    ofSource (front ++ back) = ofSource front + ofSource back := by
  rw [ofSource_eq, ofSource_eq, ofSource_eq, lines_append ends, tally_append]

theorem tally_lines (ls : List (List Char)) :
    (tally ls).lines = (tally ls).codeLines + (tally ls).commentLines + (tally ls).blankLines := by
  induction ls with
  | nil => rfl
  | cons line rest ih =>
    simp only [tally] at ih ⊢
    rcases classified line with ⟨yes, no, nor⟩ | ⟨no, yes, nor⟩ | ⟨no, nor, yes⟩ <;>
      simp [yes, no, nor] <;> omega

theorem tally_definitions (ls : List (List Char)) :
    (tally ls).functions + (tally ls).classes ≤ (tally ls).codeLines := by
  induction ls with
  | nil => exact Nat.le_refl 0
  | cons line rest ih =>
    have apart : line ∈ Line.function → line ∉ Line.type := not_mem_type_of_mem_function
    simp only [tally, List.countP_cons] at ih ⊢
    grind

/-- The lines of a text are determined by their endings, and the counts are the numbers of those that are in
    each language. Every line is in exactly one of the three, so their counts make up the number of lines, and
    none opens both a function and a class. Behind the end of a line, what follows is counted for itself. -/
theorem ofSource_classified (source : List Char) :
    (∃ ls, (∀ other, Lined source other ↔ other = ls) ∧ ofSource source = tally ls) ∧
      (∀ line, line ∈ Line.blank ∧ line ∉ Line.comment ∧ line ∉ Line.code ∨
        line ∉ Line.blank ∧ line ∈ Line.comment ∧ line ∉ Line.code ∨
        line ∉ Line.blank ∧ line ∉ Line.comment ∧ line ∈ Line.code) ∧
      (∀ line ∈ Line.function, line ∉ Line.type) ∧
      (ofSource source).lines =
        (ofSource source).codeLines + (ofSource source).commentLines + (ofSource source).blankLines ∧
      (ofSource source).functions + (ofSource source).classes ≤ (ofSource source).codeLines ∧
      (source = [] ∨ source.getLast? = some '\n' →
        ∀ back, ofSource (source ++ back) = ofSource source + ofSource back) :=
  ⟨⟨_, fun _ => lined_iff, ofSource_eq source⟩, classified, fun _ => not_mem_type_of_mem_function,
    ofSource_eq source ▸ tally_lines _, ofSource_eq source ▸ tally_definitions _, ofSource_append⟩

end ModuleGraph.LineMetrics
