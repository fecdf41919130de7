import ModuleGraph.OrderedMap
import Mathlib.Data.List.Forall2

/-!
JSON as it may be written. A script holds every choice that its writer has: the blanks around the tokens, how each
character of a string is written, the form of the numbers and the order of the fields. What a script means is a
matter of relations (`Script.IsText`, `Script.IsNat`, `Script.IsList`, `Script.IsMap`, `Script.IsRecord`), which
leave these choices open. Where no value is wanted any script may stand.
-/
namespace ModuleGraph.Json

/-! ## Blanks -/

/-- A character that only keeps tokens apart. -/
inductive Blank where
  | space
  | tab
  | newline
  | carriageReturn
  deriving DecidableEq

def Blank.char : Blank → Char
  | .space => ' '
  | .tab => '\t'
  | .newline => '\n'
  | .carriageReturn => '\r'

/-- Blanks in a row. -/
def blanks (gap : List Blank) : List Char := gap.map Blank.char

@[simp] theorem blanks_nil : blanks [] = [] := rfl

@[simp] theorem blanks_cons (blank : Blank) (gap : List Blank) : blanks (blank :: gap) = blank.char :: blanks gap := rfl

/-- Something between blanks. -/
structure Padded (α : Type) where
  before : List Blank
  value : α
  after : List Blank

/-! ## Strings -/

/-- A hexadecimal digit; those beyond nine have two forms. -/
structure HexDigit where
  value : Fin 16
  capital : Bool

def HexDigit.char (d : HexDigit) : Char :=
  if d.value.val < 10 then Char.ofNat (d.value.val + 48)
  else if d.capital then Char.ofNat (d.value.val + 55)
  else Char.ofNat (d.value.val + 87)

/-- The escapes of one letter. -/
inductive Short where
  | quote
  | backslash
  | slash
  | backspace
  | formFeed
  | newline
  | carriageReturn
  | tab

/-- What is written behind the backslash. -/
def Short.char : Short → Char
  | .quote => '"'
  | .backslash => '\\'
  | .slash => '/'
  | .backspace => 'b'
  | .formFeed => 'f'
  | .newline => 'n'
  | .carriageReturn => 'r'
  | .tab => 't'

def Short.meant : Short → Char
  | .quote => '"'
  | .backslash => '\\'
  | .slash => '/'
  | .backspace => '\x08'
  | .formFeed => '\x0c'
  | .newline => '\n'
  | .carriageReturn => '\r'
  | .tab => '\t'

/-- A piece of a string: a character as it is or an escape, which may be that of half a surrogate pair. -/
inductive Letter where
  | plain (c : Char) (clean : 0x20 ≤ c.toNat ∧ c ≠ '"' ∧ c ≠ '\\')
  | short (s : Short)
  | unit (first second third fourth : HexDigit)

def Letter.text : Letter → List Char
  | .plain c _ => [c]
  | .short s => ['\\', s.char]
  | .unit a b c d => ['\\', 'u', a.char, b.char, c.char, d.char]

/-- The code units of a character in UTF-16. -/
def utf16 (c : Char) : List Nat :=
  if c.toNat < 0x10000 then [c.toNat]
  else [0xD800 + (c.toNat - 0x10000) / 0x400, 0xDC00 + (c.toNat - 0x10000) % 0x400]

/-- The code units that a piece of a string stands for. -/
def Letter.units : Letter → List Nat
  | .plain c _ => utf16 c
  | .short s => utf16 s.meant
  | .unit a b c d => [((a.value.val * 16 + b.value.val) * 16 + c.value.val) * 16 + d.value.val]

/-- Letters spell the text that has their code units. -/
def Spells (letters : List Letter) (text : String) : Prop :=
  letters.flatMap Letter.units = text.toList.flatMap utf16

/-- Letters in quotes. -/
def quotedLetters (letters : List Letter) : List Char := '"' :: letters.flatMap Letter.text ++ ['"']

/-! ## Numbers -/

/-- Digits in a row, at least one. -/
structure Digits where
  first : Fin 10
  more : List (Fin 10)

def Digits.values (d : Digits) : List Nat := (d.first :: d.more).map Fin.val

def Digits.text (d : Digits) : List Char := d.values.map Nat.digitChar

/-- The exponent of a number; its sign may be left out. -/
structure Exponent where
  capital : Bool
  negative? : Option Bool
  digits : Digits

def Exponent.text (e : Exponent) : List Char :=
  (if e.capital then 'E' else 'e') ::
    (match e.negative? with
      | none => e.digits.text
      | some true => '-' :: e.digits.text
      | some false => '+' :: e.digits.text)

/-- A number. Zero stands at its start only if no other digit follows before the point. -/
structure Numeral where
  negative : Bool
  whole : Digits
  leading : whole.first = 0 → whole.more = []
  fraction : Option Digits
  exponent : Option Exponent

def Numeral.text (n : Numeral) : List Char :=
  (if n.negative then ['-'] else []) ++ n.whole.text ++
    (match n.fraction with
      | none => []
      | some digits => '.' :: digits.text) ++
    (match n.exponent with
      | none => []
      | some e => e.text)

/-! ## Values -/

/-- A field of an object. -/
structure Field (α : Type) where
  name : Padded (List Letter)
  value : Padded α

/-- A value as it is written. -/
inductive Script where
  | null
  | bool (value : Bool)
  | number (n : Numeral)
  | string (letters : List Letter)
  | array (inner : List Blank) (items : List (Padded Script))
  | object (inner : List Blank) (fields : List (Field Script))

namespace Script

mutual

def text : Script → List Char
  | .null => ['n', 'u', 'l', 'l']
  | .bool true => ['t', 'r', 'u', 'e']
  | .bool false => ['f', 'a', 'l', 's', 'e']
  | .number n => n.text
  | .string letters => quotedLetters letters
  | .array inner [] => '[' :: blanks inner ++ [']']
  | .array inner (⟨before, item, after⟩ :: items) =>
    '[' :: blanks inner ++ blanks before ++ item.text ++ blanks after ++ itemsText items ++ [']']
  | .object inner [] => '{' :: blanks inner ++ ['}']
  | .object inner (⟨name, ⟨before, value, after⟩⟩ :: fields) =>
    '{' :: blanks inner ++ blanks name.before ++ quotedLetters name.value ++ blanks name.after ++
      ':' :: blanks before ++ value.text ++ blanks after ++ fieldsText fields ++ ['}']

/-- The items of an array after its first. -/
def itemsText : List (Padded Script) → List Char
  | [] => []
  | ⟨before, item, after⟩ :: items => ',' :: blanks before ++ item.text ++ blanks after ++ itemsText items

/-- The fields of an object after its first. -/
def fieldsText : List (Field Script) → List Char
  | [] => []
  | ⟨name, ⟨before, value, after⟩⟩ :: fields =>
    ',' :: blanks name.before ++ quotedLetters name.value ++ blanks name.after ++
      ':' :: blanks before ++ value.text ++ blanks after ++ fieldsText fields

end

/-! ## What is said -/

def IsText (s : Script) (text : String) : Prop := ∃ letters, s = .string letters ∧ Spells letters text

/-- A natural number in decimal digits. -/
def IsNat (s : Script) (n : Nat) : Prop := ∃ numeral, s = .number numeral ∧ numeral.text = Nat.toDigits 10 n

def IsList {α : Type} (means : Script → α → Prop) (s : Script) (as : List α) : Prop :=
  ∃ inner items, s = .array inner items ∧ List.Forall₂ (fun item a => means item.value a) items as

/-- The entries of a map in their order. -/
def IsMap {α : Type} (means : Script → α → Prop) (s : Script) (m : OrderedMap String α) : Prop :=
  ∃ inner fields, s = .object inner fields ∧
    List.Forall₂ (fun field entry => Spells field.name.value entry.1 ∧ means field.value.value entry.2) fields
      m.entries

/-- A field of a record: its name, what its value has to say and whether it may be left out. -/
structure Slot where
  name : String
  means : Script → Prop
  optional : Prop

/-- The fields of a record, those that are not left out. -/
inductive Fill : List Slot → List (Field Script) → Prop where
  | nil : Fill [] []
  | written {slot : Slot} {slots : List Slot} {field : Field Script} {fields : List (Field Script)}
    (named : Spells field.name.value slot.name) (said : slot.means field.value.value) (later : Fill slots fields) :
    Fill (slot :: slots) (field :: fields)
  | omitted {slot : Slot} {slots : List Slot} {fields : List (Field Script)} (optional : slot.optional)
    (later : Fill slots fields) : Fill (slot :: slots) fields

/-- A record: its fields in any order, among any fields with other names. -/
def IsRecord (slots : List Slot) (s : Script) : Prop :=
  ∃ inner fields known unknown, s = .object inner fields ∧ fields.Perm (known ++ unknown) ∧ Fill slots known ∧
    ∀ field ∈ unknown, ∃ name, Spells field.name.value name ∧ ∀ slot ∈ slots, name ≠ slot.name

end Script
end ModuleGraph.Json
