import ModuleGraph.Binary64.Basic
import ModuleGraph.Count

/-!
The tokens of JSON text. Reading stops at the first token that is not well formed; how bad that is
depends on who wanted the token, so a fault holds one answer for each kind of reader.
-/
namespace ModuleGraph.Json

/-- Why a text does not give the wanted value. -/
inductive ReadError where
  /-- The text is not JSON. -/
  | malformed
  /-- The text ends too early. -/
  | incomplete
  /-- The value is not of the wanted form. -/
  | mismatch
  deriving DecidableEq

/-- A place at which reading stops. -/
structure Fault where
  /-- For a reader that wants a value. -/
  read : ReadError
  /-- For a reader that skips the value. -/
  skipped : ReadError
  /-- For a reader that looks into strings and containers only. -/
  glance : ReadError
  deriving DecidableEq

namespace Fault

/-- A fault that is the same for all readers. -/
def all (e : ReadError) : Fault := ⟨e, e, e⟩

end Fault

/-- What a number is good for. -/
inductive Number where
  /-- A natural number of at most 64 bits. -/
  | natural (value : Nat) (fits : value < wordLimit)
  /-- Any other number, among them those written with a sign, a point or an exponent. -/
  | other
  /-- A number beyond the largest one in binary floating point. -/
  | huge
  deriving DecidableEq

/-- The tokens of JSON text. -/
inductive Token where
  | openBrace
  | closeBrace
  | openBracket
  | closeBracket
  | comma
  | colon
  | null
  | bool (value : Bool)
  | number (value : Number)
  /-- A string, or none if half a surrogate pair stands in it. -/
  | string (text : Option String)
  /-- A string that stops too early. -/
  | brokenString (fault : Fault)
  /-- Anything else that is no token. -/
  | broken (fault : Fault)
  deriving DecidableEq

/-! ## Numbers -/

/-- A number as far as it is read. -/
structure NumberText where
  negative : Bool
  whole : List Nat
  fraction : List Nat
  /-- The exponent with its sign, once there is one. -/
  exponent : Option (Bool × Nat)
  /-- Whether there is a point. -/
  hasFraction : Bool
  deriving DecidableEq

/-- The value of the first digits that fit into 64 bits, and how many digits follow them. -/
def leading (value : Nat) : List Nat → Nat × Nat
  | [] => (value, 0)
  | digit :: rest =>
    if value * 10 + digit < wordLimit then leading (value * 10 + digit) rest
    else (value, rest.length + 1)

theorem leading_fits {value : Nat} (fits : value < wordLimit) (digits : List Nat) :
    (leading value digits).1 < wordLimit := by
  induction digits generalizing value with
  | nil => exact fits
  | cons digit rest ih =>
    unfold leading
    split
    · rename_i more
      exact ih more
    · exact fits

/-- Whether a number of a significand and a power of ten is beyond the largest one in binary
    floating point, both being rounded to 53 bits first. -/
def isBeyond (significand : Nat) (power : Int) : Bool :=
  if significand = 0 ∨ power < 0 then false
  else if 308 < power then true
  else
    Nat.pow 2 1024 - Nat.pow 2 970 ≤
      Binary64.roundNat significand * Binary64.roundNat (Nat.pow 10 power.toNat)

/-- What a number is good for, from its text. -/
def NumberText.kind (n : NumberText) : Number :=
  let whole := leading 0 n.whole
  if n.hasFraction = false ∧ n.exponent = none ∧ whole.2 = 0 then
    if n.negative then .other else .natural whole.1 (leading_fits (by decide) n.whole)
  else
    let (significand, left) := leading whole.1 n.fraction
    let power : Int := whole.2 - (n.fraction.length - left : Nat)
    let power :=
      match n.exponent with
      | none => power
      | some (false, e) => power + e
      | some (true, e) => power - e
    if isBeyond significand power then .huge else .other

/-- The part of a number that is being read. -/
inductive NumberPart where
  /-- After the sign. -/
  | sign
  /-- After a zero at the start. -/
  | zero
  | whole
  /-- After the point. -/
  | point
  | fraction
  /-- After the letter of the exponent. -/
  | letter
  /-- After the sign of the exponent. -/
  | exponentSign
  | exponent
  deriving DecidableEq

namespace NumberPart

/-- Whether a number may end here. -/
def mayEnd : NumberPart → Bool
  | .zero | .whole | .fraction | .exponent => true
  | _ => false

end NumberPart

/-- The value of a decimal digit. -/
def digit? (c : Char) : Option Nat := if c.isDigit then some (c.toNat - 48) else none

/-- A number with one more character, if that belongs to it. A digit after a zero at the start
    belongs to it and spoils it. -/
def NumberText.next? (n : NumberText) (part : NumberPart) (c : Char) :
    Option (NumberText × NumberPart) :=
  match part, digit? c with
  | .sign, some d => some ({ n with whole := [d] }, if d = 0 then .zero else .whole)
  | .whole, some d => some ({ n with whole := n.whole ++ [d] }, .whole)
  | .point, some d => some ({ n with fraction := [d] }, .fraction)
  | .fraction, some d => some ({ n with fraction := n.fraction ++ [d] }, .fraction)
  | .letter, some d | .exponentSign, some d | .exponent, some d =>
    let (negative, e) := n.exponent.getD (false, 0)
    some ({ n with exponent := some (negative, e * 10 + d) }, .exponent)
  | .zero, none | .whole, none =>
    if c = '.' then some ({ n with hasFraction := true }, .point)
    else if c = 'e' ∨ c = 'E' then some ({ n with exponent := some (false, 0) }, .letter)
    else none
  | .fraction, none =>
    if c = 'e' ∨ c = 'E' then some ({ n with exponent := some (false, 0) }, .letter) else none
  | .letter, none =>
    if c = '+' then some (n, .exponentSign)
    else if c = '-' then some ({ n with exponent := some (true, 0) }, .exponentSign)
    else none
  | _, _ => none

/-! ## Strings -/

/-- A string as far as it is read. -/
structure StringText where
  /-- The characters so far in reverse, or none after half a surrogate pair. -/
  reversed : Option (List Char)
  /-- The first half of a surrogate pair, if that came last. -/
  high : Option Nat
  deriving DecidableEq

namespace StringText

/-- The string in front of its first character. -/
def start : StringText := ⟨some [], none⟩

/-- The string after a first half without its second one. -/
def settle (s : StringText) : StringText :=
  if s.high.isSome then ⟨none, none⟩ else s

/-- The string with one more character. -/
def push (s : StringText) (c : Char) : StringText :=
  ⟨s.settle.reversed.map (c :: ·), none⟩

/-- The string with one more code unit of UTF-16. -/
def pushUnit (s : StringText) (unit : Nat) : StringText :=
  if 0xD800 ≤ unit ∧ unit ≤ 0xDBFF then ⟨s.settle.reversed, some unit⟩
  else if 0xDC00 ≤ unit ∧ unit ≤ 0xDFFF then
    match s.high with
    | some high =>
      ⟨s.reversed.map (Char.ofNat ((high - 0xD800) * 0x400 + (unit - 0xDC00) + 0x10000) :: ·), none⟩
    | none => ⟨none, none⟩
  else s.push (Char.ofNat unit)

/-- The text of a string that is read to its end. -/
def text? (s : StringText) : Option String := s.settle.reversed.map fun cs => String.ofList cs.reverse

/-- A fault in a string: half a pair before it comes first for those that want the string. -/
def fault (s : StringText) (e : ReadError) : Fault :=
  let read := if s.reversed.isSome then e else .malformed
  ⟨read, e, read⟩

end StringText

/-- The character that an escape of one letter stands for. -/
def escape? (c : Char) : Option Char :=
  if c = '"' ∨ c = '\\' ∨ c = '/' then some c
  else if c = 'b' then some '\x08'
  else if c = 'f' then some '\x0c'
  else if c = 'n' then some '\n'
  else if c = 'r' then some '\r'
  else if c = 't' then some '\t'
  else none

/-- The value of a hexadecimal digit. -/
def hexValue? (c : Char) : Option Nat :=
  if c.isDigit then some (c.toNat - 48)
  else if 'a' ≤ c ∧ c ≤ 'f' then some (c.toNat - 87)
  else if 'A' ≤ c ∧ c ≤ 'F' then some (c.toNat - 55)
  else none

/-! ## The lexer -/

/-- Where the lexer stands. -/
inductive Mode where
  | between
  /-- In a keyword, with the characters still to come. -/
  | keyword (left : List Char) (token : Token)
  | number (n : NumberText) (part : NumberPart)
  | string (s : StringText)
  /-- After a backslash. -/
  | escape (s : StringText)
  /-- In the four bytes of a code unit, with the number of bytes read and their value if they are
      digits so far. -/
  | unit (s : StringText) (bytes : Nat) (value : Option Nat)
  | stopped
  deriving DecidableEq

/-- The lexer: its mode and the tokens so far in reverse. -/
structure Lexer where
  mode : Mode
  tokens : List Token

namespace Lexer

/-- The lexer in front of a text. -/
def start : Lexer := ⟨.between, []⟩

/-- The lexer after one more token. -/
def emit (l : Lexer) (token : Token) : Lexer := ⟨.between, token :: l.tokens⟩

/-- The lexer in another mode. -/
def goTo (l : Lexer) (mode : Mode) : Lexer := { l with mode }

/-- The lexer at a place where it stops. -/
def stop (l : Lexer) (fault : Fault) : Lexer := ⟨.stopped, .broken fault :: l.tokens⟩

/-- The lexer at a place inside a string where it stops. -/
def stopString (l : Lexer) (fault : Fault) : Lexer := ⟨.stopped, .brokenString fault :: l.tokens⟩

/-- Whether a character only keeps tokens apart. -/
def isSpace (c : Char) : Bool := c == ' ' || c == '\n' || c == '\t' || c == '\r'

/-- A number in front of its first digit. -/
def noNumber (negative : Bool) : NumberText := ⟨negative, [], [], none, false⟩

/-- Reads one character between tokens. -/
def stepBetween (l : Lexer) (c : Char) : Lexer :=
  if isSpace c then l.goTo .between
  else if c = '{' then l.emit .openBrace
  else if c = '}' then l.emit .closeBrace
  else if c = '[' then l.emit .openBracket
  else if c = ']' then l.emit .closeBracket
  else if c = ',' then l.emit .comma
  else if c = ':' then l.emit .colon
  else if c = '"' then l.goTo (.string .start)
  else if c = 'n' then l.goTo (.keyword ['u', 'l', 'l'] .null)
  else if c = 't' then l.goTo (.keyword ['r', 'u', 'e'] (.bool true))
  else if c = 'f' then l.goTo (.keyword ['a', 'l', 's', 'e'] (.bool false))
  else if c = '-' then l.goTo (.number (noNumber true) .sign)
  else
    match (noNumber false).next? .sign c with
    | some (n, part) => l.goTo (.number n part)
    | none => l.stop (.all .malformed)

/-- The fault of a token other than a string. -/
def spoilt (read skipped : ReadError) : Fault := ⟨read, skipped, .malformed⟩

/-- Reads one character. -/
def step (l : Lexer) (c : Char) : Lexer :=
  match l.mode with
  | .between => l.stepBetween c
  | .keyword [] token => (l.emit token).stepBetween c
  | .keyword (expected :: left) token =>
    if c = expected then
      if left = [] then l.emit token else l.goTo (.keyword left token)
    else l.stop (spoilt .malformed .malformed)
  | .number n part =>
    if part = .zero ∧ c.isDigit then l.stop (spoilt .malformed .malformed)
    else
      match n.next? part c with
      | some (n, part) => l.goTo (.number n part)
      | none =>
        if part.mayEnd then (l.emit (.number n.kind)).stepBetween c
        else l.stop (spoilt .malformed .malformed)
  | .string s =>
    if c = '"' then l.emit (.string s.text?)
    else if c = '\\' then l.goTo (.escape s)
    else if c.toNat < 0x20 then l.stopString (s.settle.fault .malformed)
    else l.goTo (.string (s.push c))
  | .escape s =>
    if c = 'u' then l.goTo (.unit s 0 (some 0))
    else
      match escape? c with
      | some meant => l.goTo (.string (s.push meant))
      | none => l.stopString (s.settle.fault .malformed)
  | .unit s bytes value =>
    let bytes := bytes + c.utf8Size
    let value := value.bind fun v => (hexValue? c).map (v * 16 + ·)
    if bytes < 4 then l.goTo (.unit s bytes value)
    else
      match value with
      | some unit => l.goTo (.string (s.pushUnit unit))
      | none => l.stopString (s.fault .malformed)
  | .stopped => l

/-- Reads the end of a text. -/
def finish (l : Lexer) : Lexer :=
  match l.mode with
  | .between | .stopped => l
  | .keyword _ _ => l.stop (spoilt .incomplete .incomplete)
  | .number n part =>
    if part.mayEnd then l.emit (.number n.kind) else l.stop (spoilt .incomplete .malformed)
  | .string s | .escape s | .unit s _ _ => l.stopString (s.fault .incomplete)

/-- Reads a text. -/
def scan (l : Lexer) (cs : List Char) : Lexer := cs.foldl step l

theorem scan_append (l : Lexer) (first second : List Char) :
    l.scan (first ++ second) = (l.scan first).scan second := List.foldl_append

end Lexer

/-- The tokens of a text. A broken one is the last. -/
def tokens (cs : List Char) : List Token := (Lexer.start.scan cs).finish.tokens.reverse

end ModuleGraph.Json
