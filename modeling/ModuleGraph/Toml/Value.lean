import ModuleGraph.Toml.Basic
import ModuleGraph.Toml.Text

/-!
The values of a TOML document: numbers, dates and times, and arrays and tables in braces.
-/
namespace ModuleGraph.Toml.Reader

/-! ## Numbers -/

/-- Reads digits, of which each but the first may have an underscore in front. -/
def digitRun (isDigit : Char → Bool) : Reader (List Char) :=
  ((satisfy isDigit).before
    ((expect ['_']).optional.skipping (satisfy isDigit)).many).map fun (c, cs) => c :: cs

/-- Whether a character is a decimal digit. -/
def isDecimal (c : Char) : Bool := c.isDigit

/-- Reads a sign: whether it is a minus. -/
def sign : Reader Bool :=
  (((expect ['+']).map fun _ => false).orElse ((expect ['-']).map fun _ => true)).optional.map
    (·.getD false)

/-- Reads decimal digits without a zero in front of others. -/
def decimalDigits : Reader (List Char)
  | '0' :: rest => some (['0'], rest)
  | cs => digitRun isDecimal cs

/-- The integer of a sign and digits, if it has no more than 64 bits. -/
def toInteger? (base : Nat) (negative : Bool) (digits : List Char) : Option Int := do
  let n := ofDigits base (← digits.mapM hexDigit?)
  let value : Int := if negative then -n else n
  if -9223372036854775808 ≤ value ∧ value < 9223372036854775808 then some value else none

/-- Reads an integer with a mark for its base. -/
def basedInteger (mark : Char) (base : Nat) : Reader Int :=
  ((expect ['0', mark]).skipping
    (digitRun fun c => (hexDigit? c).any (· < base))).mapOption (toInteger? base false)

/-- Reads an integer. -/
def integer : Reader Int :=
  (((basedInteger 'x' 16).orElse (basedInteger 'o' 8)).orElse (basedInteger 'b' 2)).orElse
    ((sign.before decimalDigits).mapOption fun (negative, digits) =>
      toInteger? 10 negative digits)

/-- Reads an exponent. -/
def exponent : Reader Unit :=
  ((satisfy fun c => c == 'e' || c == 'E').skipping sign).skipping
    ((digitRun isDecimal).map fun _ => ())

/-- Reads a fraction. -/
def fraction : Reader Unit := (expect ['.']).skipping ((digitRun isDecimal).map fun _ => ())

/-- Reads a number in floating point. -/
def float : Reader Unit :=
  sign.skipping
    (((expect ['i', 'n', 'f']).orElse (expect ['n', 'a', 'n'])).orElse
      (decimalDigits.skipping
        (exponent.orElse (fraction.skipping (exponent.optional.map fun _ => ())))))

/-! ## Dates and times -/

/-- Reads a number of a fixed count of digits within bounds. -/
def boundedNumber (count low high : Nat) : Reader Nat := fun cs => do
  let digits := cs.take count
  if digits.length = count ∧ digits.all isDecimal then
    let n := ofDigits 10 (digits.map fun c => c.toNat - '0'.toNat)
    if low ≤ n ∧ n ≤ high then some (n, cs.drop count) else none
  else none

/-- The number of days of a month. -/
def daysOfMonth (year month : Nat) : Nat :=
  if month = 2 then
    if year % 4 = 0 ∧ (year % 100 ≠ 0 ∨ year % 400 = 0) then 29 else 28
  else if month = 4 ∨ month = 6 ∨ month = 9 ∨ month = 11 then 30
  else 31

/-- Reads a date. -/
def date : Reader Unit :=
  (((boundedNumber 4 0 9999).followedBy (expect ['-'])).before
    (((boundedNumber 2 1 12).followedBy (expect ['-'])).before
      (boundedNumber 2 1 31))).mapOption fun (year, month, day) =>
        if day ≤ daysOfMonth year month then some () else none

/-- Reads a time of day. -/
def timeOfDay : Reader Unit :=
  ((boundedNumber 2 0 23).skipping (expect [':'])).skipping
    (((boundedNumber 2 0 59).skipping (expect [':'])).skipping
      ((boundedNumber 2 0 60).skipping
        (((expect ['.']).skipping (span1 isDecimal)).optional.map fun _ => ())))

/-- Reads a distance from universal time. -/
def offset : Reader Unit :=
  ((satisfy fun c => c == 'Z' || c == 'z').map fun _ => ()).orElse
    ((satisfy fun c => c == '+' || c == '-').skipping
      (((boundedNumber 2 0 23).skipping (expect [':'])).skipping
        ((boundedNumber 2 0 59).map fun _ => ())))

/-- Reads a date, a time or both. -/
def moment : Reader Unit :=
  (date.skipping
    (((satisfy fun c => c == 'T' || c == 't' || c == ' ').skipping
      (timeOfDay.skipping offset.optional)).optional.map fun _ => ())).orElse timeOfDay

/-! ## Values -/

/-- Reads a value without parts. A date begins like a number and a floating point number begins
    like an integer, so they are tried first. -/
def scalar : Reader Toml :=
  (((((string.map Toml.string).orElse (moment.map fun _ => .moment)).orElse
    (float.map fun _ => .float)).orElse (integer.map .integer)).orElse
    ((expect ['t', 'r', 'u', 'e']).map fun _ => .boolean true)).orElse
    ((expect ['f', 'a', 'l', 's', 'e']).map fun _ => .boolean false)

/-- Reads an array of values. A comma may stand behind the last one. -/
def arrayOf (value : Reader Toml) : Reader Toml :=
  (((expect ['[']).skipping
    ((separated ((filler.skipping value).followedBy filler) (expect [','])).followedBy
      (expect [',']).optional).optional).followedBy
    (filler.skipping (expect [']']))).map fun elements => .array (elements.getD [])

/-- Reads a key and its value. -/
def keyValue (value : Reader Toml) : Reader (List String × Toml) :=
  (key.followedBy ((expect ['=']).before spaces)).before value

/-- Reads a table in braces, on one line. -/
def tableOf (value : Reader Toml) : Reader Toml :=
  (((expect ['\x7b']).skipping
    (separated ((keyValue value).followedBy spaces) (expect [','])).optional).followedBy
    (spaces.skipping (expect ['\x7d']))).mapOption fun pairs =>
      (defineAll [] (pairs.getD [])).map (.table .braces)

/-- The number of arrays and tables that may stand in each other. -/
def nestingLimit : Nat := 79

/-- Reads a value with a limit on the arrays and tables in each other. -/
def valueWithin : Nat → Reader Toml
  | 0 => scalar
  | limit + 1 =>
    (scalar.orElse (arrayOf (valueWithin limit))).orElse (tableOf (valueWithin limit))

/-- Reads a value. -/
def value : Reader Toml := valueWithin nestingLimit

end ModuleGraph.Toml.Reader
