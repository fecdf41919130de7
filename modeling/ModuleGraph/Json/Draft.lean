import ModuleGraph.Json.Token

/-!
A JSON value read as far as its text is JSON. What stands behind the first fault is never looked at,
so a reader that takes the parts of a value from left to right meets problems in the order of the
text, its own ones among them.
-/
namespace ModuleGraph.Json

/-- The name of a field. -/
inductive FieldName where
  /-- A string, or none if half a surrogate pair stands in it. -/
  | text (name : Option String)
  | fault (fault : Fault)
  deriving DecidableEq

/-- How the items of a container end. -/
inductive Ending where
  | closed
  | fault (fault : Fault)
  deriving DecidableEq

/-- A value up to its first fault. -/
inductive Draft where
  | null
  | bool (value : Bool)
  | number (value : Number)
  | string (text : Option String)
  | array (items : List Draft) (ending : Ending)
  | object (fields : List (FieldName × Draft)) (ending : Ending)
  | fault (fault : Fault)

namespace Draft

/-! ## From tokens -/

/-- A container that is not closed yet, its parts in reverse. -/
inductive Open where
  | array (items : List Draft)
  | object (fields : List (FieldName × Draft)) (name : FieldName)

/-- The value of an open container whose last part is given. -/
def Open.close (part : Draft) (ending : Ending) : Open → Draft
  | .array items => .array (part :: items).reverse ending
  | .object fields name => .object ((name, part) :: fields).reverse ending

/-- What may come next. -/
inductive Expected where
  /-- A value; `first` after the bracket of an array. -/
  | value (first : Bool)
  /-- The name of a field; `first` after the brace of an object, whose fields so far are given. -/
  | name (first : Bool) (fields : List (FieldName × Draft))
  | colon (fields : List (FieldName × Draft)) (name : FieldName)
  /-- What follows a value. -/
  | after (value : Draft)

/-- The value around a part behind which nothing is read. -/
def unwind (part : Draft) : List Open → Draft
  | [] => part
  | container :: outer => unwind (container.close part .closed) outer

/-- The fault at a name that a string should have been. -/
def misplaced : Token → Fault
  | .brokenString f => f
  | .broken f => ⟨f.read, .malformed, .malformed⟩
  | .number .huge => .all .malformed
  | .number _ | .null | .bool _ | .openBrace | .openBracket => ⟨.mismatch, .malformed, .malformed⟩
  | _ => .all .malformed

/-- The value of a token that is one on its own. -/
def ofToken? : Token → Option Draft
  | .null => some .null
  | .bool value => some (.bool value)
  | .number value => some (.number value)
  | .string text => some (.string text)
  | .broken f | .brokenString f => some (.fault f)
  | .closeBrace | .closeBracket | .comma | .colon => some (.fault (.all .malformed))
  | .openBrace | .openBracket => none

/-- Reads tokens inside open containers, innermost first; gives the value and the tokens left. -/
def build (stack : List Open) : Expected → List Token → Draft × List Token
  | .after value, [] =>
    match stack with
    | [] => (value, [])
    | container :: outer => (unwind (container.close value (.fault (.all .incomplete))) outer, [])
  | .name first fields, [] =>
    if first then (unwind (.object fields.reverse (.fault (.all .incomplete))) stack, [])
    else (unwind (.object ((.fault (.all .incomplete), .null) :: fields).reverse .closed) stack, [])
  | .value _, [] => (unwind (.fault (.all .incomplete)) stack, [])
  | .colon fields name, [] =>
    (unwind (.object ((name, .fault (.all .incomplete)) :: fields).reverse .closed) stack, [])
  | .value first, token :: rest =>
    match token with
    | .openBracket => build (.array [] :: stack) (.value true) rest
    | .openBrace => build stack (.name true []) rest
    | .closeBracket =>
      match first, stack with
      | true, .array items :: outer => build outer (.after (.array items.reverse .closed)) rest
      | _, _ => (unwind (.fault (.all .malformed)) stack, rest)
    | token =>
      match ofToken? token with
      | some (.fault f) => (unwind (.fault f) stack, rest)
      | some value => build stack (.after value) rest
      | none => (unwind (.fault (.all .malformed)) stack, rest)
  | .name first fields, token :: rest =>
    match token with
    | .string name => build stack (.colon fields (.text name)) rest
    | .closeBrace =>
      if first then build stack (.after (.object fields.reverse .closed)) rest
      else (unwind (.object ((.fault (.all .malformed), .null) :: fields).reverse .closed) stack, rest)
    | token =>
      (unwind (.object ((.fault (misplaced token), .null) :: fields).reverse .closed) stack, rest)
  | .colon fields name, token :: rest =>
    if token = .colon then build (.object fields name :: stack) (.value false) rest
    else
      (unwind (.object ((name, .fault (.all .malformed)) :: fields).reverse .closed) stack, rest)
  | .after value, token :: rest =>
    match stack with
    | [] => (value, token :: rest)
    | .array items :: outer =>
      match token with
      | .comma => build (.array (value :: items) :: outer) (.value false) rest
      | .closeBracket => build outer (.after (.array (value :: items).reverse .closed)) rest
      | _ => (unwind (.array (value :: items).reverse (.fault (.all .malformed))) outer, rest)
    | .object fields name :: outer =>
      match token with
      | .comma => build outer (.name false ((name, value) :: fields)) rest
      | .closeBrace =>
        build outer (.after (.object ((name, value) :: fields).reverse .closed)) rest
      | _ =>
        (unwind (.object ((name, value) :: fields).reverse (.fault (.all .malformed))) outer, rest)

/-- The first value of a text and the tokens behind it. -/
def ofText (cs : List Char) : Draft × List Token := build [] (.value false) (tokens cs)

/-! ## Skipping -/

/-- The fault that a reader meets who skips the end of a container. -/
def endFault? : Ending → Option ReadError
  | .closed => none
  | .fault f => some f.skipped

mutual

/-- The fault that a reader meets who skips a value. -/
def skipFault? : Draft → Option ReadError
  | .fault f => some f.skipped
  | .array items ending => (skipItems items).or (endFault? ending)
  | .object fields ending => (skipFields fields).or (endFault? ending)
  | _ => none

/-- The fault that a reader meets who skips items. -/
def skipItems : List Draft → Option ReadError
  | [] => none
  | item :: items => item.skipFault?.or (skipItems items)

/-- The fault that a reader meets who skips fields. -/
def skipFields : List (FieldName × Draft) → Option ReadError
  | [] => none
  | (.fault f, _) :: _ => some f.skipped
  | (.text _, value) :: fields => value.skipFault?.or (skipFields fields)

end

end Draft
end ModuleGraph.Json
