import ModuleGraph.Json.Draft
import ModuleGraph.Proofs.Json.Token

/-!
Values and their written form. The tokens of a value without faults are read as that value
(`ofText_of_written`), and the written form of a value whose numbers are exact spells its tokens
(`written_render`), so it is read back as it was (`ofText_render`).
-/
namespace ModuleGraph.Json

namespace Draft

/-! ## Values and tokens -/

/-- The token of the name of a field. -/
def nameToken : FieldName → Token
  | .text name => .string name
  | .fault f => .broken f

mutual

/-- The tokens of a value without faults. -/
def tokens : Draft → List Token
  | .null => [.null]
  | .bool value => [.bool value]
  | .number value => [.number value]
  | .string text => [.string text]
  | .array [] _ => [.openBracket, .closeBracket]
  | .array (item :: items) _ => .openBracket :: item.tokens ++ itemTokens items ++ [.closeBracket]
  | .object [] _ => [.openBrace, .closeBrace]
  | .object ((name, value) :: fields) _ =>
    .openBrace :: nameToken name :: .colon :: value.tokens ++ fieldTokens fields ++ [.closeBrace]
  | .fault f => [.broken f]

/-- The tokens of the items of an array after its first. -/
def itemTokens : List Draft → List Token
  | [] => []
  | item :: items => .comma :: item.tokens ++ itemTokens items

/-- The tokens of the fields of an object after its first. -/
def fieldTokens : List (FieldName × Draft) → List Token
  | [] => []
  | (name, value) :: fields => .comma :: nameToken name :: .colon :: value.tokens ++ fieldTokens fields

end

private theorem eq_closed {ending : Ending} (clean : endFault? ending = none) : ending = .closed := by
  cases ending with
  | closed => rfl
  | fault f => cases clean

mutual

/-- A value without faults is built from its tokens, whatever follows. -/
theorem build_tokens (d : Draft) (clean : d.skipFault? = none) (stack : List Open) (first : Bool)
    (rest : List Token) : build stack (.value first) (d.tokens ++ rest) = build stack (.after d) rest := by
  match d, clean with
  | .null, _ | .bool value, _ | .number value, _ | .string text, _ =>
    simp [tokens, build, ofToken?]
  | .array [] ending, clean =>
    have last : endFault? ending = none := by simpa [skipFault?, skipItems] using clean
    cases eq_closed last
    simp [tokens, build]
  | .array (item :: items) ending, clean =>
    simp only [skipFault?, skipItems, Option.or_eq_none_iff] at clean
    cases eq_closed clean.2
    simp only [tokens, List.cons_append, List.append_assoc, build]
    rw [build_tokens item clean.1.1]
    exact build_items items clean.1.2 [] item stack rest
  | .object [] ending, clean =>
    have last : endFault? ending = none := by simpa [skipFault?, skipFields] using clean
    cases eq_closed last
    simp [tokens, build]
  | .object ((.text name, value) :: fields) ending, clean =>
    simp only [skipFault?, skipFields, Option.or_eq_none_iff] at clean
    cases eq_closed clean.2
    simp only [tokens, nameToken, List.cons_append, List.append_assoc, build, if_true]
    rw [build_tokens value clean.1.1]
    exact build_fields fields clean.1.2 [] (.text name) value stack rest

theorem build_items (items : List Draft) (clean : skipItems items = none) (done : List Draft)
    (item : Draft) (stack : List Open) (rest : List Token) :
    build (.array done :: stack) (.after item) (itemTokens items ++ .closeBracket :: rest) =
      build stack (.after (.array (done.reverse ++ item :: items) .closed)) rest := by
  match items, clean with
  | [], _ => simp [itemTokens, build]
  | next :: items, clean =>
    simp only [skipItems, Option.or_eq_none_iff] at clean
    simp only [itemTokens, List.cons_append, List.append_assoc, build]
    rw [build_tokens next clean.1, build_items items clean.2]
    simp

theorem build_fields (fields : List (FieldName × Draft)) (clean : skipFields fields = none)
    (done : List (FieldName × Draft)) (name : FieldName) (value : Draft) (stack : List Open)
    (rest : List Token) :
    build (.object done name :: stack) (.after value) (fieldTokens fields ++ .closeBrace :: rest) =
      build stack (.after (.object (done.reverse ++ (name, value) :: fields) .closed)) rest := by
  match fields, clean with
  | [], _ => simp [fieldTokens, build]
  | (.text next, value') :: fields, clean =>
    simp only [skipFields, Option.or_eq_none_iff] at clean
    simp only [fieldTokens, nameToken, List.cons_append, List.append_assoc, build, if_true]
    rw [build_tokens value' clean.1, build_fields fields clean.2]
    simp

end

/-- A text that is read as the tokens of a value without faults is read as that value. -/
theorem ofText_of_tokens {d : Draft} {cs : List Char} (clean : d.skipFault? = none)
    (read : Json.tokens cs = d.tokens) : ofText cs = (d, []) := by
  have built := build_tokens d clean [] false []
  rw [List.append_nil] at built
  rw [ofText, read, built, build]

theorem ofText_of_written {d : Draft} {cs : List Char} (clean : d.skipFault? = none)
    (written : Written cs d.tokens) : ofText cs = (d, []) :=
  ofText_of_tokens clean (tokens_of_written written)

end Draft

/-! ## The written form -/

mutual

/-- A value as it is read back. -/
def draft : Json → Draft
  | .null => .null
  | .bool value => .bool value
  | .number value => .number (if fits : value < wordLimit then .natural value fits else .other)
  | .decimal _ => .number .other
  | .string text => .string (some text)
  | .array items => .array (draftItems items) .closed
  | .object fields => .object (draftFields fields) .closed

/-- The items of an array as they are read back. -/
def draftItems : List Json → List Draft
  | [] => []
  | item :: items => item.draft :: draftItems items

/-- The fields of an object as they are read back. -/
def draftFields : List (String × Json) → List (FieldName × Draft)
  | [] => []
  | (name, value) :: fields => (.text (some name), value.draft) :: draftFields fields

end

theorem draftItems_eq (items : List Json) : draftItems items = items.map draft := by
  induction items with
  | nil => rfl
  | cons item rest ih => rw [draftItems, ih, List.map_cons]

theorem draftFields_eq (fields : List (String × Json)) :
    draftFields fields = fields.map fun (name, value) => (.text (some name), value.draft) := by
  induction fields with
  | nil => rfl
  | cons field rest ih =>
    obtain ⟨name, value⟩ := field
    rw [draftFields, ih, List.map_cons]

mutual

theorem skipFault?_draft (v : Json) : v.draft.skipFault? = none := by
  match v with
  | .null | .bool _ | .number _ | .decimal _ | .string _ => simp [draft, Draft.skipFault?]
  | .array items => simp [draft, Draft.skipFault?, skipItems_draft items, Draft.endFault?]
  | .object fields => simp [draft, Draft.skipFault?, skipFields_draft fields, Draft.endFault?]

theorem skipItems_draft (items : List Json) : Draft.skipItems (draftItems items) = none := by
  match items with
  | [] => rfl
  | item :: items => simp [draftItems, Draft.skipItems, skipFault?_draft item, skipItems_draft items]

theorem skipFields_draft (fields : List (String × Json)) :
    Draft.skipFields (draftFields fields) = none := by
  match fields with
  | [] => rfl
  | (name, value) :: fields =>
    simp [draftFields, Draft.skipFields, skipFault?_draft value, skipFields_draft fields]

end

mutual

/-- All numbers of a value are natural numbers of at most 64 bits. -/
def Exact : Json → Prop
  | .null | .bool _ | .string _ => True
  | .number value => value < wordLimit
  | .decimal _ => False
  | .array items => ExactItems items
  | .object fields => ExactFields fields

/-- All numbers of some items are natural numbers of at most 64 bits. -/
def ExactItems : List Json → Prop
  | [] => True
  | item :: items => item.Exact ∧ ExactItems items

/-- All numbers of some fields are natural numbers of at most 64 bits. -/
def ExactFields : List (String × Json) → Prop
  | [] => True
  | (_, value) :: fields => value.Exact ∧ ExactFields fields

end

theorem exactItems_iff {items : List Json} : ExactItems items ↔ ∀ item ∈ items, item.Exact := by
  induction items with
  | nil => simp [ExactItems]
  | cons item rest ih => simp [ExactItems, ih]

theorem exactFields_iff {fields : List (String × Json)} :
    ExactFields fields ↔ ∀ name value, (name, value) ∈ fields → value.Exact := by
  induction fields with
  | nil => simp [ExactFields]
  | cons field rest ih =>
    obtain ⟨name, value⟩ := field
    rw [ExactFields, ih]
    constructor
    · rintro ⟨first, later⟩ other value' member
      rcases List.mem_cons.mp member with here | there
      · cases here
        exact first
      · exact later other value' there
    · intro all
      exact ⟨all name value List.mem_cons_self, fun other value' member =>
        all other value' (List.mem_cons_of_mem _ member)⟩

variable {rest : List Char} {ts : List Token} {depth : Nat}

private theorem written_blanks (count : Nat) (written : Written rest ts) :
    Written (List.replicate count ' ' ++ rest) ts := by
  induction count with
  | zero => exact written
  | succ count ih => exact .blank rfl ih

private theorem written_newLine (depth : Nat) (written : Written rest ts) :
    Written (newLine depth ++ rest) ts := .blank rfl (written_blanks _ written)

private theorem ends_newLine (depth : Nat) (rest : List Char) : EndsNumber (newLine depth ++ rest) := by
  intro c first
  simp only [newLine, List.cons_append, List.head?_cons, Option.mem_def, Option.some.injEq] at first
  subst first
  decide

private theorem ends_comma (rest : List Char) : EndsNumber (',' :: rest) := by
  intro c first
  simp only [List.head?_cons, Option.mem_def, Option.some.injEq] at first
  subst first
  decide

private theorem ends_renderItems {items : List Json} (ends : EndsNumber rest) :
    EndsNumber (renderItems depth items ++ rest) := by
  cases items with
  | nil => exact ends
  | cons item items => exact ends_comma _

private theorem ends_renderFields {fields : List (String × Json)} (ends : EndsNumber rest) :
    EndsNumber (renderFields depth fields ++ rest) := by
  cases fields with
  | nil => exact ends
  | cons field fields => exact ends_comma _

/-- A token that is no number may stand before anything. -/
private theorem Written.mark {word : List Char} {t : Token} (spelled : Spelling word t)
    (mark : ∀ n, t ≠ .number n) (written : Written rest ts) : Written (word ++ rest) (t :: ts) :=
  .token spelled (fun n same => absurd same (mark n)) written

mutual

/-- The written form of an exact value spells its tokens. -/
theorem written_render {rest : List Char} {ts : List Token} (depth : Nat) (v : Json) (exact : v.Exact)
    (ends : EndsNumber rest) (written : Written rest ts) :
    Written (v.render depth ++ rest) (v.draft.tokens ++ ts) := by
  match v, exact with
  | .null, _ => exact .mark .null (by simp) written
  | .bool true, _ => exact .mark .holds (by simp) written
  | .bool false, _ => exact .mark .fails (by simp) written
  | .number value, exact =>
    rw [draft, dif_pos (show value < wordLimit from exact)]
    exact .token (.number value exact) (fun _ _ => ends) written
  | .string text, _ => exact .mark (.string text) (by simp) written
  | .array [], _ =>
    have closing : Written (']' :: rest) (.closeBracket :: ts) := .mark .closeBracket (by simp) written
    have whole := Written.mark .openBracket (by simp) closing
    simpa [render, draft, draftItems, Draft.tokens] using whole
  | .array (item :: items), exact =>
    have closing : Written (newLine depth ++ ']' :: rest) (.closeBracket :: ts) :=
      written_newLine depth (.mark .closeBracket (by simp) written)
    have later := written_renderItems (depth + 1) items exact.2 (ends_newLine depth _) closing
    have first := written_render (depth + 1) item exact.1
      (ends_renderItems (ends_newLine depth (']' :: rest))) later
    have whole := Written.mark .openBracket (by simp) (written_newLine (depth + 1) first)
    simpa [render, draft, draftItems, Draft.tokens] using whole
  | .object [], _ =>
    have closing : Written ('}' :: rest) (.closeBrace :: ts) := .mark .closeBrace (by simp) written
    have whole := Written.mark .openBrace (by simp) closing
    simpa [render, draft, draftFields, Draft.tokens] using whole
  | .object ((name, value) :: fields), exact =>
    have closing : Written (newLine depth ++ '}' :: rest) (.closeBrace :: ts) :=
      written_newLine depth (.mark .closeBrace (by simp) written)
    have later := written_renderFields (depth + 1) fields exact.2 (ends_newLine depth _) closing
    have first := written_render (depth + 1) value exact.1
      (ends_renderFields (ends_newLine depth ('}' :: rest))) later
    have named := Written.mark (.string name) (by simp)
      (.mark .colon (by simp) (.blank (c := ' ') rfl first))
    have whole := Written.mark .openBrace (by simp) (written_newLine (depth + 1) named)
    simpa [render, draft, draftFields, Draft.tokens, Draft.nameToken] using whole

theorem written_renderItems {rest : List Char} {ts : List Token} (depth : Nat) (items : List Json)
    (exact : ExactItems items) (ends : EndsNumber rest) (written : Written rest ts) :
    Written (renderItems depth items ++ rest) (Draft.itemTokens (draftItems items) ++ ts) := by
  match items, exact with
  | [], _ => exact written
  | item :: items, exact =>
    have later := written_renderItems depth items exact.2 ends written
    have first := written_render depth item exact.1 (ends_renderItems ends) later
    have whole := Written.mark .comma (by simp) (written_newLine depth first)
    simpa [renderItems, draftItems, Draft.itemTokens] using whole

theorem written_renderFields {rest : List Char} {ts : List Token} (depth : Nat)
    (fields : List (String × Json)) (exact : ExactFields fields) (ends : EndsNumber rest)
    (written : Written rest ts) :
    Written (renderFields depth fields ++ rest) (Draft.fieldTokens (draftFields fields) ++ ts) := by
  match fields, exact with
  | [], _ => exact written
  | (name, value) :: fields, exact =>
    have later := written_renderFields depth fields exact.2 ends written
    have first := written_render depth value exact.1 (ends_renderFields ends) later
    have named := Written.mark (.string name) (by simp)
      (.mark .colon (by simp) (.blank (c := ' ') rfl first))
    have whole := Written.mark .comma (by simp) (written_newLine depth named)
    simpa [renderFields, draftFields, Draft.fieldTokens, Draft.nameToken] using whole

end

/-- What is written of an exact value is read back, and nothing is left behind it. -/
theorem ofText_render (v : Json) (exact : v.Exact) : Draft.ofText v.text.toList = (v.draft, []) := by
  refine Draft.ofText_of_written (skipFault?_draft v) ?_
  have written := written_render 0 v exact (fun c first => by cases first) .nil
  rw [List.append_nil, List.append_nil] at written
  rwa [text, String.toList_ofList]

end ModuleGraph.Json
