import ModuleGraph.Proofs.Graph.Text
import ModuleGraph.Proofs.Json.Fields
import ModuleGraph.Proofs.Json.Layout

/-!
The written forms of a graph document. A document may be written with any blanks, with its strings escaped in any way,
with the fields of its records in any order and among others, and with what is empty written out or left out
(`GraphDocument.IsRendered`). The reader gives the same graph for all of these (`Graph.ofText_rendered`).
-/
namespace ModuleGraph
open Json (Draft ReadError Script)

/-! ## Written forms -/

def Import.IsWritten (i : Import) (s : Script) : Prop :=
  s.IsRecord [⟨"kind", (·.IsText i.kind.text), False⟩, ⟨"module_path", (·.IsText i.modulePath), False⟩,
    ⟨"relative_level", (·.IsNat i.level), False⟩, ⟨"line", (·.IsNat i.line), False⟩,
    ⟨"names", (·.IsList Script.IsText i.names), i.names = []⟩]

/-- A missing file type may be written as null. -/
def ModuleInfo.IsTyped (info : ModuleInfo) (s : Script) : Prop :=
  match info.fileType with
  | none => s = .null
  | some text => s.IsText text

def ModuleInfo.IsWritten (info : ModuleInfo) (s : Script) : Prop :=
  s.IsRecord [⟨"file_type", info.IsTyped, info.fileType = none⟩,
    ⟨"imports", (·.IsList (fun s i => i.IsWritten s) info.imports), info.imports = []⟩]

namespace GraphDocument

/-- Lists of names by module. -/
def AreLists (m : OrderedMap String (List String)) (s : Script) : Prop :=
  s.IsMap (fun s names => s.IsList Script.IsText names) m

def IsWritten (d : GraphDocument) (s : Script) : Prop :=
  s.IsRecord [⟨"nodes", (·.IsMap (fun s info => info.IsWritten s) d.nodes), False⟩, ⟨"edges", AreLists d.edges, False⟩,
    ⟨"unresolved_imports", AreLists d.unresolvedImports, False⟩,
    ⟨"external_dependencies", AreLists d.externalDependencies, False⟩]

/-- A text that holds the document and nothing else. -/
def IsRendered (d : GraphDocument) (text : String) : Prop :=
  ∃ script before after, d.IsWritten script ∧
    text.toList = Json.blanks before ++ script.text ++ Json.blanks after

end GraphDocument

/-! ## The layout of the writer -/

open Json (Laid)

private theorem laid_strings (texts : List String) : Laid (·.IsList Script.IsText texts) (Json.strings texts) :=
  .list fun text _ => .string text

/-- The fields of an import as they are written. -/
private def Import.plan (i : Import) : List (Script.Slot × Option Json) := [
  (⟨"kind", (·.IsText i.kind.text), False⟩, some (.string i.kind.text)),
  (⟨"module_path", (·.IsText i.modulePath), False⟩, some (.string i.modulePath)),
  (⟨"relative_level", (·.IsNat i.level), False⟩, some (.number i.level)),
  (⟨"line", (·.IsNat i.line), False⟩, some (.number i.line)),
  (⟨"names", (·.IsList Script.IsText i.names), i.names = []⟩, if i.names = [] then none else some (.strings i.names))]

theorem Import.laid (i : Import) : Laid i.IsWritten i.toJson := by
  have shape : Json.object (Laid.written i.plan) = i.toJson := by
    by_cases empty : i.names = [] <;> simp [Laid.written, plan, Import.toJson, empty]
  rw [← shape]
  refine Laid.record i.plan ?_
  simp only [plan, List.forall_mem_cons]
  exact ⟨.string _, .string _, .number _, .number _, Laid.given_unless id (laid_strings _), List.forall_mem_nil _⟩

private def ModuleInfo.plan (info : ModuleInfo) : List (Script.Slot × Option Json) := [
  (⟨"file_type", info.IsTyped, info.fileType = none⟩, info.fileType.map .string),
  (⟨"imports", (·.IsList (fun s i => i.IsWritten s) info.imports), info.imports = []⟩,
    if info.imports = [] then none else some (.array (info.imports.map Import.toJson)))]

theorem ModuleInfo.laid (info : ModuleInfo) : Laid info.IsWritten info.toJson := by
  have shape : Json.object (Laid.written info.plan) = info.toJson := by
    cases known : info.fileType <;> by_cases empty : info.imports = [] <;>
      simp [Laid.written, plan, ModuleInfo.toJson, known, empty]
  have type : Laid.Given (⟨"file_type", info.IsTyped, info.fileType = none⟩, info.fileType.map .string) := by
    obtain ⟨fileType, imports⟩ := info
    cases fileType with
    | none => rfl
    | some text => exact Laid.string text
  have imports : Laid (·.IsList (fun s i => Import.IsWritten i s) info.imports)
      (.array (info.imports.map Import.toJson)) := .list fun i _ => i.laid
  rw [← shape]
  refine Laid.record info.plan ?_
  simp only [plan, List.forall_mem_cons]
  exact ⟨type, Laid.given_unless id imports, List.forall_mem_nil _⟩

namespace GraphDocument

private theorem laid_lists (m : OrderedMap String (List String)) : Laid (AreLists m) (m.toJson Json.strings) :=
  .map fun _ names _ => laid_strings names

private theorem laid (d : GraphDocument) : Laid d.IsWritten d.toJson := by
  refine Laid.record [(⟨"nodes", (·.IsMap (fun s info => info.IsWritten s) d.nodes), False⟩,
    some (d.nodes.toJson ModuleInfo.toJson)), (⟨"edges", _, False⟩, some (d.edges.toJson Json.strings)),
    (⟨"unresolved_imports", _, False⟩, some (d.unresolvedImports.toJson Json.strings)),
    (⟨"external_dependencies", _, False⟩, some (d.externalDependencies.toJson Json.strings))] ?_
  have nodes : Laid (·.IsMap (fun s info => ModuleInfo.IsWritten info s) d.nodes) (d.nodes.toJson ModuleInfo.toJson) :=
    .map fun _ info _ => info.laid
  simp only [List.forall_mem_cons]
  exact ⟨nodes, laid_lists _, laid_lists _, laid_lists _, List.forall_mem_nil _⟩

/-- The text that the writer chooses is one that holds the document. -/
theorem isRendered_text (d : GraphDocument) : d.IsRendered d.toJson.text := by
  obtain ⟨script, written, text⟩ := d.laid 0
  refine ⟨script, [], [], written, ?_⟩
  simp [Json.text, text]

end GraphDocument

/-! ## Reading -/

theorem ImportFields.swaps_slots : ∀ a ∈ slots, ∀ b ∈ slots, Draft.Swap a.2 b.2 := by
  intro a first b second
  simp only [slots, List.mem_cons, List.not_mem_nil, or_false] at first second
  rcases first with rfl | rfl | rfl | rfl | rfl <;> rcases second with rfl | rfl | rfl | rfl | rfl <;>
    first
    | exact Draft.swap_self fun _ _ => rfl
    | exact Draft.swap_readOnce (fun _ _ => rfl) (fun _ _ => rfl) fun _ _ _ => rfl

theorem ModuleFields.swaps_slots : ∀ a ∈ slots, ∀ b ∈ slots, Draft.Swap a.2 b.2 := by
  intro a first b second
  simp only [slots, List.mem_cons, List.not_mem_nil, or_false] at first second
  rcases first with rfl | rfl <;> rcases second with rfl | rfl <;>
    first
    | exact Draft.swap_self fun _ _ => rfl
    | exact Draft.swap_readOnce (fun _ _ => rfl) (fun _ _ => rfl) fun _ _ _ => rfl

theorem DocumentFields.swaps_slots : ∀ a ∈ slots, ∀ b ∈ slots, Draft.Swap a.2 b.2 := by
  intro a first b second
  simp only [slots, List.mem_cons, List.not_mem_nil, or_false] at first second
  rcases first with rfl | rfl | rfl | rfl <;> rcases second with rfl | rfl | rfl | rfl <;>
    first
    | exact Draft.swap_self fun _ _ => rfl
    | exact Draft.swap_readOnce (fun _ _ => rfl) (fun _ _ => rfl) fun _ _ _ => rfl

variable {s : Script}

theorem ImportKind.read_of_isText {kind : ImportKind} (isText : s.IsText kind.text) :
    ImportKind.read s.draft = .ok kind := by
  rw [Script.draft_of_isText isText]
  cases kind <;> rfl

theorem Import.read_of_isWritten {i : Import} (fits : i.Fits) (written : i.IsWritten s) :
    Import.read s.draft = .ok i := by
  refine Script.readRecord_of_isRecord written ImportFields.swaps_slots rfl fun known fill => ?_
  obtain ⟨kind, _, rfl, kindDraft, kindMeant, fill⟩ := fill.exists_field
  obtain ⟨path, _, rfl, pathDraft, pathMeant, fill⟩ := fill.exists_field
  obtain ⟨level, _, rfl, levelDraft, levelMeant, fill⟩ := fill.exists_field
  obtain ⟨line, rest, rfl, lineDraft, lineMeant, fill⟩ := fill.exists_field
  have kindRead := ImportKind.read_of_isText kindMeant
  have pathRead := Script.readString_of_isText pathMeant
  have levelRead := Script.readNat_of_isNat fits.level levelMeant
  have lineRead := Script.readNat_of_isNat fits.line lineMeant
  rcases fill.field_or_omitted with ⟨names, _, rfl, namesDraft, namesMeant, fill⟩ | ⟨empty, fill⟩ <;> cases fill.eq_nil
  · have namesRead := Script.readList_of_isList (fun _ _ _ => Script.readString_of_isText) namesMeant
    refine ⟨⟨i.kind, i.modulePath, i.level, i.line, i.names⟩, ?_, rfl⟩
    simp [Draft.readFields, Draft.readSlot, ImportFields.slots, Draft.readOnce, kindDraft, pathDraft, levelDraft,
      lineDraft, namesDraft, kindRead, pathRead, levelRead, lineRead, namesRead, Except.map]
  · refine ⟨⟨i.kind, i.modulePath, i.level, i.line, none⟩, ?_, ?_⟩
    · simp [Draft.readFields, Draft.readSlot, ImportFields.slots, Draft.readOnce, kindDraft, pathDraft, levelDraft,
        lineDraft, kindRead, pathRead, levelRead, lineRead, Except.map]
    · obtain ⟨kind, path, level, line, names⟩ := i
      cases empty
      rfl

theorem ModuleInfo.readType_of_isTyped {info : ModuleInfo} (typed : info.IsTyped s) :
    Draft.readOption Draft.readString s.draft = .ok info.fileType := by
  unfold IsTyped at typed
  split at typed
  · rename_i none
    rw [typed, none]
    rfl
  · rename_i text some
    rw [Script.draft_of_isText typed, some]
    rfl

theorem ModuleInfo.read_of_isWritten {info : ModuleInfo} (fits : info.Fits) (written : info.IsWritten s) :
    ModuleInfo.read s.draft = .ok info := by
  have importsRead {s : Script} (meant : s.IsList (fun s i => Import.IsWritten i s) info.imports) :
      Draft.readList Import.read s.draft = .ok info.imports :=
    Script.readList_of_isList (fun i member _ => Import.read_of_isWritten (fits i member)) meant
  refine Script.readRecord_of_isRecord written ModuleFields.swaps_slots rfl fun known fill => ?_
  obtain ⟨fileType, imports⟩ := info
  rcases fill.field_or_omitted with ⟨type, known, rfl, typeDraft, typed, fill⟩ | ⟨untyped, fill⟩ <;>
    rcases fill.field_or_omitted with ⟨list, _, rfl, listDraft, listMeant, fill⟩ | ⟨empty, fill⟩ <;>
    cases fill.eq_nil
  · refine ⟨⟨some fileType, some imports⟩, ?_, rfl⟩
    simp [Draft.readFields, Draft.readSlot, ModuleFields.slots, Draft.readOnce, typeDraft, readType_of_isTyped typed,
      listDraft, importsRead listMeant, Except.map]
  · cases empty
    refine ⟨⟨some fileType, none⟩, ?_, rfl⟩
    simp [Draft.readFields, Draft.readSlot, ModuleFields.slots, Draft.readOnce, typeDraft, readType_of_isTyped typed,
      Except.map]
  · cases untyped
    refine ⟨⟨none, some imports⟩, ?_, rfl⟩
    simp [Draft.readFields, Draft.readSlot, ModuleFields.slots, Draft.readOnce, listDraft, importsRead listMeant,
      Except.map]
  · cases untyped
    cases empty
    exact ⟨⟨none, none⟩, rfl, rfl⟩

namespace GraphDocument
variable {d : GraphDocument} {text : String}

private theorem readLists_of_areLists {m : OrderedMap String (List String)} (lists : AreLists m s) :
    DocumentFields.lists s.draft = .ok m :=
  Script.readMap_of_isMap (fun _ _ _ _ => Script.readList_of_isList fun _ _ _ => Script.readString_of_isText) lists

theorem read_of_isWritten (fits : d.Fits) (written : d.IsWritten s) : read s.draft = .ok d := by
  refine Script.readRecord_of_isRecord written DocumentFields.swaps_slots rfl fun known fill => ?_
  obtain ⟨nodes, _, rfl, nodesDraft, nodesMeant, fill⟩ := fill.exists_field
  obtain ⟨edges, _, rfl, edgesDraft, edgesMeant, fill⟩ := fill.exists_field
  obtain ⟨unresolved, _, rfl, unresolvedDraft, unresolvedMeant, fill⟩ := fill.exists_field
  obtain ⟨external, _, rfl, externalDraft, externalMeant, fill⟩ := fill.exists_field
  cases fill.eq_nil
  have nodesRead : Draft.readMap ModuleInfo.read nodes.value.value.draft = .ok d.nodes :=
    Script.readMap_of_isMap (fun id info member _ =>
      ModuleInfo.read_of_isWritten (fits id info (OrderedMap.mem_entries_iff.mp member))) nodesMeant
  refine ⟨⟨d.nodes, d.edges, d.unresolvedImports, d.externalDependencies⟩, ?_, rfl⟩
  simp [Draft.readFields, Draft.readSlot, DocumentFields.slots, Draft.readOnce, nodesDraft, edgesDraft,
    unresolvedDraft, externalDraft, nodesRead, readLists_of_areLists edgesMeant, readLists_of_areLists unresolvedMeant,
    readLists_of_areLists externalMeant, Except.map]

theorem ofText_of_isRendered (fits : d.Fits) (rendered : d.IsRendered text) : ofText text = .ok d := by
  obtain ⟨script, before, after, written, shape⟩ := rendered
  rw [ofText, shape, Script.ofText_text]
  simp only [read_of_isWritten fits written, if_true]

end GraphDocument

namespace Graph

/-- Reading a document does not depend on how it is written: every rendering of it, of which its text is one, gives
    the graph that it describes. -/
theorem ofText_rendered {d : GraphDocument} (fits : d.Fits) : d.IsRendered d.toJson.text ∧
    ∀ text, d.IsRendered text → ofText text = .ok (ofDocument d) ∧ ofText text = ofText d.toJson.text := by
  have read {text : String} (rendered : d.IsRendered text) : ofText text = .ok (ofDocument d) := by
    rw [ofText, GraphDocument.ofText_of_isRendered fits rendered]
    rfl
  refine ⟨d.isRendered_text, fun text rendered => ⟨read rendered, ?_⟩⟩
  rw [read rendered, read d.isRendered_text]

open Json (Digits HexDigit Letter Numeral lettersOf spells_lettersOf)

/-- A document whose module has a name outside of ASCII and imports one with a name beyond the basic plane. -/
def accented : GraphDocument where
  nodes := .ofList [("é", ⟨none, [⟨.absolute, "b", 0, 1, []⟩]⟩)]
  edges := .ofList [("é", ["😀"])]
  unresolvedImports := .empty
  externalDependencies := .empty

/-- A field on a line of its own. -/
private def field (name : List Letter) (value : Script) : Json.Field Script :=
  ⟨⟨[.newline, .space, .space], name, []⟩, ⟨[.space], value, []⟩⟩

private def digits (first : Nat) (more : List Nat) : Digits :=
  ⟨Fin.mk (first % 10) (Nat.mod_lt _ (by decide)), more.map fun d => Fin.mk (d % 10) (Nat.mod_lt _ (by decide))⟩

private theorem digits_alone (digit : Nat) (_ : (digits digit []).first = 0) : (digits digit []).more = [] := rfl

private def decimal (digit : Nat) : Numeral := ⟨false, digits digit [], digits_alone digit, none, none⟩

private def hex (value : Nat) (capital : Bool) : HexDigit := ⟨Fin.mk (value % 16) (Nat.mod_lt _ (by decide)), capital⟩

/-- A list that no document has: a number with sign, fraction and exponent, and an object whose name is half a
    surrogate pair and whose value is beyond all numbers. -/
private def oddities : Script :=
  .array [.tab] [⟨[], .number { decimal 0 with
        negative := true, fraction := some (digits 5 [0]), exponent := some ⟨false, some false, digits 0 [9]⟩ }, [.tab]⟩,
    ⟨[], .object [] [field [.unit (hex 13 false) (hex 8 false) (hex 0 false) (hex 0 false)]
      (.number { decimal 1 with exponent := some ⟨true, none, digits 9 [9, 9]⟩ })], []⟩]

/-- The import with its fields in reverse order behind an unknown one, its empty list of names written out. -/
private def importScript : Script :=
  .object [] (List.reverse [field (lettersOf "kind") (.string (lettersOf "absolute")),
    field (lettersOf "module_path") (.string [.unit (hex 0 false) (hex 0 false) (hex 6 false) (hex 2 false)]),
    field (lettersOf "relative_level") (.number (decimal 0)), field (lettersOf "line") (.number (decimal 1)),
    field (lettersOf "names") (.array [.space] []), field (lettersOf "alias") .null])

private def moduleScript : Script :=
  .object [] (List.reverse [field (lettersOf "file_type") .null,
    field (lettersOf "imports") (.array [] [⟨[], importScript, []⟩])])

/-- The list of the accented module, its names in hexadecimal digits of both forms. -/
private def edgesScript : Script :=
  .object [] [field [.unit (hex 0 false) (hex 0 false) (hex 14 true) (hex 9 false)]
    (.array [] [⟨[], .string [.unit (hex 13 false) (hex 8 false) (hex 3 false) (hex 13 false),
      .unit (hex 13 true) (hex 14 true) (hex 0 false) (hex 0 false)], []⟩])]

private def documentScript : Script :=
  .object [] (List.reverse [field (lettersOf "nodes") (.object [] [field (lettersOf "é") moduleScript]),
    field (lettersOf "edges") edgesScript, field (lettersOf "unresolved_imports") (.object [.carriageReturn] []),
    field (lettersOf "external_dependencies") (.object [] []), field (lettersOf "extra") oddities])

/-- The text of that script. -/
def accentedText : String := "\x7b
  \"extra\": [\t-0.50e+09\t,\x7b
  \"\\ud800\": 1E999\x7d],
  \"external_dependencies\": \x7b\x7d,
  \"unresolved_imports\": \x7b\r\x7d,
  \"edges\": \x7b
  \"\\u00E9\": [\"\\ud83d\\uDE00\"]\x7d,
  \"nodes\": \x7b
  \"é\": \x7b
  \"imports\": [\x7b
  \"alias\": null,
  \"names\": [ ],
  \"line\": 1,
  \"relative_level\": 0,
  \"module_path\": \"\\u0062\",
  \"kind\": \"absolute\"\x7d],
  \"file_type\": null\x7d\x7d\x7d
"

set_option maxRecDepth 4000 in
private theorem accentedText_eq : accentedText = .ofList (documentScript.text ++ Json.blanks [.newline]) := by
  rfl

private theorem isText_lettersOf (text : String) : (Script.string (lettersOf text)).IsText text :=
  ⟨_, rfl, spells_lettersOf text⟩

private theorem isNat_decimal {n : Nat} (small : n < 10) : (Script.number (decimal n)).IsNat n := by
  refine ⟨_, rfl, ?_⟩
  interval_cases n <;> rfl

private theorem importScript_isWritten : Import.IsWritten ⟨.absolute, "b", 0, 1, []⟩ importScript := by
  refine ⟨_, _, [_, _, _, _, _], [_], rfl, List.reverse_perm ([_, _, _, _, _] ++ [_]), ?_, ?_⟩
  · exact .written (spells_lettersOf _) (isText_lettersOf _) (.written (spells_lettersOf _) ⟨_, rfl, rfl⟩
      (.written (spells_lettersOf _) (isNat_decimal (by decide)) (.written (spells_lettersOf _) (isNat_decimal (by decide))
        (.written (spells_lettersOf _) ⟨_, _, rfl, .nil⟩ .nil))))
  · exact List.forall_mem_singleton.mpr ⟨"alias", spells_lettersOf _, by decide⟩

private theorem moduleScript_isWritten : ModuleInfo.IsWritten ⟨none, [⟨.absolute, "b", 0, 1, []⟩]⟩ moduleScript := by
  refine ⟨_, _, [_, _], [], rfl, List.reverse_perm ([_, _] ++ []), ?_, List.forall_mem_nil _⟩
  exact .written (spells_lettersOf _) rfl
    (.written (spells_lettersOf _) ⟨_, _, rfl, .cons importScript_isWritten .nil⟩ .nil)

private theorem edgesScript_areLists : GraphDocument.AreLists accented.edges edgesScript :=
  ⟨_, _, rfl, .cons ⟨rfl, _, _, rfl, .cons ⟨_, rfl, rfl⟩ .nil⟩ .nil⟩

private theorem documentScript_isWritten : accented.IsWritten documentScript := by
  refine ⟨_, _, [_, _, _, _], [_], rfl, List.reverse_perm ([_, _, _, _] ++ [_]), ?_, ?_⟩
  · exact .written (spells_lettersOf _) ⟨_, _, rfl, .cons ⟨spells_lettersOf _, moduleScript_isWritten⟩ .nil⟩
      (.written (spells_lettersOf _) edgesScript_areLists
        (.written (spells_lettersOf _) ⟨_, _, rfl, .nil⟩ (.written (spells_lettersOf _) ⟨_, _, rfl, .nil⟩ .nil)))
  · exact List.forall_mem_singleton.mpr ⟨"extra", spells_lettersOf _, by decide⟩

theorem ofText_rendered_accented : accented.Fits ∧ accented.IsRendered accented.toJson.text ∧
    accented.IsRendered accentedText ∧ ofText accentedText = .ok (ofDocument accented) ∧
    ofText accentedText = ofText accented.toJson.text := by
  have fits : accented.Fits := by
    intro id info found i member
    have listed : (id, info) ∈ accented.nodes.entries := OrderedMap.mem_entries_iff.mpr found
    cases List.mem_singleton.mp listed
    cases List.mem_singleton.mp member
    exact ⟨by decide, by decide⟩
  have rendered : accented.IsRendered accentedText := by
    refine ⟨documentScript, [], [.newline], documentScript_isWritten, ?_⟩
    rw [accentedText_eq, String.toList_ofList, Json.blanks_nil, List.nil_append]
  have read := ofText_rendered fits
  exact ⟨fits, read.1, rendered, read.2 accentedText rendered⟩

end Graph
end ModuleGraph
