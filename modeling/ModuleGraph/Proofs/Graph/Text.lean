import ModuleGraph.Proofs.Graph.Document
import ModuleGraph.Proofs.Json.Reading

/-!
The text of a graph. A document whose numbers take at most 64 bits is read back from its text
(`ofText_text`), and every document that was read has such numbers (`fits_of_ofText`). So every
graph that a program can hold is written to a text that is read back to the same document
(`ofText_toText`).
-/
namespace ModuleGraph
open Json (Draft ReadError)

/-- The numbers of an import take at most 64 bits. -/
structure Import.Fits (i : Import) : Prop where
  level : i.level < wordLimit
  line : i.line < wordLimit

def ModuleInfo.Fits (info : ModuleInfo) : Prop := ∀ i ∈ info.imports, i.Fits

def GraphDocument.Fits (d : GraphDocument) : Prop := ∀ id info, d.nodes.get? id = some info → info.Fits

/-! ## Reading back -/

theorem ImportKind.read_draft (kind : ImportKind) :
    ImportKind.read (Json.string kind.text).draft = .ok kind := by
  cases kind <;> rfl

theorem Import.read_draft {i : Import} (fits : i.Fits) : Import.read i.toJson.draft = .ok i := by
  obtain ⟨kind, modulePath, level, line, names⟩ := i
  have levelRead := Draft.readNat_draft fits.level
  have lineRead := Draft.readNat_draft fits.line
  by_cases empty : names = []
  · subst empty
    refine Draft.readRecord_object (s := ⟨kind, modulePath, level, line, none⟩) ?_ rfl
    simp [Json.draftFields, Draft.readFields, Draft.readSlot, ImportFields.slots, Draft.readOnce,
      ImportKind.read_draft, levelRead, lineRead, Except.map]
  · refine Draft.readRecord_object (s := ⟨kind, modulePath, level, line, names⟩) ?_ rfl
    simp [empty, Json.draftFields, Draft.readFields, Draft.readSlot, ImportFields.slots, Draft.readOnce,
      ImportKind.read_draft, levelRead, lineRead, Except.map]

theorem ModuleInfo.read_draft {info : ModuleInfo} (fits : info.Fits) :
    ModuleInfo.read info.toJson.draft = .ok info := by
  obtain ⟨fileType, imports⟩ := info
  have importsRead : Draft.readList Import.read (Json.array (imports.map Import.toJson)).draft = .ok imports :=
    Draft.readList_draft fun i member => Import.read_draft (fits i member)
  have typeRead (text : String) :
      Draft.readOption Draft.readString (Json.string text).draft = .ok (some text) := rfl
  cases fileType with
  | none =>
    by_cases empty : imports = []
    · subst empty
      exact Draft.readRecord_object (s := ⟨none, none⟩) rfl rfl
    · refine Draft.readRecord_object (s := ⟨none, imports⟩) ?_ rfl
      simp [empty, Json.draftFields, Draft.readFields, Draft.readSlot, ModuleFields.slots, Draft.readOnce,
        importsRead, Except.map]
  | some text =>
    by_cases empty : imports = []
    · subst empty
      refine Draft.readRecord_object (s := ⟨some text, none⟩) ?_ rfl
      simp [Json.draftFields, Draft.readFields, Draft.readSlot, ModuleFields.slots, Draft.readOnce,
        typeRead, Except.map]
    · refine Draft.readRecord_object (s := ⟨some text, imports⟩) ?_ rfl
      simp [empty, Json.draftFields, Draft.readFields, Draft.readSlot, ModuleFields.slots, Draft.readOnce,
        typeRead, importsRead, Except.map]

namespace GraphDocument
variable {d : GraphDocument}

theorem read_draft (fits : d.Fits) : read d.toJson.draft = .ok d := by
  obtain ⟨nodes, edges, unresolved, external⟩ := d
  have nodesRead : Draft.readMap ModuleInfo.read (nodes.toJson ModuleInfo.toJson).draft = .ok nodes :=
    Draft.readMap_draft fun id info member =>
      ModuleInfo.read_draft (fits id info (OrderedMap.mem_entries_iff.mp member))
  have listsRead (m : OrderedMap String (List String)) :
      DocumentFields.lists (m.toJson Json.strings).draft = .ok m :=
    Draft.readMap_draft fun _ names _ => Draft.readList_strings names
  refine Draft.readRecord_object (s := ⟨nodes, edges, unresolved, external⟩) ?_ rfl
  simp [Json.draftFields, Draft.readFields, Draft.readSlot, DocumentFields.slots, Draft.readOnce,
    nodesRead, listsRead, Except.map]

/-! ## Exact numbers -/

private theorem exact_strings (texts : List String) : (Json.strings texts).Exact := by
  rw [Json.strings, Json.Exact, Json.exactItems_iff]
  intro item member
  obtain ⟨text, -, rfl⟩ := List.mem_map.mp member
  rw [Json.Exact]
  trivial

private theorem exact_import {i : Import} (fits : i.Fits) : i.toJson.Exact := by
  by_cases empty : i.names = []
  · simp [Import.toJson, empty, Json.Exact, Json.ExactFields, fits.level, fits.line]
  · simp [Import.toJson, empty, Json.Exact, Json.ExactFields, fits.level, fits.line, exact_strings]

private theorem exact_info {info : ModuleInfo} (fits : info.Fits) : info.toJson.Exact := by
  have imports : Json.ExactItems (info.imports.map Import.toJson) := by
    rw [Json.exactItems_iff]
    intro item member
    obtain ⟨i, listed, rfl⟩ := List.mem_map.mp member
    exact exact_import (fits i listed)
  cases type : info.fileType <;> by_cases empty : info.imports = [] <;>
    simp [ModuleInfo.toJson, type, empty, Json.Exact, Json.ExactFields, imports]

private theorem exact_map {β : Type} {value : β → Json} {m : OrderedMap String β}
    (each : ∀ key v, (key, v) ∈ m.entries → (value v).Exact) : (m.toJson value).Exact := by
  rw [OrderedMap.toJson, Json.Exact, Json.exactFields_iff]
  intro name json member
  obtain ⟨⟨key, v⟩, listed, same⟩ := List.mem_map.mp member
  cases same
  exact each name v listed

private theorem exact_toJson (fits : d.Fits) : d.toJson.Exact := by
  have nodes : (d.nodes.toJson ModuleInfo.toJson).Exact :=
    exact_map fun id info member => exact_info (fits id info (OrderedMap.mem_entries_iff.mp member))
  have lists (m : OrderedMap String (List String)) : (m.toJson Json.strings).Exact :=
    exact_map fun _ names _ => exact_strings names
  simp [toJson, Json.Exact, Json.ExactFields, nodes, lists]

/-- A document is read back from its text. -/
theorem ofText_text (fits : d.Fits) : ofText d.toJson.text = .ok d := by
  rw [ofText, Json.ofText_render d.toJson (exact_toJson fits)]
  simp [read_draft fits]

end GraphDocument

/-! ## Documents that were read -/

theorem Import.fits_of_read {d : Draft} {i : Import} (accept : Import.read d = .ok i) : i.Fits := by
  refine Draft.of_readRecord (P := Import.Fits)
    (I := fun f => (∀ n, f.level = some n → n < wordLimit) ∧ ∀ n, f.line = some n → n < wordLimit)
    ?_ ?_ (by simp) accept
  · intro slot member f value t fits stepped
    simp only [ImportFields.slots, List.mem_cons, List.not_mem_nil, or_false] at member
    rcases member with rfl | rfl | rfl | rfl | rfl <;>
      obtain ⟨b, found, rfl⟩ := Draft.of_readOnce stepped
    · exact fits
    · exact fits
    · refine ⟨fun n same => ?_, fits.2⟩
      cases same
      exact Draft.of_readNat found
    · refine ⟨fits.1, fun n same => ?_⟩
      cases same
      exact Draft.of_readNat found
    · exact fits
  · intro f i fits complete
    simp only [ImportFields.done, bind, Option.bind_eq_some_iff, pure, Option.some.injEq] at complete
    obtain ⟨kind, -, modulePath, -, level, levelRead, line, lineRead, rfl⟩ := complete
    exact ⟨fits.1 level levelRead, fits.2 line lineRead⟩

theorem ModuleInfo.fits_of_read {d : Draft} {info : ModuleInfo} (accept : ModuleInfo.read d = .ok info) :
    info.Fits := by
  refine Draft.of_readRecord (P := ModuleInfo.Fits)
    (I := fun f => ∀ imports, f.imports = some imports → ∀ i ∈ imports, i.Fits) ?_ ?_ (by simp) accept
  · intro slot member f value t fits stepped
    simp only [ModuleFields.slots, List.mem_cons, List.not_mem_nil, or_false] at member
    rcases member with rfl | rfl <;> obtain ⟨b, found, rfl⟩ := Draft.of_readOnce stepped
    · exact fits
    · intro imports same
      cases same
      exact Draft.of_readList (fun _ _ => Import.fits_of_read) found
  · intro f info fits complete
    cases complete
    intro i member
    cases read : f.imports with
    | none => simp [read] at member
    | some imports => exact fits imports read i (by simpa [read] using member)

theorem GraphDocument.fits_of_read {d : Draft} {document : GraphDocument}
    (accept : GraphDocument.read d = .ok document) : document.Fits := by
  refine Draft.of_readRecord (P := GraphDocument.Fits)
    (I := fun f => ∀ nodes, f.nodes = some nodes → ∀ id info, nodes.get? id = some info → info.Fits)
    ?_ ?_ (by simp) accept
  · intro slot member f value t fits stepped
    simp only [DocumentFields.slots, List.mem_cons, List.not_mem_nil, or_false] at member
    rcases member with rfl | rfl | rfl | rfl <;> obtain ⟨b, found, rfl⟩ := Draft.of_readOnce stepped
    · intro nodes same
      cases same
      exact Draft.of_readMap (fun _ _ => ModuleInfo.fits_of_read) found
    · exact fits
    · exact fits
    · exact fits
  · intro f document fits complete
    simp only [DocumentFields.done, bind, Option.bind_eq_some_iff, pure, Option.some.injEq] at complete
    obtain ⟨nodes, nodesRead, edges, -, unresolved, -, external, -, rfl⟩ := complete
    exact fits nodes nodesRead

theorem GraphDocument.fits_of_ofText {text : String} {d : GraphDocument} (accept : ofText text = .ok d) :
    d.Fits := by
  rw [ofText] at accept
  cases found : read (Draft.ofText text.toList).1 with
  | error e => simp [found] at accept
  | ok document =>
    simp only [found] at accept
    split at accept
    · cases accept
      exact fits_of_read found
    · cases accept

/-! ## Graphs -/

/-- What an addition makes known of modules has numbers of at most 64 bits. -/
def GraphAddition.Fits (a : GraphAddition) : Prop := ∀ id info, (id, info) ∈ a.modules → info.Fits

/-- What a change adds by itself has numbers of at most 64 bits; texts may be any. -/
def GraphChange.Fits : GraphChange → Prop
  | .add a => a.Fits
  | .load _ => True

namespace Graph

private theorem fits_additions {d : GraphDocument} (fits : d.Fits) : ∀ a ∈ d.additions, a.Fits := by
  intro a member id info named
  rcases List.mem_append.mp member with node | edge
  · obtain ⟨⟨other, known⟩, listed, rfl⟩ := List.mem_map.mp node
    cases List.mem_singleton.mp named
    exact fits id info (OrderedMap.mem_entries_iff.mp listed)
  · obtain ⟨⟨source, targets⟩, -, inside⟩ := List.mem_flatMap.mp edge
    obtain ⟨target, -, rfl⟩ := List.mem_map.mp inside
    have bare : info = .bare := by
      simp only [GraphAddition.modules, List.mem_cons, Prod.mk.injEq, List.not_mem_nil, or_false] at named
      exact named.elim And.right And.right
    subst bare
    exact fun i known => absurd known List.not_mem_nil

theorem fits_history {changes : List GraphChange} (fits : ∀ c ∈ changes, c.Fits) :
    ∀ a ∈ history changes, a.Fits := by
  induction changes using List.reverseRecOn with
  | nil => simp [history]
  | append_singleton changes last ih =>
    have before := ih fun c member => fits c (List.mem_append_left _ member)
    have new := fits last (by simp)
    rw [history_concat]
    cases last with
    | add a =>
      intro b member
      rcases List.mem_append.mp member with old | same
      · exact before b old
      · exact List.mem_singleton.mp same ▸ new
    | load text =>
      rw [remember]
      split
      · rename_i document accept
        exact fits_additions (GraphDocument.fits_of_ofText accept)
      · exact before

/-- What is known of a module is what some addition said of it. -/
theorem fits_toDocument {changes : List GraphChange} (fits : ∀ c ∈ changes, c.Fits) :
    (ofChanges changes).toDocument.Fits := by
  intro id info found
  have recalled : ((history changes).flatMap (·.modules)).lookup id = some info :=
    ((recalls_ofChanges changes).node id).symm.trans found
  obtain ⟨front, back, whole, -⟩ := List.lookup_eq_some_iff.mp recalled
  have listed : (id, info) ∈ (history changes).flatMap (·.modules) := by simp [whole]
  obtain ⟨a, member, named⟩ := List.mem_flatMap.mp listed
  exact fits_history fits a member id info named

/-- Every graph that a program can hold is written to a text that is read, and the graph that is read
    has the same document and the same text. -/
theorem ofText_toText_ofChanges (changes : List GraphChange) (fits : ∀ c ∈ changes, c.Fits) :
    ∃ loaded, ofText (ofChanges changes).toText = .ok loaded ∧
      loaded.toText = (ofChanges changes).toText ∧ loaded.toDocument = (ofChanges changes).toDocument := by
  have document : (ofDocument (ofChanges changes).toDocument).toDocument = (ofChanges changes).toDocument :=
    toDocument_ofDocument (wellIndexed_ofChanges changes).isNormal_toDocument
  refine ⟨ofDocument (ofChanges changes).toDocument, ?_, ?_, document⟩
  · rw [ofText, toText, GraphDocument.ofText_text (fits_toDocument fits)]
    rfl
  · rw [toText, toText, document]

/-- An import that needs every kind of escape and holds the largest numbers. -/
def escapedImport : Import :=
  ⟨.relative, "\t\x1f", wordLimit - 1, wordLimit - 1, ["\x08", ""]⟩

/-- A graph of a module with such an import and a target that is not scanned, with records, behind a
    text that is no document. -/
def escapedChanges : List GraphChange :=
  [.load "\x7b\x7d", .add (.node "a\"\\\né" ⟨some "", [escapedImport]⟩),
    .add (.edge "a\"\\\né" "b" ⟨"b", .absolute, 1⟩), .add (.external "b" "os"),
    .add (.unresolved "b" "x.y")]

theorem ofText_toText_escaped : (∀ c ∈ escapedChanges, c.Fits) ∧
    ∃ loaded, ofText (ofChanges escapedChanges).toText = .ok loaded ∧
      loaded.toText = (ofChanges escapedChanges).toText ∧
      loaded.toDocument = (ofChanges escapedChanges).toDocument := by
  have numbers : escapedImport.Fits := ⟨by decide, by decide⟩
  have bare : ModuleInfo.bare.Fits := fun i known => absurd known List.not_mem_nil
  have fits : ∀ c ∈ escapedChanges, c.Fits := by
    simp only [escapedChanges, List.forall_mem_cons]
    refine ⟨trivial, ?_, ?_, ?_, ?_, by simp⟩ <;> intro id info named <;>
      simp only [GraphAddition.modules, List.mem_cons, Prod.mk.injEq, List.not_mem_nil, or_false] at named
    · obtain ⟨-, rfl⟩ := named
      exact fun i listed => List.mem_singleton.mp listed ▸ numbers
    · rcases named with ⟨-, rfl⟩ | ⟨-, rfl⟩ <;> exact bare
  exact ⟨fits, ofText_toText_ofChanges escapedChanges fits⟩

end Graph
end ModuleGraph
