import Mathlib.Tactic.MkIffOfInductiveProp
import ModuleGraph.Import.Tree
import ModuleGraph.Proofs.Text.Utf8

/-!
Nodes and the texts that they span. A node that spans a text of the source gives that text
(`Node.Spans.text_eq`), and of two nodes the one that begins first is on no later line
(`Node.Spans.row_le`).
-/
namespace ModuleGraph
open Text

/-- A node spans the text that stands behind another one in a source. -/
@[mk_iff]
structure Node.Spans (source : String) (n : Node) (front text : List Char) : Prop where
  inside : front ++ text <+: source.toList
  row_eq : n.row = front.count '\n'
  start_eq : n.start = byteCount front
  stop_eq : n.stop = byteCount (front ++ text)

namespace Node.Spans
variable {source : String} {n m : Node} {front front' text text' : List Char}

instance : Decidable (n.Spans source front text) := decidable_of_iff' _ (spans_iff source n front text)

/-- The bytes that a node spans are those of its text. -/
theorem text_eq (spans : n.Spans source front text) : n.text source.toUTF8.data = String.ofList text := by
  obtain ⟨back, whole⟩ := spans.inside
  have bytes : source.toUTF8.data.toList =
      utf8Bytes (.ofList front) ++ (utf8Bytes (.ofList text) ++ utf8Bytes (.ofList back)) := by
    have same : utf8Bytes source = _ := utf8Bytes_eq source
    rw [utf8Bytes] at same
    simp only [same, ← whole, utf8Bytes_eq, String.toList_ofList, List.flatMap_append, List.append_assoc]
  have start : n.start = (utf8Bytes (.ofList front)).length := spans.start_eq
  have stop : n.stop - n.start = (utf8Bytes (.ofList text)).length := by
    rw [spans.stop_eq, spans.start_eq, byteCount_append, Nat.add_sub_cancel_left]
    rfl
  have cut : (source.toUTF8.data.extract n.start n.stop).toList = utf8Bytes (.ofList text) := by
    rw [Array.toList_extract, List.extract_eq_take_drop, stop, start, bytes, List.drop_left, List.take_left]
  rw [Node.text, cut, ofUtf8?_utf8Bytes, Option.getD_some]

/-- Behind fewer bytes stands no more of the source. -/
theorem front_prefix (first : n.Spans source front text) (second : m.Spans source front' text')
    (le : n.start ≤ m.start) : front <+: front' := by
  have whole : front <+: source.toList := (List.prefix_append front text).trans first.inside
  have whole' : front' <+: source.toList := (List.prefix_append front' text').trans second.inside
  rcases List.prefix_or_prefix_of_prefix whole whole' with shorter | ⟨more, rfl⟩
  · exact shorter
  · rw [first.start_eq, second.start_eq, byteCount_append] at le
    have none : more = [] := by
      by_contra some
      have positive := byteCount_pos some
      omega
    simp [none]

theorem row_le (first : n.Spans source front text) (second : m.Spans source front' text')
    (le : n.start ≤ m.start) : n.row ≤ m.row := by
  rw [first.row_eq, second.row_eq]
  exact (first.front_prefix second le).sublist.count_le '\n'

end Node.Spans
end ModuleGraph
