import ModuleGraph.Import.Source
import ModuleGraph.Proofs.FileSystem.Flat
import ModuleGraph.Proofs.Import.Span
import ModuleGraph.Proofs.Import.Spelling
import ModuleGraph.Proofs.Import.Traversal
import ModuleGraph.Proofs.Text.Lines

/-!
What holds of every import that is read from valid source. What a grammar of Python documents of its trees
(`Node.Documented`) is that nodes stand where their texts do and that names and statements are made of what
they should be. From that every import names a module from the top or from where it stands, what it names is
free of white space, backslashes and empty names, and imports come in the order of their lines
(`Python.extractor_wellFormed`).
-/
namespace ModuleGraph
open Text

/-- An import as it is looked up. -/
structure Import.WellFormed (i : Import) : Prop where
  relative_iff : i.kind = .relative ↔ 1 ≤ i.level
  filled : i.kind = .absolute → i.modulePath ≠ ""
  undotted : i.modulePath.toList.head? ≠ some '.'
  clean : ∀ text ∈ i.modulePath :: i.names, ∀ c ∈ text.toList, isBlank c = false ∧ c ≠ '\\'
  named : ∀ name ∈ i.names, name ≠ ""

/-- The text of a node begins with a character that begins names. -/
def Node.IsNamed (source : String) (n : Node) : Prop :=
  ∃ front text, n.Spans source front text ∧ ∃ c ∈ text.head?, Python.IsNameStart c

/-- What is documented of the syntax tree of valid Python source, as far as import statements go. -/
structure Node.Documented (source : String) (tree : Node) : Prop where
  spans : ∀ n ∈ tree.nodes, ∃ front text, n.Spans source front text
  /-- The children of a node stand in it, one behind the other. -/
  within : ∀ n ∈ tree.nodes, ∀ child ∈ n.children, n.start ≤ child.start ∧ child.stop ≤ n.stop
  ordered : ∀ n ∈ tree.nodes, n.children.Pairwise (·.stop ≤ ·.start)
  /-- An import statement begins with a keyword. -/
  keyword : ∀ n ∈ tree.nodes, n.kind ∈ Python.importKinds → ∃ front text, n.Spans source front text ∧
    ("import".toList <+: text ∨ "from".toList <+: text)
  dotted : ∀ n ∈ tree.nodes, n.kind = "dotted_name" ∨ n.kind = "identifier" → n.IsNamed source
  /-- What goes by another name is a dotted name. -/
  aliased : ∀ n ∈ tree.nodes, n.kind = "aliased_import" → ∀ name ∈ n.childByField? "name", name.kind = "dotted_name"
  /-- Names are imported from a dotted name, or from a module behind dots. -/
  origin : ∀ n ∈ tree.nodes, n.kind = "import_from_statement" → ∀ module ∈ n.childByField? "module_name",
    module.kind = "dotted_name" ∨ module.kind = "relative_import"
  dots : ∀ n ∈ tree.nodes, n.kind = "relative_import" → ∃ dots ∈ n.childOfKind? "import_prefix",
    ∃ front text, dots.Spans source front text ∧ '.' ∈ text

namespace Node
variable {source : String} {tree n m : Node}

theorem mem_nodes_self (n : Node) : n ∈ n.nodes := by
  rw [n.nodes_eq]
  exact List.mem_cons_self

/-- What is below a node of a tree is in the tree. -/
theorem mem_nodes_trans (inside : n ∈ tree.nodes) (below : m ∈ n.nodes) : m ∈ tree.nodes := by
  induction tree using Node.induction with
  | step tree ih =>
    rw [tree.nodes_eq] at inside
    rcases List.mem_cons.mp inside with rfl | deeper
    · exact below
    · obtain ⟨branch, ofTree, there⟩ := List.mem_flatMap.mp deeper
      rw [tree.nodes_eq]
      exact List.mem_cons_of_mem _ (List.mem_flatMap.mpr ⟨branch, ofTree, ih branch ofTree there⟩)

theorem mem_nodes_of_child (inside : n ∈ tree.nodes) (below : m ∈ n.children) : m ∈ tree.nodes := by
  refine mem_nodes_trans inside ?_
  rw [n.nodes_eq]
  exact List.mem_cons_of_mem n (List.mem_flatMap.mpr ⟨m, below, m.mem_nodes_self⟩)

theorem child_of_childByField {name : String} (found : n.childByField? name = some m) : m ∈ n.children :=
  List.mem_of_find?_eq_some found

theorem child_of_childOfKind {kind : String} (found : n.childOfKind? kind = some m) :
    m ∈ n.children ∧ m.kind = kind :=
  ⟨List.mem_of_find?_eq_some found, by simpa using List.find?_some found⟩

namespace Documented

theorem start_le_stop (documented : tree.Documented source) (inside : n ∈ tree.nodes) : n.start ≤ n.stop := by
  obtain ⟨front, text, spans⟩ := documented.spans n inside
  rw [spans.start_eq, spans.stop_eq, byteCount_append]
  exact Nat.le_add_right _ _

/-- What is below a node stands in it. -/
theorem within_nodes (documented : tree.Documented source) (inside : n ∈ tree.nodes) (below : m ∈ n.nodes) :
    n.start ≤ m.start ∧ m.stop ≤ n.stop := by
  induction n using Node.induction with
  | step n ih =>
    rw [n.nodes_eq] at below
    rcases List.mem_cons.mp below with rfl | deeper
    · exact ⟨Nat.le_refl _, Nat.le_refl _⟩
    · obtain ⟨child, ofNode, there⟩ := List.mem_flatMap.mp deeper
      have outer := documented.within n inside child ofNode
      have inner := ih child ofNode (mem_nodes_of_child inside ofNode) there
      exact ⟨Nat.le_trans outer.1 inner.1, Nat.le_trans inner.2 outer.2⟩

/-- Nodes come in the order in which they begin. -/
theorem pairwise_start (documented : tree.Documented source) (inside : n ∈ tree.nodes) :
    n.nodes.Pairwise (·.start ≤ ·.start) := by
  induction n using Node.induction with
  | step n ih =>
    rw [n.nodes_eq, List.pairwise_cons]
    constructor
    · intro m deeper
      exact (documented.within_nodes inside (n.nodes_eq ▸ List.mem_cons_of_mem n deeper)).1
    · refine List.pairwise_flatMap.mpr ⟨fun child below => ih child below (mem_nodes_of_child inside below), ?_⟩
      refine (documented.ordered n inside).imp_of_mem fun {first second} isChild isChild' before m here m' there => ?_
      have ofFirst := mem_nodes_of_child inside isChild
      have ofSecond := mem_nodes_of_child inside isChild'
      calc m.start
        _ ≤ m.stop := documented.start_le_stop (mem_nodes_trans ofFirst here)
        _ ≤ first.stop := (documented.within_nodes ofFirst here).2
        _ ≤ second.start := before
        _ ≤ m'.start := (documented.within_nodes ofSecond there).1

/-- Nodes come in the order of their lines. -/
theorem pairwise_line (documented : tree.Documented source) : tree.nodes.Pairwise (·.line ≤ ·.line) := by
  refine (documented.pairwise_start tree.mem_nodes_self).imp_of_mem fun {n m} inside inside' before => ?_
  obtain ⟨_, _, first⟩ := documented.spans n inside
  obtain ⟨_, _, second⟩ := documented.spans m inside'
  exact Nat.succ_le_succ (first.row_le second before)

/-- An import statement stands on a line of the source. -/
theorem line_le (documented : tree.Documented source) (inside : n ∈ tree.nodes)
    (isImport : n.kind ∈ Python.importKinds) :
    n.line ≤ (lines source.toList).length := by
  obtain ⟨front, text, spans, begins⟩ := documented.keyword n inside isImport
  obtain ⟨c, rest, rfl⟩ : ∃ c rest, text = c :: rest := by
    rcases begins with ⟨rest, rfl⟩ | ⟨rest, rfl⟩ <;> exact ⟨_, _, rfl⟩
  obtain ⟨back, whole⟩ := spans.inside
  rw [line, spans.row_eq, ← whole, List.append_assoc, List.cons_append]
  exact count_lt_length_lines front (rest ++ back) c

end Documented
end Node

namespace Python
variable {source : String} {tree n : Node}

/-! ## Names -/

/-- A dotted name that can be looked up. -/
structure IsModulePath (path : String) : Prop where
  filled : path ≠ ""
  undotted : path.toList.head? ≠ some '.'
  clean : ∀ c ∈ path.toList, isBlank c = false ∧ c ≠ '\\'

/-- The text of a name is a dotted name. -/
theorem isModulePath_text (named : n.IsNamed source) : IsModulePath (normaliseDotted (n.text source.toUTF8.data)) := by
  obtain ⟨front, text, spans, c, head, starts⟩ := named
  obtain ⟨rest, rfl⟩ := List.head?_eq_some_iff.mp head
  have ofName : IsNameChar c := .inl starts
  have first : (normaliseDotted (n.text source.toUTF8.data)).toList.head? = some c := by
    rw [spans.text_eq, normaliseDotted_ofList, String.toList_ofList, List.filter_cons_of_pos ofName.isKept,
      List.head?_cons]
  refine ⟨fun empty => ?_, ?_, clean_normaliseDotted _⟩
  · rw [empty] at first
    cases first
  · rw [first]
    exact fun dot => ofName.ne (by decide) (Option.some.inj dot)

theorem isModulePath_of_dottedName {path : String} (documented : tree.Documented source) (inside : n ∈ tree.nodes)
    (found : dottedName? source.toUTF8.data n = some path) : IsModulePath path := by
  obtain ⟨target, chosen, named⟩ := Option.bind_eq_some_iff.mp found
  have isNamed : target.IsNamed source := by
    split at chosen
    · rename_i aliased
      have below := Node.child_of_childByField chosen
      exact documented.dotted target (Node.mem_nodes_of_child inside below)
        (.inl (documented.aliased n inside aliased target chosen))
    split at chosen
    · rename_i own
      cases chosen
      exact documented.dotted n inside own
    · cases chosen
  dsimp only at named
  split at named
  · cases named
  · cases named
    exact isModulePath_text isNamed

theorem isModulePath_of_mem_importedNames (documented : tree.Documented source) (inside : n ∈ tree.nodes) :
    ∀ path ∈ importedNames source.toUTF8.data n, IsModulePath path := by
  intro path member
  obtain ⟨name, listed, found⟩ := List.mem_filterMap.mp member
  exact isModulePath_of_dottedName documented (Node.mem_nodes_of_child inside (List.mem_of_mem_filter listed)) found

/-! ## Statements -/

/-- An import with a dotted name, or behind dots perhaps with none. -/
theorem wellFormed_of_isModulePath {kind : ImportKind} {path : String} {level line : Nat} {names : List String}
    (placed : kind = .relative ↔ 1 ≤ level) (named : IsModulePath path ∨ kind = .relative ∧ path = "")
    (taken : ∀ name ∈ names, IsModulePath name) : Import.WellFormed ⟨kind, path, level, line, names⟩ where
  relative_iff := placed
  filled absolute := by
    rcases named with dotted | ⟨relative, -⟩
    · exact dotted.filled
    · exact absurd (absolute.symm.trans relative) (by decide)
  undotted := by
    rcases named with dotted | ⟨-, rfl⟩
    · exact dotted.undotted
    · exact (by decide : ("" : String).toList.head? ≠ some '.')
  clean text member := by
    rcases List.mem_cons.mp member with rfl | inside
    · rcases named with dotted | ⟨-, rfl⟩
      · exact dotted.clean
      · exact List.forall_mem_nil _
    · exact (taken text inside).clean
  named name member := (taken name member).filled

theorem wellFormed_importFrom {i : Import} (documented : tree.Documented source) (inside : n ∈ tree.nodes)
    (kind : n.kind = "import_from_statement") (found : importFrom? source.toUTF8.data n = some i) : i.WellFormed := by
  obtain ⟨module, ofStatement, rfl⟩ := Option.map_eq_some_iff.mp found
  have below := Node.mem_nodes_of_child inside (Node.child_of_childByField ofStatement)
  have names := isModulePath_of_mem_importedNames documented inside
  rcases documented.origin n inside kind module ofStatement with dotted | relative
  · simp only [dotted, if_neg (by decide : ¬("dotted_name" : String) = "relative_import")]
    have path := isModulePath_text (documented.dotted module below (.inl dotted))
    exact wellFormed_of_isModulePath (by simp) (.inl path) names
  · simp only [relative, if_true]
    obtain ⟨dots, ofModule, front, text, spans, some⟩ := documented.dots module below relative
    have ofModule : module.childOfKind? "import_prefix" = .some dots := ofModule
    have level : 1 ≤ relativeLevel source.toUTF8.data module := by
      simp only [relativeLevel, ofModule, spans.text_eq, String.toList_ofList]
      exact List.count_pos_iff.mpr some
    refine wellFormed_of_isModulePath ⟨fun _ => level, fun _ => rfl⟩ ?_ names
    unfold relativePath
    split
    · rename_i name behind
      obtain ⟨child, dotted⟩ := Node.child_of_childOfKind behind
      exact .inl (isModulePath_text (documented.dotted name (Node.mem_nodes_of_child below child) (.inl dotted)))
    · exact .inr ⟨rfl, rfl⟩

/-- A visit of a node yields well-formed imports with its line. -/
theorem wellFormed_visit {i : Import} (documented : tree.Documented source) (inside : n ∈ tree.nodes)
    (member : i ∈ (visit source.toUTF8.data n).1) : i.WellFormed ∧ i.line = n.line := by
  have names := isModulePath_of_mem_importedNames documented inside
  unfold visit at member
  split at member
  · obtain ⟨path, named, rfl⟩ := List.mem_map.mp member
    exact ⟨wellFormed_of_isModulePath (by simp) (.inl (names path named)) (List.forall_mem_nil _), rfl⟩
  · rename_i kind
    have found := Option.mem_toList.mp member
    refine ⟨wellFormed_importFrom documented inside kind found, ?_⟩
    obtain ⟨module, -, rfl⟩ := Option.map_eq_some_iff.mp found
    split <;> rfl
  · rw [List.mem_singleton.mp member]
    have kept : normaliseDotted "__future__" = "__future__" := by decide
    have future : IsModulePath "__future__" := ⟨by decide, by decide, kept ▸ clean_normaliseDotted "__future__"⟩
    exact ⟨wellFormed_of_isModulePath (by simp) (.inl future) names, rfl⟩
  · cases member

/-! ## Sources -/

/-- The imports of a valid source are well formed, stand on lines of the source and come in their order. -/
theorem collectImports_wellFormed (documented : tree.Documented source) :
    (∀ i ∈ collectImports source tree, i.WellFormed ∧ 1 ≤ i.line ∧ i.line ≤ (lines source.toList).length) ∧
      (collectImports source tree).Pairwise (·.line ≤ ·.line) := by
  have inTree : ∀ n ∈ statements tree, n ∈ tree.nodes := fun n member => (statements_sublist tree).subset member
  rw [collectImports_eq, importsIn]
  constructor
  · intro i member
    obtain ⟨n, statement, found⟩ := List.mem_flatMap.mp member
    obtain ⟨wellFormed, line⟩ := wellFormed_visit documented (inTree n statement) found
    rw [line]
    exact ⟨wellFormed, Nat.succ_pos _, documented.line_le (inTree n statement) (isImport_of_mem_statements statement)⟩
  · refine List.pairwise_flatMap.mpr ⟨fun n statement => List.pairwise_of_forall_mem_list ?_, ?_⟩
    · intro i here j there
      obtain ⟨-, line⟩ := wellFormed_visit documented (inTree n statement) here
      obtain ⟨-, line'⟩ := wellFormed_visit documented (inTree n statement) there
      exact Nat.le_of_eq (line.trans line'.symm)
    · refine (documented.pairwise_line.sublist (statements_sublist tree)).imp_of_mem ?_
      intro n m first second before i here j there
      obtain ⟨-, line⟩ := wellFormed_visit documented (inTree n first) here
      obtain ⟨-, line'⟩ := wellFormed_visit documented (inTree m second) there
      rw [line, line']
      exact before

/-- Whatever is extracted from a file whose source is valid is well formed. -/
theorem extractor_wellFormed {grammar : Grammar} {fs : FileSystem} {path : Path} {imports : List Import}
    (valid : ∀ tree, grammar source = some tree → tree.Documented source) (read : fs.readText path = .ok source)
    (extracted : extractor (.ok grammar) fs path = .ok imports) :
    (∀ i ∈ imports, i.WellFormed ∧ 1 ≤ i.line ∧ i.line ≤ (lines source.toList).length) ∧
      imports.Pairwise (·.line ≤ ·.line) := by
  simp only [extractor, sourceText, read, bind, Except.bind] at extracted
  split at extracted
  · rename_i tree parsed
    rw [← Except.ok.inj extracted]
    exact collectImports_wellFormed (valid tree parsed)
  · cases extracted

/-- A delegation, an import out of the package that the source is in, over two lines, and one from the top. -/
def delegatingSource : String := "yield from g\nfrom . import (a as b,\n c,)\nimport os.path\n"

/-- The syntax tree of the source. -/
def delegatingTree : Node :=
  ⟨"module", none, 0, 0, 56, [
    ⟨"expression_statement", none, 0, 0, 12, [
      ⟨"yield", none, 0, 0, 12, [
        ⟨"yield", none, 0, 0, 5, []⟩, ⟨"from", none, 0, 6, 10, []⟩, ⟨"identifier", none, 0, 11, 12, []⟩]⟩]⟩,
    ⟨"import_from_statement", none, 1, 13, 40, [
      ⟨"from", none, 1, 13, 17, []⟩,
      ⟨"relative_import", some "module_name", 1, 18, 19, [
        ⟨"import_prefix", none, 1, 18, 19, [⟨".", none, 1, 18, 19, []⟩]⟩]⟩,
      ⟨"import", none, 1, 20, 26, []⟩, ⟨"(", none, 1, 27, 28, []⟩,
      ⟨"aliased_import", some "name", 1, 28, 34, [
        ⟨"dotted_name", some "name", 1, 28, 29, [⟨"identifier", none, 1, 28, 29, []⟩]⟩,
        ⟨"as", none, 1, 30, 32, []⟩, ⟨"identifier", some "alias", 1, 33, 34, []⟩]⟩,
      ⟨",", none, 1, 34, 35, []⟩,
      ⟨"dotted_name", some "name", 2, 37, 38, [⟨"identifier", none, 2, 37, 38, []⟩]⟩,
      ⟨",", none, 2, 38, 39, []⟩, ⟨")", none, 2, 39, 40, []⟩]⟩,
    ⟨"import_statement", none, 3, 41, 55, [
      ⟨"import", none, 3, 41, 47, []⟩,
      ⟨"dotted_name", some "name", 3, 48, 55, [
        ⟨"identifier", none, 3, 48, 50, []⟩, ⟨".", none, 3, 50, 51, []⟩, ⟨"identifier", none, 3, 51, 55, []⟩]⟩]⟩]⟩

private theorem documented_delegating : delegatingTree.Documented delegatingSource := by
  let front (n : Node) : List Char := delegatingSource.toList.take n.start
  let text (n : Node) : List Char := (delegatingSource.toList.drop n.start).take (n.stop - n.start)
  have spans : ∀ n ∈ delegatingTree.nodes, n.Spans delegatingSource (front n) (text n) := by decide
  constructor
  case spans => exact fun n member => ⟨_, _, spans n member⟩
  case within => decide
  case ordered => decide
  case keyword =>
    have begins : ∀ n ∈ delegatingTree.nodes, n.kind ∈ importKinds →
        "import".toList <+: text n ∨ "from".toList <+: text n := by decide
    exact fun n member isImport => ⟨_, _, spans n member, begins n member isImport⟩
  case dotted =>
    have begins : ∀ n ∈ delegatingTree.nodes, n.kind = "dotted_name" ∨ n.kind = "identifier" →
        (text n).head?.any (fun c => IsNameStart c) = true := by decide
    intro n member named
    obtain ⟨c, head, starts⟩ := (Option.any_eq_true ..).mp (begins n member named)
    exact ⟨_, _, spans n member, c, head, of_decide_eq_true starts⟩
  case aliased => decide
  case origin => decide
  case dots =>
    have dotted : ∀ n ∈ delegatingTree.nodes, n.kind = "relative_import" →
        ∃ dots ∈ n.childOfKind? "import_prefix", '.' ∈ text dots := by decide
    intro n member relative
    obtain ⟨dots, found, some⟩ := dotted n member relative
    have below := Node.child_of_childOfKind found
    exact ⟨dots, found, _, _, spans dots (Node.mem_nodes_of_child member below.1), some⟩

/-- A grammar that knows one source. -/
def delegatingGrammar : Grammar := fun source => if source = delegatingSource then some delegatingTree else none

theorem extractor_wellFormed_delegating :
    let files := FileSystem.flat (.ofList [("a.py", utf8Bytes delegatingSource)])
    let imports : List Import := [⟨.relative, "", 1, 2, ["a", "c"]⟩, ⟨.absolute, "os.path", 0, 4, []⟩]
    (∀ tree, delegatingGrammar delegatingSource = some tree → tree.Documented delegatingSource) ∧
      files.readText ⟨"/p/a.py"⟩ = .ok delegatingSource ∧
      extractor (.ok delegatingGrammar) files ⟨"/p/a.py"⟩ = .ok imports ∧
      (∀ i ∈ imports, i.WellFormed ∧ 1 ≤ i.line ∧ i.line ≤ (lines delegatingSource.toList).length) ∧
        imports.Pairwise (·.line ≤ ·.line) := by
  intro files imports
  have valid : ∀ tree, delegatingGrammar delegatingSource = some tree → tree.Documented delegatingSource := by
    intro tree parsed
    cases (if_pos rfl).symm.trans parsed
    exact documented_delegating
  have read : files.readText ⟨"/p/a.py"⟩ = .ok delegatingSource :=
    FileSystem.readText_of_read (FileSystem.read_flat "a.py" (by decide) rfl (by decide))
  have extracted : extractor (.ok delegatingGrammar) files ⟨"/p/a.py"⟩ = .ok imports := by
    rw [extractor_of_read read (if_pos rfl)]
    decide
  exact ⟨valid, read, extracted, extractor_wellFormed valid read extracted⟩

end Python
end ModuleGraph
