import ModuleGraph.Import.Source
import ModuleGraph.Proofs.FileSystem.Flat
import ModuleGraph.Proofs.Import.Syntax
import ModuleGraph.Proofs.Text.Split

/-!
Extraction inverts writing: from a file that holds a program as it is written exactly the imports of the
program are read, from top to bottom, each with the line of its statement (`Block.extractor_source`). Gaps
do not show in dotted names (`Dotted.normaliseDotted_text`), a statement yields its own imports
(`Statement.IsNode.importsIn_eq`), and a body yields what its statements do, however deep it stands
(`Block.AreNodes.flatMap_importsIn`).
-/
namespace ModuleGraph.Python
open Text
variable {wide : Bool} {source : String} {front : List Char} {n : Node} {ns : List Node}

/-! ## Names -/

theorem filter_fill (gap : Gap false) : (fill gap).filter isKept = [] := by
  refine List.filter_eq_nil_iff.mpr fun c member => ?_
  obtain ⟨f, -, inside⟩ := List.mem_flatMap.mp member
  cases f with
  | blank tab => cases tab <;> rw [List.mem_singleton.mp inside] <;> decide
  | joint =>
    rcases List.mem_pair.mp inside with rfl | rfl <;> decide

theorem Identifier.filter_text (name : Identifier) : name.text.filter isKept = name.text :=
  List.filter_eq_self.mpr fun c member => (name.nameChars c member).isKept

theorem Dotted.filter_text (d : Dotted) : d.text.filter isKept = joinWith '.' d.parts := by
  obtain ⟨first, more⟩ := d
  induction more generalizing first with
  | nil => simp [text, parts, joinWith, first.filter_text]
  | cons part rest ih =>
    obtain ⟨before, after, name⟩ := part
    have dot : isKept '.' = true := by decide
    have behind := ih name
    simp only [text, parts, List.filter_append, name.filter_text] at behind
    simp only [text, parts, List.flatMap_cons, List.map_cons, joinWith_cons_cons, ← behind, List.filter_append,
      first.filter_text, filter_fill, List.filter_cons_of_pos dot, name.filter_text, List.nil_append, List.cons_append,
      List.append_assoc]

/-- Gaps around the dots do not show. -/
theorem Dotted.normaliseDotted_text (d : Dotted) : normaliseDotted (.ofList d.text) = d.path := by
  rw [normaliseDotted_ofList, d.filter_text, path]

theorem Dotted.path_ne_empty (d : Dotted) : d.path ≠ "" := by
  intro empty
  obtain ⟨c, first, -⟩ := d.first.begins
  have inside : c ∈ joinWith '.' d.parts := mem_joinWith_of_mem List.mem_cons_self (List.mem_of_mem_head? first)
  have none : joinWith '.' d.parts = [] := by simpa [path] using congrArg String.toList empty
  rw [none] at inside
  cases inside

theorem Dotted.isBlank_of_mem_path (d : Dotted) : ∀ c ∈ d.path.toList, isBlank c = false := by
  rw [← d.normaliseDotted_text]
  exact fun c member => (clean_normaliseDotted _ c member).1

theorem Dotted.IsNode.normalised {d : Dotted} (node : d.IsNode source front n) :
    normaliseDotted (n.text source.toUTF8.data) = d.path := by
  rw [node.spans.text_eq, d.normaliseDotted_text]

theorem Dotted.IsNode.dottedName_eq {d : Dotted} (node : d.IsNode source front n) :
    dottedName? source.toUTF8.data n = some d.path := by
  have own : ¬("dotted_name" : String) = "aliased_import" := by decide
  simp only [dottedName?, node.kind, if_neg own, true_or, if_true, Option.bind_some, node.normalised,
    if_neg d.path_ne_empty]

/-- What goes by another name is read by its own. -/
theorem Item.IsNode.dottedName_eq {i : Item wide} (node : i.IsNode source front n) :
    dottedName? source.toUTF8.data n = some i.name.path := by
  cases node with
  | plain bare named => exact named.dottedName_eq
  | aliased goesBy kind first named =>
    simp only [dottedName?, kind, if_true, first, Option.bind_some, named.normalised, if_neg i.name.path_ne_empty]

theorem map_placed (front : List Char) (first : Item wide) (more : List (Gap wide × Gap wide × Item wide)) :
    (placed front first more).map (·.2) = (Items.mk first more).toList := by
  induction more generalizing front first with
  | nil => rfl
  | cons part rest ih =>
    obtain ⟨before, after, next⟩ := part
    rw [placed, List.map_cons, ih]
    rfl

theorem Items.AreNodes.filterMap_eq {items : Items wide} (nodes : items.AreNodes source front ns) :
    ns.filterMap (dottedName? source.toUTF8.data) = items.paths := by
  have named {ps : List (List Char × Item wide)} {ns : List Node}
      (each : List.Forall₂ (fun p n => p.2.IsNode source p.1 n) ps ns) :
      ns.filterMap (dottedName? source.toUTF8.data) = (ps.map (·.2)).map (·.name.path) := by
    induction each with
    | nil => rfl
    | cons first _ ih => rw [List.filterMap_cons_some first.dottedName_eq, ih, List.map_cons, List.map_cons]
  rw [named nodes, map_placed]
  rfl

theorem Taken.AreNodes.filterMap_eq {taken : Taken} (nodes : taken.AreNodes source front ns) :
    ns.filterMap (dottedName? source.toUTF8.data) = taken.names := by
  cases taken with
  | star before =>
    rw [show ns = [] from nodes]
    rfl
  | bare before items => exact Items.AreNodes.filterMap_eq nodes
  | enclosed before first items comma last => exact Items.AreNodes.filterMap_eq nodes

/-! ## Modules -/

/-- Dots are counted, whatever stands between them. -/
theorem count_dots (more : List (Gap false)) : (dots more).count '.' = more.length + 1 := by
  have none (gap : Gap false) : (fill gap).count '.' = 0 := by
    refine List.count_eq_zero.mpr fun member => ?_
    have kept : '.' ∈ (fill gap).filter isKept := List.mem_filter.mpr ⟨member, by decide⟩
    rw [filter_fill] at kept
    cases kept
  rw [dots, List.count_cons_self]
  induction more with
  | nil => rfl
  | cons gap rest ih =>
    rw [List.flatMap_cons, List.count_append, List.count_append, none, List.length_cons]
    simp only [List.count_singleton_self] at ih ⊢
    omega

theorem importFrom_eq {module : Node} {origin : Origin} {taken : Taken} {names : List Char}
    (first : n.childByField? "module_name" = some module) (ofModule : origin.IsNode source front module)
    (listed : taken.AreNodes source names (n.childrenByField "name")) :
    importFrom? source.toUTF8.data n =
      some ⟨if origin.level = 0 then .absolute else .relative, origin.path, origin.level, n.line, taken.names⟩ := by
  have read : importedNames source.toUTF8.data n = taken.names := listed.filterMap_eq
  rw [importFrom?, first, Option.map_some, read]
  cases ofModule with
  | absolute named =>
    have own : ¬("dotted_name" : String) = "relative_import" := by decide
    simp only [named.kind, if_neg own, named.normalised, Origin.level, Origin.path, if_true]
  | @dots first more last _ level kind first? spans bare =>
    have counted : relativeLevel source.toUTF8.data module = more.length + 1 := by
      simp only [relativeLevel, first?, spans.text_eq, String.toList_ofList, count_dots]
    have path : relativePath source.toUTF8.data module = "" := by
      simp only [relativePath, bare]
    simp only [kind, if_true, counted, path, Origin.level, Origin.path, Nat.add_one_ne_zero, if_false,
      Option.map_none, Option.getD_none]
  | @dotsAndName first more last name after _ level dotted kind first? spans second? named =>
    have counted : relativeLevel source.toUTF8.data module = more.length + 1 := by
      simp only [relativeLevel, first?, spans.text_eq, String.toList_ofList, count_dots]
    have path : relativePath source.toUTF8.data module = name.path := by
      simp only [relativePath, second?, named.normalised]
    simp only [kind, if_true, counted, path, Origin.level, Origin.path, Nat.add_one_ne_zero, if_false,
      Option.map_some, Option.getD_some]

/-! ## Statements -/

/-- Where no import statement stands there are no imports. -/
theorem importsIn_of_isQuiet (quiet : n.IsQuiet) (source : Array UInt8) : importsIn source n = [] := by
  have none : statements n = [] := by
    refine List.eq_nil_iff_forall_not_mem.mpr fun m statement => ?_
    exact quiet m ((statements_sublist n).subset statement) (isImport_of_mem_statements statement)
  rw [importsIn, none, List.flatMap_nil]

theorem importsIn_of_isExtra (extra : n.IsExtra) (source : Array UInt8) : importsIn source n = [] := by
  refine importsIn_of_isQuiet (fun m inside => ?_) source
  rw [n.nodes_eq, extra.leaf, List.flatMap_nil, List.mem_singleton] at inside
  rw [inside]
  rcases extra.kind with kind | kind <;> rw [kind] <;> decide

/-- An import statement has no imports but its own. -/
theorem importsIn_of_mem (isImport : n.kind ∈ importKinds) (source : Array UInt8) :
    importsIn source n = (visit source n).1 := by
  rw [importsIn, statements_eq, if_pos isImport, List.flatMap_singleton]

theorem Statement.IsNode.importsIn_eq {statement : Statement} (node : statement.IsNode source front n) :
    importsIn source.toUTF8.data n = statement.found (lineBehind front) := by
  have line {text : List Char} (spans : n.Spans source front text) : n.line = lineBehind front := by
    rw [Node.line, spans.row_eq, lineBehind]
  cases node with
  | pass kind quiet => rw [importsIn_of_isQuiet quiet, found]
  | string kind quiet => rw [importsIn_of_isQuiet quiet, found]
  | imports kind spans names =>
    have read : importedNames source.toUTF8.data n = _ := names.filterMap_eq
    rw [importsIn_of_mem (by rw [kind]; decide)]
    simp only [visit, kind, plainImports, read, line spans, found]
  | future isFuture kind spans names =>
    have read : importedNames source.toUTF8.data n = _ := names.filterMap_eq
    rw [importsIn_of_mem (by rw [kind]; decide)]
    simp only [visit, kind, futureImport, read, line spans, found, isFuture.1, isFuture.2, if_true]
  | importsFrom other kind spans first ofModule names =>
    rw [importsIn_of_mem (by rw [kind]; decide)]
    simp only [visit, kind, importFrom_eq first ofModule names, line spans, found, Option.toList_some]

/-! ## Blocks -/

/-- The kinds of statements and clauses with bodies are none of import statements. -/
theorem Opening.kind_not_mem (opening : Opening) : opening.kind ∉ importKinds := by
  cases opening <;> decide

theorem Branch.kind_not_mem (branch : Branch) : branch.kind ∉ importKinds := by
  cases branch <;> decide

/-- A node that is no import statement has the imports of its children. -/
theorem importsIn_of_not_mem (other : n.kind ∉ importKinds) (source : Array UInt8) :
    importsIn source n = n.children.flatMap (importsIn source) := by
  rw [importsIn_eq, visit_of_not_mem other, List.nil_append, if_pos rfl]

/-- Of a statement or clause with a body, the header has no imports. -/
theorem importsIn_of_body {block : Node} {heads tails : List Node} (other : n.kind ∉ importKinds)
    (children : n.children = heads ++ block :: tails) (quiet : ∀ h ∈ heads, h.IsQuiet) (isBlock : block.kind = "block")
    (source : Array UInt8) :
    importsIn source n = block.children.flatMap (importsIn source) ++ tails.flatMap (importsIn source) := by
  have header : heads.flatMap (importsIn source) = [] :=
    List.flatMap_eq_nil_iff.mpr fun h inside => importsIn_of_isQuiet (quiet h inside) source
  have body : importsIn source block = block.children.flatMap (importsIn source) :=
    importsIn_of_not_mem (by rw [isBlock]; decide) source
  rw [importsIn_of_not_mem other, children, List.flatMap_append, List.flatMap_cons, header, body, List.nil_append]

/-- A row of statements or clauses has the imports of its statements, however deep these stand. The induction is
    over the nodes of the row, so there is one case for each way in which the next node may come about. -/
theorem Block.AreNodes.flatMap_importsIn {indent : List Bool} {role : Role} {b : Block role}
    (nodes : b.AreNodes source front indent ns) :
    ns.flatMap (importsIn source.toUTF8.data) = b.found front indent := by
  induction nodes with
  | nil => rw [List.flatMap_nil, found]
  | extra extra more ih => rw [List.flatMap_cons, importsIn_of_isExtra extra, ih, List.nil_append]
  | nothing more ih => rw [ih, found, Statement.found, List.nil_append]
  | line first more ih => rw [List.flatMap_cons, first.importsIn_eq, ih, found]
  | compound kind children quiet isBlock start inside stop branches more ihInside ihBranches ihMore =>
    subst start stop
    rw [List.flatMap_cons, importsIn_of_body (kind ▸ Opening.kind_not_mem _) children quiet isBlock, ihInside,
      ihBranches, ihMore, found]
  | clause kind children quiet isBlock start inside extras more ihInside ihMore =>
    subst start
    have behind : List.flatMap (importsIn source.toUTF8.data) _ = [] :=
      List.flatMap_eq_nil_iff.mpr fun t member => importsIn_of_isExtra (extras t member) source.toUTF8.data
    rw [List.flatMap_cons, importsIn_of_body (kind ▸ Branch.kind_not_mem _) children quiet isBlock, ihInside, behind,
      ihMore, found, List.append_nil]

theorem Block.IsTree.importsIn_eq {b : Block .statements} {tree : Node} (isTree : b.IsTree tree) :
    importsIn b.source.toUTF8.data tree = b.imports := by
  have other : tree.kind ∉ importKinds := by
    rw [isTree.kind]
    decide
  rw [importsIn_of_not_mem other, isTree.children.flatMap_importsIn, imports]

/-! ## Programs -/

theorem Items.isBlank_of_mem_paths {items : Items wide} :
    ∀ path ∈ items.paths, ∀ c ∈ path.toList, isBlank c = false := by
  intro path member
  obtain ⟨item, -, rfl⟩ := List.mem_map.mp member
  exact item.name.isBlank_of_mem_path

theorem Origin.isBlank_of_mem_path (origin : Origin) : ∀ c ∈ origin.path.toList, isBlank c = false := by
  cases origin with
  | absolute before name after => exact name.isBlank_of_mem_path
  | relative first more last name =>
    cases name with
    | none => exact List.forall_mem_nil _
    | some named => exact named.1.isBlank_of_mem_path

theorem Statement.isBlank_of_mem_found {statement : Statement} {line : Nat} :
    ∀ i ∈ statement.found line, ∀ c ∈ i.modulePath.toList, isBlank c = false := by
  intro i member
  cases statement with
  | nothing => cases member
  | pass => cases member
  | string l => cases member
  | imports before items =>
    obtain ⟨path, inside, rfl⟩ := List.mem_map.mp member
    exact Items.isBlank_of_mem_paths path inside
  | importsFrom origin taken =>
    rw [List.mem_singleton.mp member]
    exact origin.isBlank_of_mem_path

theorem Block.isBlank_of_mem_found {role : Role} (b : Block role) (front : List Char) (indent : List Bool) :
    ∀ i ∈ b.found front indent, ∀ c ∈ i.modulePath.toList, isBlank c = false := by
  induction b generalizing front indent with
  | nil => exact List.forall_mem_nil _
  | line statement ending rest ih =>
    exact List.forall_mem_append.mpr ⟨Statement.isBlank_of_mem_found, ih _ _⟩
  | compound opening header deeper body clauses rest ihBody ihClauses ihRest =>
    exact List.forall_mem_append.mpr ⟨List.forall_mem_append.mpr ⟨ihBody _ _, ihClauses _ _⟩, ihRest _ _⟩
  | clause branch header deeper body rest ihBody ihRest =>
    exact List.forall_mem_append.mpr ⟨ihBody _ _, ihRest _ _⟩

/-- From a file that holds a program as it is written, with a grammar that knows the syntax tree of the program,
    exactly the imports of the program are read. Their module paths are free of white space. -/
theorem Block.extractor_source {b : Block .statements} {grammar : Grammar} {tree : Node} {fs : FileSystem} {path : Path}
    (read : fs.readText path = .ok b.source) (parsed : grammar b.source = some tree) (isTree : b.IsTree tree) :
    extractor (.ok grammar) fs path = .ok b.imports ∧
      ∀ i ∈ b.imports, ∀ c ∈ i.modulePath.toList, isBlank c = false := by
  refine ⟨?_, b.isBlank_of_mem_found [] []⟩
  rw [extractor_of_read read parsed, isTree.importsIn_eq]

/-! ## An example -/

/-- A name of one letter. -/
def letter (c : Char) (starts : IsNameStart c) (noKeyword : [c] ∉ keywords) : Identifier where
  text := [c]
  begins := ⟨c, rfl, starts⟩
  nameChars := List.forall_mem_singleton.mpr (.inl starts)
  noKeyword := noKeyword

/-- An import in the body of an attempt, over two lines with a comment between them, a handler with a string,
    and an import of which the dotted name goes over two lines. -/
def attempting : Block .statements :=
  let x : Identifier := letter 'x' (by decide) (by decide)
  let y : Identifier := letter 'y' (by decide) (by decide)
  let space {wide : Bool} : Space wide := ⟨.blank false, []⟩
  let names : Items true :=
    ⟨⟨⟨x, []⟩, some ⟨space, space, y⟩⟩, [([], [.comment " import z".toList (by decide)], ⟨⟨y, []⟩, none⟩)]⟩
  let taken : Taken := .enclosed [.blank false] [] names (some []) []
  let quoted : List (Inner '"') :=
    [.plain 'i' (by decide), .plain 'm' (by decide), .plain 'p' (by decide), .plain 'o' (by decide),
      .plain 'r' (by decide), .plain 't' (by decide), .plain ' ' (by decide), .plain 'q' (by decide)]
  let literal : Literal := ⟨[], by decide, '"', .inl rfl, .short quoted (by decide)⟩
  let body : Block .statements := .line (.importsFrom (.relative [] [[.blank false]] [] none) taken) ⟨[], none⟩ .nil
  let handler : Block .statements := .line (.string literal) ⟨[], none⟩ .nil
  .compound .attempt ⟨[], [], none⟩ [true] body (.clause .handler ⟨" E".toList, [], none⟩ [true] handler .nil)
    (.line (.imports space ⟨⟨⟨x, [([], [.joint], y)]⟩, none⟩, []⟩) ⟨[], none⟩ .nil)

/-- The program as it is written. -/
def attemptingSource : String :=
  "try:\n\tfrom. .import (x as y,# import z\ny,)\nexcept E:\n\t\"import q\"\nimport x.\\\ny\n"

/-- Its syntax tree. -/
def attemptingTree : Node :=
  ⟨"module", none, 0, 0, 78, [
    ⟨"try_statement", none, 0, 0, 64, [
      ⟨"try", none, 0, 0, 3, []⟩, ⟨":", none, 0, 3, 4, []⟩,
      ⟨"block", some "body", 1, 6, 42, [
        ⟨"import_from_statement", none, 1, 6, 42, [
          ⟨"from", none, 1, 6, 10, []⟩,
          ⟨"relative_import", some "module_name", 1, 10, 13, [
            ⟨"import_prefix", none, 1, 10, 13, [⟨".", none, 1, 10, 11, []⟩, ⟨".", none, 1, 12, 13, []⟩]⟩]⟩,
          ⟨"import", none, 1, 13, 19, []⟩, ⟨"(", none, 1, 20, 21, []⟩,
          ⟨"aliased_import", some "name", 1, 21, 27, [
            ⟨"dotted_name", some "name", 1, 21, 22, [⟨"identifier", none, 1, 21, 22, []⟩]⟩,
            ⟨"as", none, 1, 23, 25, []⟩, ⟨"identifier", some "alias", 1, 26, 27, []⟩]⟩,
          ⟨",", none, 1, 27, 28, []⟩, ⟨"comment", none, 1, 28, 38, []⟩,
          ⟨"dotted_name", some "name", 2, 39, 40, [⟨"identifier", none, 2, 39, 40, []⟩]⟩,
          ⟨",", none, 2, 40, 41, []⟩, ⟨")", none, 2, 41, 42, []⟩]⟩]⟩,
      ⟨"except_clause", none, 3, 43, 64, [
        ⟨"except", none, 3, 43, 49, []⟩, ⟨"identifier", none, 3, 50, 51, []⟩, ⟨":", none, 3, 51, 52, []⟩,
        ⟨"block", none, 4, 54, 64, [
          ⟨"expression_statement", none, 4, 54, 64, [
            ⟨"string", none, 4, 54, 64, [
              ⟨"string_start", none, 4, 54, 55, []⟩, ⟨"string_content", none, 4, 55, 63, []⟩,
              ⟨"string_end", none, 4, 63, 64, []⟩]⟩]⟩]⟩]⟩]⟩,
    ⟨"import_statement", none, 5, 65, 77, [
      ⟨"import", none, 5, 65, 71, []⟩,
      ⟨"dotted_name", some "name", 5, 72, 77, [
        ⟨"identifier", none, 5, 72, 73, []⟩, ⟨".", none, 5, 73, 74, []⟩, ⟨"line_continuation", none, 5, 74, 76, []⟩,
        ⟨"identifier", none, 6, 76, 77, []⟩]⟩]⟩]⟩

private theorem isTree_attempting : attempting.IsTree attemptingTree := by
  refine ⟨rfl, ?_⟩
  refine .compound rfl (show _ = [_, _] ++ _ :: _ from rfl) (by decide) rfl rfl ?body rfl ?clauses ?rest
  case body =>
    refine .line (.importsFrom (by decide) rfl (by decide) rfl (.dots rfl rfl (by decide) rfl) ?names) .nil
    exact .cons (.aliased rfl rfl rfl ⟨rfl, by decide⟩) (.cons (.plain rfl ⟨rfl, by decide⟩) .nil)
  case clauses =>
    refine .clause rfl (show _ = [_, _, _] ++ _ :: _ from rfl) (by decide) rfl rfl ?handler (List.forall_mem_nil _) .nil
    exact .line (.string rfl (by decide)) .nil
  case rest =>
    exact .line (.imports rfl (by decide) (.cons (.plain rfl ⟨rfl, by decide⟩) .nil)) .nil

theorem Block.extractor_source_attempting :
    let grammar : Grammar := fun source => if source = attemptingSource then some attemptingTree else none
    let files := FileSystem.flat (.ofList [("a.py", utf8Bytes attemptingSource)])
    attempting.source = attemptingSource ∧ files.readText ⟨"/p/a.py"⟩ = .ok attempting.source ∧
      grammar attempting.source = some attemptingTree ∧ attempting.IsTree attemptingTree ∧
      attempting.imports = [⟨.relative, "", 2, 2, ["x", "y"]⟩, ⟨.absolute, "x.y", 0, 6, []⟩] ∧
      extractor (.ok grammar) files ⟨"/p/a.py"⟩ = .ok attempting.imports ∧
        ∀ i ∈ attempting.imports, ∀ c ∈ i.modulePath.toList, isBlank c = false := by
  intro grammar files
  have written : attempting.source = attemptingSource := by decide
  have read : files.readText ⟨"/p/a.py"⟩ = .ok attempting.source := by
    rw [written]
    exact FileSystem.readText_of_read (FileSystem.read_flat "a.py" (by decide) rfl (by decide))
  have parsed : grammar attempting.source = some attemptingTree := if_pos written
  have found : attempting.imports = [⟨.relative, "", 2, 2, ["x", "y"]⟩, ⟨.absolute, "x.y", 0, 6, []⟩] := by decide
  exact ⟨written, read, parsed, isTree_attempting, found, Block.extractor_source read parsed isTree_attempting⟩

end ModuleGraph.Python
