import ModuleGraph.Change.NameStatus
import ModuleGraph.Proofs.Change
import ModuleGraph.Proofs.Text.Split

/-!
The grammar of status outputs. An output is read exactly if its fields are those of entries in a row,
each a status and the paths of one change, and then the sets hold exactly the paths of these changes
(`parse_grammar`). How many fields an entry takes is said by its status alone, so no path is ever taken
for a status, whatever it looks like.
-/
namespace ModuleGraph
open Text

namespace FileChange

/-- The paths of a change, in the order in which an output gives them. -/
def paths : FileChange → List String
  | .added path | .modified path | .deleted path => [path]
  | .moved source target | .copied source target => [source, target]

/-- The letters that a status of such a change can begin with. -/
def letters : FileChange → List Char
  | .added _ => ['A']
  | .modified _ => ['M', 'T']
  | .deleted _ => ['D']
  | .moved .. => ['R']
  | .copied .. => ['C']

/-- The path that holds a new file after a change. -/
def adds : FileChange → List String
  | .added path | .moved _ path | .copied _ path => [path]
  | .modified _ | .deleted _ => []

/-- The path at which a change leaves other content. -/
def modifies : FileChange → List String
  | .modified path => [path]
  | .added _ | .deleted _ | .moved .. | .copied .. => []

/-- The path that holds no file any more after a change. -/
def deletes : FileChange → List String
  | .deleted path | .moved path _ => [path]
  | .added _ | .modified _ | .copied .. => []

end FileChange

namespace ChangeSet
variable {c d : ChangeSet} {changes others : List FileChange}

/-- The sets hold exactly the paths of some changes. -/
structure Collects (c : ChangeSet) (changes : List FileChange) : Prop where
  mem_added_iff : ∀ path, path ∈ c.added ↔ ∃ change ∈ changes, path ∈ change.adds
  mem_modified_iff : ∀ path, path ∈ c.modified ↔ ∃ change ∈ changes, path ∈ change.modifies
  mem_deleted_iff : ∀ path, path ∈ c.deleted ↔ ∃ change ∈ changes, path ∈ change.deletes

/-- The paths of two change sets. -/
def union (c d : ChangeSet) : ChangeSet :=
  ⟨c.added.union d.added, c.modified.union d.modified, c.deleted.union d.deleted⟩

/-- The changes say what the sets are. -/
theorem Collects.unique (first : c.Collects changes) (second : d.Collects changes) : c = d := by
  have added : c.added = d.added := SortedSet.ext_mem fun path => by
    rw [first.mem_added_iff, second.mem_added_iff]
  have modified : c.modified = d.modified := SortedSet.ext_mem fun path => by
    rw [first.mem_modified_iff, second.mem_modified_iff]
  have deleted : c.deleted = d.deleted := SortedSet.ext_mem fun path => by
    rw [first.mem_deleted_iff, second.mem_deleted_iff]
  cases c
  cases d
  simp_all only

theorem collects_empty : empty.Collects [] := by
  constructor <;> simp [empty, SortedSet.not_mem_empty]

theorem Collects.record (ok : c.Collects changes) (change : FileChange) :
    (c.record change).Collects (changes ++ [change]) := by
  constructor
  · intro path
    cases change <;> simp [ChangeSet.record, FileChange.adds, ok.mem_added_iff, or_and_right,
      exists_or, or_comm]
  · intro path
    cases change <;> simp [ChangeSet.record, FileChange.modifies, ok.mem_modified_iff, or_and_right,
      exists_or, or_comm]
  · intro path
    cases change <;> simp [ChangeSet.record, FileChange.deletes, ok.mem_deleted_iff, or_and_right,
      exists_or, or_comm]

theorem collects_ofChanges (changes : List FileChange) : (ofChanges changes).Collects changes := by
  induction changes using List.reverseRecOn with
  | nil => exact collects_empty
  | append_singleton changes last ih =>
    rw [ofChanges, List.foldl_append]
    exact ih.record last

theorem Collects.union (first : c.Collects changes) (second : d.Collects others) :
    (c.union d).Collects (changes ++ others) := by
  constructor
  · intro path
    simp [ChangeSet.union, SortedSet.mem_union, first.mem_added_iff, second.mem_added_iff,
      or_and_right, exists_or]
  · intro path
    simp [ChangeSet.union, SortedSet.mem_union, first.mem_modified_iff, second.mem_modified_iff,
      or_and_right, exists_or]
  · intro path
    simp [ChangeSet.union, SortedSet.mem_union, first.mem_deleted_iff, second.mem_deleted_iff,
      or_and_right, exists_or]

theorem ofChanges_append :
    ofChanges (changes ++ others) = (ofChanges changes).union (ofChanges others) :=
  (collects_ofChanges _).unique ((collects_ofChanges changes).union (collects_ofChanges others))

end ChangeSet

namespace NameStatus
variable {status : List Char} {front back : List (List Char)} {found : List FileChange}

/-- A field holds something and ends at the first NUL. -/
def IsField (field : List Char) : Prop := field ≠ [] ∧ '\x00' ∉ field

/-- A change as an output spells it: a status that begins with a letter of the change once the blanks
    around it are off, and the paths of the change. -/
structure Entry where
  status : List Char
  change : FileChange
  letter : ∃ letter ∈ change.letters, (trim status).head? = some letter
  clean : ∀ field ∈ status :: change.paths.map String.toList, IsField field

namespace Entry

/-- The fields of an entry. -/
def fields (e : Entry) : List (List Char) := e.status :: e.change.paths.map String.toList

/-- The text of an entry, each field ended. -/
def text (e : Entry) : List Char := e.fields.flatMap (· ++ ['\x00'])

end Entry

/-! ## Fields -/

theorem fields_append (front back : List Char) :
    fields (front ++ '\x00' :: back) = fields front ++ fields back := by
  rw [fields, piecesAt_append, List.filter_append]
  rfl

theorem fields_concat (front : List Char) : fields (front ++ ['\x00']) = fields front := by
  rw [fields_append]
  exact List.append_nil _

theorem fields_of_isField {field : List Char} (clean : IsField field) : fields field = [field] := by
  rw [fields, piecesAt_of_not_mem clean.2]
  simp [clean.1]

theorem isField_of_mem_fields {output field : List Char} (member : field ∈ fields output) :
    IsField field := by
  obtain ⟨piece, some⟩ := List.mem_filter.mp member
  exact ⟨of_decide_eq_true some, not_mem_of_mem_piecesAt piece⟩

/-- Fields come back from the text in which each of them is ended. -/
theorem fields_ended (clean : ∀ field ∈ front, IsField field) :
    fields (front.flatMap (· ++ ['\x00'])) = front := by
  induction front with
  | nil => rfl
  | cons field rest ih =>
    rw [List.flatMap_cons, List.append_assoc, List.singleton_append, fields_append,
      fields_of_isField (clean field List.mem_cons_self),
      ih fun other inside => clean other (List.mem_cons_of_mem field inside)]
    rfl

theorem fields_text (entries : List Entry) :
    fields (entries.flatMap (·.text)) = entries.flatMap (·.fields) := by
  have ended : entries.flatMap (·.text) =
      (entries.flatMap (·.fields)).flatMap (· ++ ['\x00']) := List.flatMap_assoc.symm
  rw [ended]
  refine fields_ended fun field inside => ?_
  obtain ⟨entry, -, member⟩ := List.mem_flatMap.mp inside
  exact entry.clean field member

/-! ## One entry -/

private theorem ok_of_map_eq_ok {α β : Type} {result : Except Fault α} {f : α → β} {b : β}
    (mapped : result.map f = .ok b) : ∃ a, result = .ok a ∧ f a = b := by
  cases result with
  | error fault => cases mapped
  | ok a => exact ⟨a, rfl, Except.ok.inj mapped⟩

/-- A change is read from the fields of its entry, whatever follows them. -/
theorem changes_entry (e : Entry) (rest : List (List Char)) :
    changes (e.fields ++ rest) = (changes rest).map (e.change :: ·) := by
  obtain ⟨status, change, ⟨letter, kind, first⟩, -⟩ := e
  obtain ⟨more, trimmed⟩ := List.head?_eq_some_iff.mp first
  cases change with
  | added path =>
    obtain rfl := List.mem_singleton.mp kind
    simp [Entry.fields, FileChange.paths, changes, trimmed, shape?]
  | modified path =>
    simp only [FileChange.letters, List.mem_cons, List.not_mem_nil, or_false] at kind
    rcases kind with rfl | rfl
    · simp [Entry.fields, FileChange.paths, changes, trimmed, shape?]
    · simp [Entry.fields, FileChange.paths, changes, trimmed, shape?]
  | deleted path =>
    obtain rfl := List.mem_singleton.mp kind
    simp [Entry.fields, FileChange.paths, changes, trimmed, shape?]
  | moved source target =>
    obtain rfl := List.mem_singleton.mp kind
    simp [Entry.fields, FileChange.paths, changes, trimmed, shape?]
  | copied source target =>
    obtain rfl := List.mem_singleton.mp kind
    simp [Entry.fields, FileChange.paths, changes, trimmed, shape?]

private theorem letter_of_one {change : String → FileChange}
    (shape : shape? status = some (.one change)) (path : String) :
    (change path).paths = [path] ∧ ∃ letter ∈ (change path).letters, status.head? = some letter := by
  unfold shape? at shape
  split at shape <;> cases shape <;> simp [FileChange.paths, FileChange.letters]

private theorem letter_of_two {change : String → String → FileChange}
    (shape : shape? status = some (.two change)) (source target : String) :
    (change source target).paths = [source, target] ∧
      ∃ letter ∈ (change source target).letters, status.head? = some letter := by
  unfold shape? at shape
  split at shape <;> cases shape <;> simp [FileChange.paths, FileChange.letters]

/-- Fields from which something is read begin with an entry. -/
theorem exists_entry {rest : List (List Char)} (clean : ∀ field ∈ status :: rest, IsField field)
    (read : changes (status :: rest) = .ok found) :
    ∃ (e : Entry) (later : List (List Char)) (others : List FileChange),
      status :: rest = e.fields ++ later ∧ found = e.change :: others ∧ changes later = .ok others := by
  rw [changes] at read
  cases shape : shape? (trim status) with
  | none => simp [shape] at read
  | some kind =>
    cases kind with
    | one change =>
      cases rest with
      | nil => simp [shape] at read
      | cons path later =>
        obtain ⟨named, letter⟩ := letter_of_one shape (.ofList path)
        simp only [shape] at read
        obtain ⟨others, behind, rfl⟩ := ok_of_map_eq_ok read
        refine ⟨⟨status, change (.ofList path), letter, ?_⟩, later, others, ?_, rfl, behind⟩
        · rw [named]
          intro field inside
          exact clean field (by simp at inside ⊢; grind)
        · simp [Entry.fields, named]
    | two change =>
      match rest with
      | [] => simp [shape] at read
      | [source] => simp [shape] at read
      | source :: target :: later =>
        obtain ⟨named, letter⟩ := letter_of_two shape (.ofList source) (.ofList target)
        simp only [shape] at read
        obtain ⟨others, behind, rfl⟩ := ok_of_map_eq_ok read
        refine ⟨⟨status, change (.ofList source) (.ofList target), letter, ?_⟩, later, others, ?_,
          rfl, behind⟩
        · rw [named]
          intro field inside
          exact clean field (by simp at inside ⊢; grind)
        · simp [Entry.fields, named]

/-! ## Entries in a row -/

theorem changes_entries (entries : List Entry) (rest : List (List Char)) :
    changes (entries.flatMap (·.fields) ++ rest) =
      (changes rest).map (entries.map (·.change) ++ ·) := by
  induction entries with
  | nil =>
    rw [List.flatMap_nil, List.nil_append]
    cases changes rest <;> rfl
  | cons entry entries ih =>
    rw [List.flatMap_cons, List.append_assoc, changes_entry, ih]
    cases changes rest <;> rfl

/-- Fields from which something is read are those of entries in a row. The induction is on the number
    of fields, since an entry takes two or three. -/
theorem exists_entries (clean : ∀ field ∈ front, IsField field) (read : changes front = .ok found) :
    ∃ entries : List Entry, front = entries.flatMap (·.fields) ∧ found = entries.map (·.change) := by
  induction size : front.length using Nat.strong_induction_on generalizing front found with
  | _ n ih =>
    cases front with
    | nil =>
      obtain rfl : [] = found := Except.ok.inj read
      exact ⟨[], rfl, rfl⟩
    | cons status rest =>
      obtain ⟨entry, later, others, cut, rfl, behind⟩ := exists_entry clean read
      have fewer : later.length < n := by
        rw [← size, cut, List.length_append, Entry.fields, List.length_cons]
        omega
      have clean' : ∀ field ∈ later, IsField field := fun field inside =>
        clean field (cut ▸ List.mem_append_right _ inside)
      obtain ⟨entries, rfl, rfl⟩ := ih later.length fewer clean' behind rfl
      exact ⟨entry :: entries, cut, rfl⟩

/-- What is read from fields in front does not depend on those behind. -/
theorem changes_append (clean : ∀ field ∈ front, IsField field) (read : changes front = .ok found) :
    changes (front ++ back) = (changes back).map (found ++ ·) := by
  obtain ⟨entries, rfl, rfl⟩ := exists_entries clean read
  exact changes_entries entries back

/-! ## Outputs -/

theorem parse_eq_ok_iff {output : String} {c : ChangeSet} : parse output = .ok c ↔
    ∃ entries : List Entry, fields output.toList = entries.flatMap (·.fields) ∧
      c.Collects (entries.map (·.change)) := by
  constructor
  · intro read
    obtain ⟨found, behind, rfl⟩ := ok_of_map_eq_ok read
    obtain ⟨entries, cut, rfl⟩ := exists_entries (fun _ => isField_of_mem_fields) behind
    exact ⟨entries, cut, ChangeSet.collects_ofChanges _⟩
  · rintro ⟨entries, cut, collects⟩
    have read := changes_entries entries []
    rw [List.append_nil, ← cut] at read
    rw [parse, read, collects.unique (ChangeSet.collects_ofChanges _)]
    simp [changes, Except.map]

theorem parse_append {front back : String} {c : ChangeSet} (ended : front.toList.getLast? = some '\x00')
    (read : parse front = .ok c) : parse (front ++ back) = (parse back).map c.union := by
  obtain ⟨start, whole⟩ := List.getLast?_eq_some_iff.mp ended
  have cut : fields (front ++ back).toList = fields front.toList ++ fields back.toList := by
    rw [String.toList_append, whole, List.append_assoc, List.singleton_append, fields_append,
      fields_concat]
  obtain ⟨found, before, rfl⟩ := ok_of_map_eq_ok read
  rw [parse, parse, cut, changes_append (fun _ => isField_of_mem_fields) before]
  cases changes (fields back.toList) with
  | error fault => rfl
  | ok others => simp [Except.map, ChangeSet.ofChanges_append]

/-- The grammar of outputs: something is read exactly if the fields are those of entries in a row,
    and then the sets hold exactly the paths that the entries say, verbatim. In particular entries
    come back from their text, and an output that is read in front of another one leaves the reading
    of that one as it is. -/
theorem parse_grammar :
    (∀ output c, parse output = .ok c ↔ ∃ entries : List Entry,
      fields output.toList = entries.flatMap (·.fields) ∧ c.Collects (entries.map (·.change))) ∧
    (∀ entries : List Entry, ∃ c, parse (.ofList (entries.flatMap (·.text))) = .ok c ∧
      c.Collects (entries.map (·.change))) ∧
    ∀ front back c, front.toList.getLast? = some '\x00' → parse front = .ok c →
      parse (front ++ back) = (parse back).map c.union := by
  refine ⟨fun output c => parse_eq_ok_iff, fun entries => ?_, fun front back c => parse_append⟩
  refine ⟨_, parse_eq_ok_iff.mpr ⟨entries, ?_, ChangeSet.collects_ofChanges _⟩,
    ChangeSet.collects_ofChanges _⟩
  rw [String.toList_ofList, fields_text]

/-- Paths that look like statuses stay paths. -/
theorem parse_grammar_letters :
    parse "R087\x00M\x00A\x00" = .ok ⟨.ofList ["A"], .empty, .ofList ["M"]⟩ ∧
      parse ("R087\x00M\x00A\x00" ++ " T\x00D\x00C\x00") = .error (.missingPath "C") ∧
      parse ("R087\x00M\x00A\x00" ++ " T\x00D\x00") =
        .ok ⟨.ofList ["A"], .ofList ["D"], .ofList ["M"]⟩ := by
  have read : parse "R087\x00M\x00A\x00" = .ok ⟨.ofList ["A"], .empty, .ofList ["M"]⟩ := by decide +kernel
  have ended : "R087\x00M\x00A\x00".toList.getLast? = some '\x00' := by decide
  refine ⟨read, ?_, ?_⟩
  · rw [parse_grammar.2.2 _ _ _ ended read]
    decide +kernel
  · rw [parse_grammar.2.2 _ _ _ ended read]
    decide +kernel

end NameStatus
end ModuleGraph
