import Mathlib.Data.List.DropRight
import EScp.UnixPath

/-!
# The file list

`iterate_files` reads a list of names from a file.  It first takes the content for YAML, and only if
the YAML parser refuses it, for one name in a line.  The parser is a parameter; it reads plain lines
as one scalar, which is no list.
-/

namespace EScp
namespace FileList

/-! ## The code -/

/-- A value of YAML, as far as `iterate_files` looks at it. -/
inductive Yaml where
  | string (value : List Char)
  | array (items : List Yaml)
  | other

namespace Yaml

/-- What an iteration yields. -/
def items : Yaml → List Yaml
  | array items => items
  | _ => []

def asStr : Yaml → Option (List Char)
  | string value => some value
  | _ => none

end Yaml

/-- An element of `file_list`. -/
structure Entry where
  source : List Char
  dest : List Char
deriving DecidableEq

/-- What is read from an element of a document. -/
def entries : Yaml → List Entry
  | .array (first :: second :: _) =>
      match first.asStr, second.asStr with
      | some source, some dest => [⟨source, dest⟩]
      | _, _ => []
  | .array [first] =>
      match first.asStr with
      | some source => [⟨source, []⟩]
      | none => []
  | .string value => [⟨value, []⟩]
  | _ => []

/-- `file_list` for a content. -/
def fileList (load : List Char → Option (List Yaml)) (content : List Char) : List Entry :=
  match load content with
  | some documents => documents.flatMap fun document => document.items.flatMap entries
  | none =>
      ((content.splitOn '\n').filter fun line => line ≠ []).map fun line =>
        ⟨line.rdropWhile fun c => c = '\r', []⟩

/-- What is put on the path channel. -/
structure Item where
  prefixPath : List UnixPath.Component
  filename : List UnixPath.Component
  destname : List Char
deriving DecidableEq

/-- A path is put on the channel as its parent and its name; without them the program ends. -/
def item (path : List UnixPath.Component) (dest : List Char) : Option Item :=
  (UnixPath.parent path).bind fun parent =>
    (UnixPath.fileName path).map fun name => ⟨parent, [.normal name], dest⟩

/-- `file_list` is put on the channel from its end. -/
def queue (fileList : List Entry) : Option (List Item) :=
  fileList.reverse.mapM fun entry => item (UnixPath.components entry.source) entry.dest

/-! ## Lists of names -/

/-- A line and how it ends. -/
structure Line where
  text : List Char
  crlf : Bool

namespace Line

/-- What stands in front of the newline. -/
def piece (line : Line) : List Char := line.text ++ if line.crlf then ['\r'] else []

def written (line : Line) : List Char := line.piece ++ ['\n']

end Line

/-- Letters, digits, slashes, dots and underscores mean nothing in YAML. -/
def Plain (c : Char) : Prop := c.isAlphanum = true ∨ c ∈ ['/', '.', '_']

/-- A content of plain names, one in a line; a line may be blank and the last one need not end. -/
structure Content where
  lines : List Line
  last : List Char
  lines_plain : ∀ line ∈ lines, ∀ c ∈ line.text, Plain c
  last_plain : ∀ c ∈ last, Plain c

namespace Content

def text (content : Content) : List Char := content.lines.flatMap Line.written ++ content.last

def names (content : Content) : List (List Char) :=
  (content.lines.map Line.text ++ [content.last]).filter fun name => name ≠ []

end Content

/-- In YAML 1.2 plain lines that follow one another are folded into one plain scalar.  The parser
accepts them, and it makes no array of a scalar. -/
structure PlainScalars (load : List Char → Option (List Yaml)) : Prop where
  accepts : ∀ content : Content, ∃ documents, load content.text = some documents ∧
    ∀ document ∈ documents, ∀ items, document ≠ .array items

/-- The property wanted: the names are read in their order and can be put on the channel. -/
def Reads (load : List Char → Option (List Yaml)) (content : Content) : Prop :=
  fileList load content.text = (content.names.map fun name => ⟨name, []⟩) ∧
    ∃ items, queue (fileList load content.text) = some items

variable {load : List Char → Option (List Yaml)}

theorem items_eq_nil {document : Yaml} (scalar : ∀ items, document ≠ .array items) :
    document.items = [] := by
  cases document with
  | array items => exact absurd rfl (scalar items)
  | string value => rfl
  | other => rfl

/-- Nothing is read from plain lines. -/
theorem fileList_plain (folds : PlainScalars load) (content : Content) :
    fileList load content.text = [] := by
  obtain ⟨documents, accepted, scalars⟩ := folds.accepts content
  rw [fileList, accepted]
  refine List.flatMap_eq_nil_iff.mpr fun document mem => ?_
  rw [items_eq_nil (scalars document mem)]
  rfl

/-- Exactly the contents without a name are read as lists. -/
theorem reads_iff_blank (folds : PlainScalars load) (content : Content) :
    Reads load content ↔ content.names = [] := by
  rw [Reads, fileList_plain folds content]
  constructor
  · rintro ⟨same, -⟩
    exact List.map_eq_nil_iff.mp same.symm
  · intro blank
    rw [blank]
    exact ⟨rfl, [], rfl⟩

/-- A loader for contents of plain names: they become one string, with a space for a newline. -/
def foldLines (content : List Char) : Option (List Yaml) :=
  match (content.splitOn '\n').filter fun line => line ≠ [] with
  | [] => some []
  | names => some [.string ([' '].intercalate names)]

theorem plainScalars_foldLines : PlainScalars foldLines where
  accepts content := by
    rw [foldLines]
    split
    · exact ⟨[], rfl, by simp⟩
    · exact ⟨_, rfl, by simp⟩

/-- The names `a` and `b`, one in a line. -/
def twoNames : Content where
  lines := [⟨['a'], false⟩, ⟨['b'], false⟩]
  last := []
  lines_plain := by simp [Plain]
  last_plain := by simp

theorem not_reads_of_twoNames :
    ¬ ∀ load, PlainScalars load → ∀ content, Reads load content := by
  intro every
  have read := (every foldLines plainScalars_foldLines twoNames).1
  exact absurd read (by decide)

theorem reads_iff_blank_of_twoNames : Reads foldLines twoNames ↔ twoNames.names = [] :=
  reads_iff_blank plainScalars_foldLines twoNames

/-! ## One name in a line -/

theorem Plain.not_break {c : Char} (plain : Plain c) : c ≠ '\n' ∧ c ≠ '\r' := by
  constructor <;> rintro rfl <;> exact absurd plain (by unfold Plain; decide)

theorem splitOn_lines {lines : List Line} {last : List Char}
    (unbroken : ∀ line ∈ lines, '\n' ∉ line.text) (end_unbroken : '\n' ∉ last) :
    (lines.flatMap Line.written ++ last).splitOn '\n' = lines.map Line.piece ++ [last] := by
  induction lines with
  | nil => exact List.splitOn_eq_singleton end_unbroken
  | cons line lines ih =>
      obtain ⟨first, rest⟩ := List.forall_mem_cons.mp unbroken
      have whole : '\n' ∉ line.piece := by
        intro mem
        rcases List.mem_append.mp mem with inside | ending
        · exact first inside
        · split at ending <;> simp at ending
      have written : ((line :: lines).flatMap Line.written ++ last) =
          line.piece ++ '\n' :: (lines.flatMap Line.written ++ last) := by
        simp [Line.written]
      rw [written, List.splitOn_append_cons_self_of_not_mem whole, ih rest]
      rfl

theorem trim_plain {name : List Char} (plain : ∀ c ∈ name, Plain c) :
    (name.rdropWhile fun c => c = '\r') = name := by
  rw [List.rdropWhile_eq_self_iff]
  intro nonempty
  simpa using (plain _ (List.getLast_mem nonempty)).not_break.2

theorem trim_piece {line : Line} (plain : ∀ c ∈ line.text, Plain c) :
    (line.piece.rdropWhile fun c => c = '\r') = line.text := by
  rw [Line.piece]
  split
  · rw [List.rdropWhile_concat_pos _ _ _ (by decide), trim_plain plain]
  · rw [List.append_nil, trim_plain plain]

/-- If the parser refuses it, such a content is read line by line: every name is kept, and so is an
empty one for each blank line that ends with a carriage return. -/
theorem fileList_of_rejected {content : Content} (rejected : load content.text = none) :
    fileList load content.text =
      ((content.lines.filter fun line => line.text ≠ [] ∨ line.crlf = true).map fun line =>
        ⟨line.text, []⟩) ++
        if content.last = [] then [] else [⟨content.last, []⟩] := by
  have lines := splitOn_lines
    (fun line mem inside => (content.lines_plain line mem _ inside).not_break.1 rfl)
    (fun inside => (content.last_plain _ inside).not_break.1 rfl)
  rw [fileList, rejected]
  dsimp only
  rw [Content.text, lines, List.filter_append, List.map_append]
  congr 1
  · have kept : ∀ line : Line, (fun piece => decide (piece ≠ [])) line.piece =
        decide (line.text ≠ [] ∨ line.crlf = true) := by
      intro line
      cases ending : line.crlf <;> simp [Line.piece, ending]
    rw [List.filter_map, List.map_map]
    simp only [Function.comp_def, kept]
    refine List.map_congr_left fun line mem => ?_
    rw [trim_piece (content.lines_plain line (List.mem_filter.mp mem).1)]
  · have trimmed := trim_plain content.last_plain
    split
    · rename_i blank
      simp [blank]
    · rename_i named
      rw [List.filter_cons_of_pos (by simpa using named), List.filter_nil, List.map_singleton,
        trimmed]

end FileList
end EScp
