import EScp.FileList

/-!
# The check of the prefix

A worker opens what `iterate_files` puts on the path channel only if the canonical path starts with
the prefix.  The prefix of a command-line source is taken from a canonical path, that of an entry of
the file list is what stands in the list.
-/

namespace EScp
namespace PrefixCheck

open UnixPath FileList

/-! ## The code -/

/-- The names on an absolute path. -/
abbrev Names := List (List Char)

/-- An absolute path of names. -/
def absolute (names : Names) : List Component := .rootDir :: names.map .normal

/-- What `open` and `fstat` say about a path. -/
inductive Kind where
  | regular
  | directory
  /-- Something else, or `fstat` fails. -/
  | other
  /-- `open` fails, and not because there are too many open files. -/
  | refused
deriving DecidableEq

/-- The files that there are. -/
structure FileSystem where
  /-- `fs::canonicalize`, which gives an absolute path without links and dots.  The empty path is
  the current directory. -/
  canonicalize : List Component → Option Names
  /-- `fs::canonicalize` of an argument, which a slash at its end may make fail. -/
  argument : List Char → Option Names
  kind : Names → Kind
  argument_sound : ∀ text names, argument text = some names →
    canonicalize (components text) = some names
  /-- What stands in front of a name is a directory that exists. -/
  directory : ∀ path name names, canonicalize (path ++ [.normal name]) = some names →
    ∃ base, canonicalize path = some base
  /-- What a canonical path starts with is canonical. -/
  canonical : ∀ path names base, canonicalize path = some names → base <+: names →
    canonicalize (absolute base) = some base

/-- The path of a source: canonical if it can be made so. -/
def sourcePath (fs : FileSystem) (source : List Char) : List Component :=
  match fs.argument source with
  | some names => absolute names
  | none => components source

/-- The sources of the command line, as they are put on the channel. -/
def queueSources (fs : FileSystem) (sources : List (List Char)) (recursive : Bool)
    (destPath : List Char) : Option (List Item) :=
  (sources.filter fun source => source ≠ []).mapM fun source =>
    item (sourcePath fs source)
      (if sources.length = 1 ∧ recursive = false then destPath else [])

/-- All that `iterate_files` puts on the channel, unless it panics. -/
def queueAll (fs : FileSystem) (sources : List (List Char)) (recursive : Bool)
    (destPath : List Char) (fileList : List Entry) : Option (List Item) :=
  (queueSources fs sources recursive destPath).bind fun first =>
    (queue fileList).map fun second => first ++ second

/-- What a worker does with an item. -/
inductive Outcome where
  | notOnDisk
  | outside
  /-- The path cannot be opened, and the worker ends. -/
  | ended
  /-- The path is neither a file nor a directory to go through. -/
  | ignored
  | directory
  /-- The file is announced under these names. -/
  | announced (filename : List Component) (destname : List Char)
deriving DecidableEq

/-- A round of `iterate_file_worker`. -/
def iterateFile (fs : FileSystem) (recursive : Bool) (item : Item) : Outcome :=
  match fs.canonicalize (append item.prefixPath item.filename) with
  | none => .notOnDisk
  | some path =>
      if ¬ StartsWith (absolute path) item.prefixPath then .outside
      else
        match fs.kind path with
        | .regular => .announced item.filename item.destname
        | .directory => if recursive then .directory else .ignored
        | .other => .ignored
        | .refused => .ended

/-! ## The property -/

/-- The canonical path lies under that of the prefix. -/
def Under (fs : FileSystem) (item : Item) (path : Names) : Prop :=
  ∃ base, fs.canonicalize item.prefixPath = some base ∧ base <+: path

/-- The property wanted: the file is announced exactly if it lies under the prefix. -/
def Checks (fs : FileSystem) (recursive : Bool) (item : Item) (path : Names) : Prop :=
  iterateFile fs recursive item = .announced item.filename item.destname ↔ Under fs item path

/-- If there is no prefix, the file lies under the current directory; otherwise the prefix is
written as its canonical path, or the file does not lie under it. -/
def Sound (fs : FileSystem) (item : Item) (path : Names) : Prop :=
  ∀ base, fs.canonicalize item.prefixPath = some base →
    if item.prefixPath = [] then base <+: path
    else item.prefixPath = absolute base ∨ ¬ base <+: path

section Check

variable {fs : FileSystem} {entry : Item} {path base : Names} {recursive : Bool}

theorem prefix_absolute_iff {written : List Component} (given : written ≠ []) :
    written <+: absolute path ↔ ∃ names, written = absolute names ∧ names <+: path := by
  rw [absolute, List.prefix_cons_iff, or_iff_right given]
  constructor
  · rintro ⟨rest, rfl, starts⟩
    obtain ⟨names, below, rfl⟩ := List.prefix_map_iff.mp starts
    exact ⟨names, rfl, below⟩
  · rintro ⟨names, rfl, below⟩
    exact ⟨names.map .normal, rfl, below.map _⟩

/-- A prefix of a canonical path is its own canonical path. -/
theorem startsWith_iff
    (resolved : fs.canonicalize (append entry.prefixPath entry.filename) = some path)
    (given : entry.prefixPath ≠ []) (based : fs.canonicalize entry.prefixPath = some base) :
    StartsWith (absolute path) entry.prefixPath ↔
      entry.prefixPath = absolute base ∧ base <+: path := by
  rw [StartsWith, prefix_absolute_iff given]
  constructor
  · rintro ⟨names, written, below⟩
    have same := fs.canonical _ path names resolved below
    rw [← written, based] at same
    obtain rfl := Option.some.inj same
    exact ⟨written, below⟩
  · rintro ⟨written, below⟩
    exact ⟨base, written, below⟩

theorem announced_iff
    (resolved : fs.canonicalize (append entry.prefixPath entry.filename) = some path)
    (regular : fs.kind path = .regular) :
    iterateFile fs recursive entry = .announced entry.filename entry.destname ↔
      StartsWith (absolute path) entry.prefixPath := by
  rw [iterateFile, resolved]
  dsimp only
  split
  · rename_i outside
    exact iff_of_false (by simp) outside
  · rename_i inside
    rw [regular]
    exact iff_of_true rfl (not_not.mp inside)

theorem checks_iff
    (resolved : fs.canonicalize (append entry.prefixPath entry.filename) = some path)
    (regular : fs.kind path = .regular) (based : fs.canonicalize entry.prefixPath = some base) :
    Checks fs recursive entry path ↔ Sound fs entry path := by
  have under : Under fs entry path ↔ base <+: path := by
    simp [Under, based]
  have sound : Sound fs entry path ↔
      if entry.prefixPath = [] then base <+: path
      else entry.prefixPath = absolute base ∨ ¬ base <+: path := by
    simp [Sound, based]
  rw [Checks, announced_iff resolved regular, under, sound]
  split
  · rename_i empty
    have starts : StartsWith (absolute path) entry.prefixPath := by
      rw [empty]
      exact List.nil_prefix
    exact iff_true_left starts
  · rename_i given
    rw [startsWith_iff resolved given based]
    constructor
    · intro same
      exact or_iff_not_imp_right.mpr fun below => (same.mpr (not_not.mp below)).1
    · rintro (written | outside)
      · exact and_iff_right written
      · exact iff_of_false (fun starts => outside starts.2) outside

end Check

/-! ## What is on the channel -/

section Queue

variable {fs : FileSystem} {entry : Item} {path : Names}

theorem mem_of_mapM {α β : Type} {f : α → Option β} {inputs : List α} {outputs : List β}
    (mapped : inputs.mapM f = some outputs) {output : β} (mem : output ∈ outputs) :
    ∃ input ∈ inputs, f input = some output := by
  induction inputs generalizing outputs with
  | nil =>
      obtain rfl : [] = outputs := by simpa using mapped
      cases mem
  | cons input inputs ih =>
      rw [List.mapM_cons] at mapped
      simp only [Option.bind_eq_bind, Option.bind_eq_some_iff, Option.pure_def,
        Option.some.injEq] at mapped
      obtain ⟨first, found, rest, mapped, rfl⟩ := mapped
      rcases List.mem_cons.mp mem with rfl | later
      · exact ⟨input, List.mem_cons_self, found⟩
      · obtain ⟨other, there, same⟩ := ih mapped later
        exact ⟨other, List.mem_cons_of_mem _ there, same⟩

/-- An item is a path without its last name, and that name. -/
theorem item_eq_some_iff {written : List Component} {dest : List Char} :
    item written dest = some entry ↔ ∃ prefixPath name,
      written = prefixPath ++ [.normal name] ∧ entry = ⟨prefixPath, [.normal name], dest⟩ := by
  rw [item, Option.bind_eq_some_iff]
  constructor
  · rintro ⟨prefixPath, parent_eq, found⟩
    obtain ⟨name, named, rfl⟩ := Option.map_eq_some_iff.mp found
    obtain ⟨directory, same, split⟩ := parent_of_fileName named
    obtain rfl := Option.some.inj (parent_eq.symm.trans same)
    exact ⟨prefixPath, name, split, rfl⟩
  · rintro ⟨prefixPath, name, split, rfl⟩
    have named : fileName written = some name := fileName_eq_some_iff.mpr ⟨prefixPath, split⟩
    obtain ⟨directory, parent_eq, same⟩ := parent_of_fileName named
    obtain rfl := List.append_cancel_right (split.symm.trans same)
    exact ⟨prefixPath, parent_eq, by rw [named]; rfl⟩

theorem mem_queueAll {sources : List (List Char)} {recursive : Bool} {destPath : List Char}
    {fileList : List Entry} {items : List Item}
    (put : queueAll fs sources recursive destPath fileList = some items) (mem : entry ∈ items) :
    ∃ written dest, item written dest = some entry ∧
      ((∃ source ∈ sources, written = sourcePath fs source) ∨
        ∃ listed ∈ fileList, written = components listed.source) := by
  rw [queueAll, Option.bind_eq_some_iff] at put
  obtain ⟨first, from_sources, put⟩ := put
  obtain ⟨second, from_list, rfl⟩ := Option.map_eq_some_iff.mp put
  rcases List.mem_append.mp mem with there | there
  · obtain ⟨source, given, made⟩ := mem_of_mapM from_sources there
    exact ⟨_, _, made, .inl ⟨source, (List.mem_filter.mp given).1, rfl⟩⟩
  · obtain ⟨listed, given, made⟩ := mem_of_mapM from_list there
    exact ⟨_, _, made, .inr ⟨listed, List.mem_reverse.mp given, rfl⟩⟩

/-- A source that has a canonical path is checked rightly. -/
theorem sound_of_source {source : List Char} {names : Names} {dest : List Char}
    (canonical : fs.argument source = some names)
    (made : item (sourcePath fs source) dest = some entry) : Sound fs entry path := by
  obtain ⟨prefixPath, name, split, rfl⟩ := item_eq_some_iff.mp made
  have from_names : absolute names = prefixPath ++ [.normal name] := by
    rw [← split, sourcePath, canonical]
  rcases List.eq_nil_or_concat' names with rfl | ⟨front, last, rfl⟩
  · have ends := congrArg List.getLast? from_names
    simp [absolute] at ends
  · have parts : absolute front ++ [.normal last] = prefixPath ++ [.normal name] := by
      rw [← from_names]
      simp [absolute]
    obtain ⟨rfl, -⟩ := List.append_inj' parts rfl
    intro base based
    have same := fs.canonical _ _ front (fs.argument_sound source _ canonical)
      (List.prefix_append front [last])
    obtain rfl := Option.some.inj (based.symm.trans same)
    have given : absolute base ≠ [] := List.cons_ne_nil _ _
    exact (if_neg given).mpr (.inl rfl)

end Queue

/-! ## A file in a directory -/

/-- The names on a path, by its components alone. -/
def follow (names : Names) : Component → Names
  | .rootDir => []
  | .curDir => names
  | .parentDir => names.dropLast
  | .normal name => names ++ [name]

/-- The file `/w/d/f`. -/
def theFile : Names := [['w'], ['d'], ['f']]

theorem foldl_follow_normal (front names : Names) :
    (names.map Component.normal).foldl follow front = front ++ names := by
  induction names generalizing front with
  | nil => simp
  | cons name names ih =>
      rw [List.map_cons, List.foldl_cons, ih, follow]
      simp

/-- There is only this file, without links; the current directory is `/w`. -/
def oneFile : FileSystem where
  canonicalize path :=
    let names := path.foldl follow [['w']]
    if names <+: theFile then some names else none
  argument text :=
    let names := (components text).foldl follow [['w']]
    if names <+: theFile then some names else none
  kind names := if names = theFile then .regular else .directory
  argument_sound _ _ found := found
  directory path name names found := by
    dsimp only at found ⊢
    split at found
    · rename_i there
      rw [List.foldl_append] at there
      exact ⟨_, if_pos ((List.prefix_append _ _).trans there)⟩
    · cases found
  canonical path names base found below := by
    dsimp only at found ⊢
    split at found
    · rename_i there
      obtain rfl := Option.some.inj found
      have same : (absolute base).foldl follow [['w']] = base := foldl_follow_normal [] base
      rw [same, if_pos (below.trans there)]
    · cases found

/-- The entry `d/f` of a file list. -/
def listed : Item := ⟨[.normal ['d']], [.normal ['f']], []⟩

/-- The source `/w/d/f`. -/
def given : Item := ⟨absolute [['w'], ['d']], [.normal ['f']], []⟩

end PrefixCheck
end EScp
