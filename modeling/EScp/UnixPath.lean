import Mathlib.Data.List.Basic

/-!
# Unix paths

A path is a string that stands for a list of components, as `std::path` reads it: repeated slashes
and dots inside it do not count, a dot at the start of a relative path does.
-/

namespace EScp
namespace UnixPath

/-- A component of a path. -/
inductive Component where
  | rootDir
  | curDir
  | parentDir
  | normal (name : List Char)
deriving DecidableEq

/-- What stands between two slashes, unless it is empty. -/
def component (name : List Char) : Component :=
  if name = ['.'] then .curDir else if name = ['.', '.'] then .parentDir else .normal name

/-- The components that come after the first one. -/
def later (names : List (List Char)) : List Component :=
  (names.filter fun name => name ≠ [] ∧ name ≠ ['.']).map component

/-- `Path::components`. -/
def components : List Char → List Component
  | [] => []
  | '/' :: rest => .rootDir :: later (rest.splitOn '/')
  | path =>
      match path.splitOn '/' with
      | [] => []
      | first :: names => component first :: later names

/-- `Path::parent`. -/
def parent (path : List Component) : Option (List Component) :=
  match path.getLast? with
  | none | some .rootDir => none
  | some _ => some path.dropLast

/-- `Path::file_name`. -/
def fileName (path : List Component) : Option (List Char) :=
  match path.getLast? with
  | some (.normal name) => some name
  | _ => none

/-- `Path::join`, on strings. -/
def join (path other : List Char) : List Char :=
  if other.head? = some '/' then other
  else if path = [] ∨ path.getLast? = some '/' then path ++ other
  else path ++ '/' :: other

/-- `Path::join`, on components. -/
def append (path other : List Component) : List Component :=
  if path = [] ∨ other.head? = some .rootDir then other
  else path ++ other.filter fun component => component ≠ .curDir

/-- `Path::starts_with`. -/
def StartsWith (path base : List Component) : Prop := base <+: path

instance (path base : List Component) : Decidable (StartsWith path base) := by
  unfold StartsWith
  infer_instance

/-! ## Parents and names -/

section Last

variable {path : List Component} {name : List Char}

theorem fileName_eq_some_iff :
    fileName path = some name ↔ ∃ directory, path = directory ++ [.normal name] := by
  rw [fileName]
  constructor
  · intro named
    split at named
    · rename_i last
      obtain rfl := Option.some.inj named
      exact ⟨path.dropLast, (List.dropLast_append_getLast? _ last).symm⟩
    · cases named
  · rintro ⟨directory, rfl⟩
    rw [List.getLast?_concat]

/-- A path with a name is its parent and the name. -/
theorem parent_of_fileName (named : fileName path = some name) :
    ∃ directory, parent path = some directory ∧ path = directory ++ [.normal name] := by
  obtain ⟨directory, rfl⟩ := fileName_eq_some_iff.mp named
  refine ⟨directory, ?_, rfl⟩
  rw [parent, List.getLast?_concat]
  exact congrArg some List.dropLast_concat

end Last

end UnixPath
end EScp
