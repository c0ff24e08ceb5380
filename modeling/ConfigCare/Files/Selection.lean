import ConfigCare.Files.Path
import ConfigCare.Glob.IgnoreList
/-!
Which files and folders a walk takes: globs leave paths out, a file needs an accepted extension,
and hidden folders can be skipped.
-/

namespace ConfigCare.Files

structure Selection where
  globs : Glob.IgnoreList
  extensions : List Text
  skipHidden : Bool

namespace Selection

/-- A selection given by the texts of its globs. -/
def ofGlobs (globs extensions : List Text) (skipHidden : Bool) : Except Glob.GlobError Selection :=
  (Glob.IgnoreList.compile globs).map fun gs => ⟨gs, extensions, skipHidden⟩

/-- Whether a path is left out; a folder also if the globs match what lies in it. -/
def ignores (s : Selection) (relative : Text) (isFolder : Bool) : Bool :=
  s.globs.ignores relative || (isFolder && s.globs.ignores (relative ++ ['/']))

/-- The beginning of the names of environment files. -/
def envStart : Text := Text.lit ".env"

/-- Whether an extension takes in a file. That of environment files takes in all that are named
like one. -/
def extensionAccepts (name ext : Text) : Bool :=
  if Text.startsWith envStart ext then Text.startsWith envStart name
  else extension name = Text.lower ext

def accepts (s : Selection) (name : Text) : Bool := s.extensions.any (extensionAccepts name)

/-- A folder whose name starts with a dot is hidden, but for the one that holds configuration. -/
def isHidden (name : Text) : Bool := Text.startsWith ['.'] name && name ≠ Text.lit ".config"

/-- Whether a folder is walked. -/
def descends (s : Selection) (name relative : Text) : Bool :=
  !s.ignores relative true && !(s.skipHidden && isHidden name)

end Selection

end ConfigCare.Files
