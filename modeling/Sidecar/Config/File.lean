import Sidecar.Config.Basic
import Sidecar.Resource.Spelling

/-!
# The configuration file

`Config.load` reads the configuration from the file the environment names, or takes the defaults if
there is no such file, and then applies the overrides. `Config.writeDefault` writes the defaults to
that file if it is missing. What is already there is never touched.
-/

namespace Sidecar

/-- Why the configuration could not be read or written, with the path of the file. -/
inductive ConfigError where
  | readFailed (path : String)
  | parseFailed (path : String)
  | writeFailed (path : String)
deriving DecidableEq, Repr

namespace Config

/-- The configuration in the content of a file. -/
def ofBytes (env : Environment) (path : String) (content : Bytes) : Except ConfigError Config :=
  match ofUtf8? content with
  | none => .error (.readFailed path)
  | some text =>
    match parse? env text with
    | none => .error (.parseFailed path)
    | some c => .ok c

/-- The configuration before overrides. -/
def loadFile (env : Environment) (tree : FileTree) : Except ConfigError Config :=
  match tree.findText? env.configFile with
  | none => .ok (default env)
  | some .directory => .error (.readFailed env.configFile)
  | some (.file content) => ofBytes env env.configFile content

/-- The configuration: variables of the environment, then the file, then the defaults. -/
def load (env : Environment) (tree : FileTree) : Except ConfigError Config :=
  (loadFile env tree).map fun c => c.override env

/-- Write the default configuration unless there is something in its place. Directories on the way
are created, and stay if the file itself cannot be written. -/
def writeDefault (env : Environment) (tree : FileTree) : Except ConfigError String × FileTree :=
  let path := env.configFile
  if (tree.findText? path).isSome then (.ok path, tree)
  else
    let tree := tree.createParents path
    match tree.writeFile? path (utf8 (default env).render) with
    | some tree => (.ok path, tree)
    | none => (.error (.writeFailed path), tree)

end Config

end Sidecar
