import ObsFuse.Fs.Mount
import ObsFuse.Lib.Numerals

/-! # The connection settings of a mount (src/main.rs, src/config.rs)

The `mount` command builds them from its arguments, environment variables and a configuration
file. What the argument parser makes of an argument with an environment variable and a default
is a parameter. Of the other settings only the reading of a mode is here. -/

namespace ObsFuse
open Lib

/-- `ObsConfig` with the two fields that only the connection uses. -/
structure ObsSettings extends ObsConfig where
  endpoint : Str
  region : Str
  deriving DecidableEq, Repr

/-- What a configuration file says; a field that it leaves out has no value here. -/
structure FileSettings where
  endpoint : Option Str
  bucket : Option Str
  region : Option Str
  accessKey : Option Str
  secretKey : Option Str
  obsPrefix : Option Str
  deriving DecidableEq, Repr

structure MountArgs where
  bucket : Str
  endpoint : Option Str
  accessKey : Option Str
  secretKey : Option Str
  region : Option Str
  obsPrefix : Option Str
  config : Option Str
  deriving DecidableEq, Repr

/-- The environment variables `OBS_ENDPOINT`, `OBS_ACCESS_KEY`, `OBS_SECRET_KEY`, `OBS_REGION`
and `OBS_BUCKET`. -/
structure Environment where
  endpoint : Option Str
  accessKey : Option Str
  secretKey : Option Str
  region : Option Str
  bucket : Option Str
  deriving DecidableEq, Repr

/-- The values that the argument parser passes on for an argument with an environment
variable: the one given, else the variable's, else the default. -/
structure ArgParser where
  optional : Option Str → Option Str → Option Str
  withDefault : Option Str → Option Str → Str → Str
  optional_eq : ∀ given env, optional given env = given.or env
  withDefault_eq : ∀ given env default, withDefault given env default = (given.or env).getD default

def ArgParser.standard : ArgParser where
  optional given env := given.or env
  withDefault given env default := (given.or env).getD default
  optional_eq _ _ := rfl
  withDefault_eq _ _ _ := rfl

structure ConfigFiles where
  load : Str → Except String FileSettings
  present : Str → Bool
  defaultConfigPath : Str

def defaultRegion : Str := "cn-north-1".toList

def derivedEndpoint (region : Str) : Str :=
  "obs.".toList ++ region ++ ".myhuaweicloud.com".toList

def FileSettings.empty : FileSettings := ⟨none, none, none, none, none, none⟩

namespace ObsSettings

def default : ObsSettings where
  toObsConfig := .default
  endpoint := "obs.cn-north-1.myhuaweicloud.com".toList
  region := defaultRegion

/-- A field that the file leaves out has its default. -/
def ofFile (file : FileSettings) : ObsSettings where
  endpoint := file.endpoint.getD default.endpoint
  bucket := file.bucket.getD default.bucket
  region := file.region.getD default.region
  accessKey := file.accessKey.or default.accessKey
  secretKey := file.secretKey.or default.secretKey
  obsPrefix := file.obsPrefix.or default.obsPrefix

/-- The overrides of `main`, on what the parser passes on. -/
def applyArgs (s : ObsSettings) (parser : ArgParser) (args : MountArgs) (env : Environment) :
    ObsSettings :=
  let region := parser.withDefault args.region env.region defaultRegion
  { s with
    bucket := args.bucket
    region := region
    endpoint := (parser.optional args.endpoint env.endpoint).getD (derivedEndpoint region)
    accessKey := (parser.optional args.accessKey env.accessKey).or s.accessKey
    secretKey := (parser.optional args.secretKey env.secretKey).or s.secretKey
    obsPrefix := args.obsPrefix }

def mergeEnv (s : ObsSettings) (env : Environment) : ObsSettings :=
  { s with
    accessKey := env.accessKey.or s.accessKey
    secretKey := env.secretKey.or s.secretKey
    endpoint := env.endpoint.getD s.endpoint
    bucket := env.bucket.getD s.bucket
    region := env.region.getD s.region }

end ObsSettings

namespace ConfigFiles

def fromFile (files : ConfigFiles) (path : Str) : Except String ObsSettings :=
  (files.load path).map .ofFile

def fromDefaultLocation (files : ConfigFiles) : Except String ObsSettings :=
  if files.present files.defaultConfigPath then files.fromFile files.defaultConfigPath
  else .ok .default

end ConfigFiles

/-- The settings that `mount` ends with; a file named on the command line must load. -/
def mountSettings (parser : ArgParser) (files : ConfigFiles) (args : MountArgs)
    (env : Environment) : Except String ObsSettings :=
  let loaded : Except String ObsSettings :=
    match args.config with
    | some path => files.fromFile path
    | none => .ok (files.fromDefaultLocation.toOption.getD .default)
  loaded.map fun s => (s.applyArgs parser args env).mergeEnv env

structure ModeError where
  context : String
  cause : ParseIntError
  deriving DecidableEq, Repr

/-- `parse_mode` of src/main.rs, for the file mode and the directory mode of a mount. -/
def parseMode (s : Str) : Except ModeError ℕ :=
  let s := trimStartMatches "0".toList (trimStartMatches "0o".toList s)
  (fromStrRadix 8 (2 ^ 32) s).mapError fun e => ⟨"Invalid permission mode", e⟩

end ObsFuse
