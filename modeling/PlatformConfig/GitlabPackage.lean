import PlatformConfig.GuardPlan
import PlatformConfig.LifecycleRecord
import PlatformConfig.RecordText

/-!
# Packages of the GitLab facade

What the facade checks of the package client: the project record, the result that the client prints,
and the stage manifest of a response beside the files of the package.
-/
namespace PlatformConfig.HostGitlab

open GuardPlan (matchesHex)
open Lifecycle (Contents Data FileName Files responseNames)
open RecordText

/-! ## Records -/

/-- The value of a line that starts with the field and an equals sign. -/
def readLine (n : String) (line : Text) : Option String :=
  let start := n.toList ++ ['=']
  if start.isPrefixOf line && line.drop start.length ≠ [] then
    some (String.ofList (line.drop start.length))
  else none

/-- `read_record`, the values in the order of the fields. -/
def readRecord (d : Data) (fields : List String) : Option (List String) :=
  if d.getLast? ≠ some 10 || d.contains 13 || d.contains 0 then none
  else (decode d).bind fun text =>
    let lines := splitLines text
    if lines.length ≠ fields.length then none
    else (List.zipWith readLine fields lines).mapM id

def projectFields : List String := ["schema", "kind", "origin", "project_id", "project_path", "gitlab_version"]

/-- `PROJECT_PATH`, without the components that step through the tree. -/
def isProjectPath (path : String) : Bool :=
  let parts := path.toList.splitOn '/'
  1 < parts.length && parts.all fun part =>
    part ≠ [] && part.all (fun c => c.isAlphanum || c = '_' || c = '.' || c = '-') &&
      part ≠ ['.'] && part ≠ ['.', '.']

/-- `project_result_identity` -/
def projectResultIdentity (d : Data) : Option (ℕ × String) := do
  let [schema, kind, _, projectId, projectPath, gitlabVersion] ← readRecord d projectFields | none
  if schema = "1" && kind = "pki-exchange-project" && projectId ≠ "0" && isProjectPath projectPath &&
      gitlabVersion = "18.11.3-ce.0" then
    let n ← decimal projectId.toList
    return (n, projectPath)
  else none

/-! ## The result of the package client -/

/-- The JSON object that the package client prints for a download. -/
structure PackageResult where
  status : String
  stage : String
  projectId : ℤ
  projectPath : String
  packageId : ℤ
  packageName : String
  packageVersion : String
  fileSha256 : AList fun _ : FileName => String
  destinationDir : String
  gitlabAuthorityClaimed : Bool

/-- The fixed arguments of one facade: the hash, the content of the project record, and the target. -/
structure Config where
  sha256 : Data → String
  project : Data
  service : String
  spoolRoot : String

def fileText : FileName → String
  | .key => "tls.key"
  | .csr => "tls.csr"
  | .request => "request"
  | .requestSig => "request.sig"
  | .crt => "tls.crt"
  | .chain => "ca-chain.crt"
  | .fullchain => "fullchain.crt"
  | .response => "response"
  | .responseSig => "response.sig"
  | .artifact => "artifact"
  | .other n => n

def manifestName : FileName := .other "stage-manifest"

/-- `DOWNLOAD_FILES` -/
def downloadNames : List FileName := responseNames ++ [manifestName]

variable (g : Config)

def Config.downloadPath : String := g.spoolRoot ++ "/response-download"

/-- `validate_package_result` of a download -/
def Config.validatePackageResult (requestId : String) (x : PackageResult) : Bool :=
  (projectResultIdentity g.project).any fun project =>
    (x.status = "downloaded" || x.status = "existing") && x.stage = "response" &&
      x.projectId = project.1 && x.projectPath = project.2 && 0 < x.packageId &&
      x.packageName = "pki-exchange-response-" ++ g.service && x.packageVersion = requestId &&
      x.destinationDir = g.downloadPath && !x.gitlabAuthorityClaimed &&
      (x.fileSha256.keys.toFinset = downloadNames.toFinset &&
        x.fileSha256.entries.all fun e => matchesHex 64 e.2)

/-- The digests of the downloaded files. -/
def Config.digests (files : Files) (f : FileName) : String := g.sha256 ((files.lookup f).getD [])

/-- The digests of the result are those of the files. -/
def Config.resultMatches (x : PackageResult) (files : Files) : Bool :=
  downloadNames.all fun f => x.fileSha256.lookup f = some (g.digests files f)

/-! ## The stage manifest -/

/-- The lines of the manifest of a response. -/
def Config.manifestLines (requestId : String) (files : Files) : List Text :=
  ["schema=2".toList, "kind=pki-exchange-stage".toList, "stage=response".toList,
    "service=".toList ++ g.service.toList, "request_id=".toList ++ requestId.toList,
    "package_version=".toList ++ requestId.toList, "payload_count=6".toList] ++
    responseNames.map fun f =>
      "payload=".toList ++ (fileText f).toList ++ " sha256=".toList ++ (g.digests files f).toList

/-- `stage_manifest` of a response -/
def Config.stageManifest (requestId : String) (files : Files) : Data :=
  encode (unlines (g.manifestLines requestId files))

/-- `validate_manifest` -/
def Config.validateManifest (requestId : String) (files : Files) : Bool :=
  let manifest := (files.lookup manifestName).getD []
  manifest.getLast? = some 10 && !manifest.contains 13 && !manifest.contains 0 &&
    (decode manifest).any fun text => splitLines text = g.manifestLines requestId files

end PlatformConfig.HostGitlab
