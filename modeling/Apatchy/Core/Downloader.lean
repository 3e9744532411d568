import Apatchy.Foundations.FileTree
import Apatchy.Foundations.Machine
import Apatchy.Foundations.Text

/-!
# Downloading httpd and its dependencies

`download_apache` fetches and unpacks the archive of httpd, and then those of APR,
APR-Util and Expat (`Apatchy.downloadApache`). It may be interrupted at any point, and the
next call goes on from the tree that is there. What the network answers and what
`tarfile` finds in an archive are parameters (`Apatchy.Web`).

The two kinds of archives are unpacked differently. A dependency is unpacked under the
name it has in its archive, and renamed in one step when it is complete: a directory
`srclib/apr` that exists is complete. The archive of httpd is unpacked in place, and the
next call takes a directory `httpd-v` that exists for complete. So a call that returns
leaves everything in place, unless the unpacking of httpd was cut off in the middle by it
or an earlier one (`Apatchy.downloads_returnsComplete`,
`Apatchy.downloads_not_returnsComplete`).
-/

namespace Apatchy

/-! ### The program -/

/-- **What is outside of the program**: what the servers answer, and what `tarfile` finds
in a file. -/
structure Web where
  /-- What a server answers: the body of a response, unless it answers with an error. -/
  get : String → Option (List UInt8)
  /-- The members of an archive, unless the file is none. -/
  untar : List UInt8 → Option (List Member)

/-- `Config.APACHE_MIRROR`. -/
def apacheMirror : String := "https://dlcdn.apache.org/httpd"

/-- `Config.APACHE_ARCHIVE`. -/
def apacheArchive : String := "https://archive.apache.org/dist/httpd"

/-- `Config.DEFAULT_APACHE_VERSION`. -/
def defaultApacheVersion : String := "2.4.46"

/-- Where APR is. -/
def aprUrl : String := "https://dlcdn.apache.org/apr/apr-1.7.6.tar.gz"

/-- Where APR-Util is. -/
def aprUtilUrl : String := "https://dlcdn.apache.org/apr/apr-util-1.6.3.tar.gz"

/-- Where Expat is. -/
def expatUrl : String :=
  "https://github.com/libexpat/libexpat/releases/download/R_2_6_4/expat-2.6.4.tar.gz"

/-- `url.split("/")[-1]`. -/
def lastPart (url : String) : String :=
  String.ofList ((url.toList.splitOn '/').getLast?.getD [])

/-- `Path.exists`. -/
def pathExists (p : Path) : Task FileTree Bool := do
  let t ← Task.get
  return (t p).isSome

/-- `os.remove`. -/
def removeFile (p : Path) : Task FileTree Unit := Task.step fun t => t.erase p

variable (web : Web)

/-- `_download_file`: the request, and the file, which is written as the response comes. A
response that breaks off without an error leaves an archive whose unpacking breaks off
there with an exception. -/
def downloadFile (url filename : String) : Task FileTree Unit := do
  Task.step id
  match web.get url with
  | some body => writeFile [filename] body
  | none => Task.raise

/-- `tarfile.open`, and the members that are found. -/
def openTar (filename : String) : Task FileTree (List Member) := do
  let t ← Task.get
  match t [filename] with
  | some (.file data) =>
    match web.untar data with
    | some members => pure members
    | none => Task.raise
  | _ => Task.raise

/-- Move what was unpacked to where it belongs. -/
def moveExtracted (extractedPath targetDir : Path) : Task FileTree Unit := do
  let extracted ← pathExists extractedPath
  if extracted && extractedPath ≠ targetDir then do
    let there ← pathExists targetDir
    if there then Task.step fun t => t.eraseBelow targetDir
    else pure ()
    Task.step fun t => t.move extractedPath targetDir
  else pure ()

/-- `_download_and_extract`; `strip_components` is not used. -/
def downloadAndExtract (url : String) (targetDir : Path) : Task FileTree Unit := do
  let filename := lastPart url
  downloadFile web url filename
  let members ← openTar web filename
  extractAll targetDir.dropLast members
  let extractedName := replaceText ".tar.gz" "" filename
  moveExtracted (targetDir.dropLast ++ [extractedName]) targetDir
  removeFile [filename]

/-- A dependency, unless its directory exists. -/
def downloadMissing (url : String) (targetDir : Path) : Task FileTree Unit := do
  let there ← pathExists targetDir
  if there then pure ()
  else downloadAndExtract web url targetDir

/-- `_download_dependencies`. -/
def downloadDependencies (httpdRoot : Path) : Task FileTree Unit := do
  mkdir (httpdRoot ++ ["srclib"])
  downloadMissing web aprUrl (httpdRoot ++ ["srclib", "apr"])
  downloadMissing web aprUtilUrl (httpdRoot ++ ["srclib", "apr-util"])
  mkdir (httpdRoot ++ ["srclib", "apr-util", "xml"])
  downloadMissing web expatUrl (httpdRoot ++ ["srclib", "apr-util", "xml", "expat"])

/-- The archive of httpd, from the mirror or else from the archive server. -/
def fetchHttpd (version : String) : Task FileTree Unit :=
  let tarball := "httpd-" ++ version ++ ".tar.gz"
  Task.attempt (downloadFile web (apacheMirror ++ "/" ++ tarball) tarball)
    (downloadFile web (apacheArchive ++ "/" ++ tarball) tarball)

/-- The archive of httpd is unpacked in place. -/
def extractHttpd (version : String) : Task FileTree Unit := do
  let members ← openTar web ("httpd-" ++ version ++ ".tar.gz")
  extractAll [] members

/-- The version that is downloaded. -/
def chosenVersion : Option String → String
  | some version => if version = "" then defaultApacheVersion else version
  | none => defaultApacheVersion

/-- **`download_apache`**. -/
def downloadApache (version : Option String) : Task FileTree Path := do
  let version := chosenVersion version
  let targetDir : Path := ["httpd-" ++ version]
  let there ← pathExists targetDir
  if there then do
    -- a root that is there is taken for whole
    let apr ← pathExists (targetDir ++ ["srclib", "apr"])
    let aprUtil ← pathExists (targetDir ++ ["srclib", "apr-util"])
    let expat ← pathExists (targetDir ++ ["srclib", "apr-util", "xml", "expat"])
    if apr && aprUtil && expat then return targetDir
    else do
      downloadDependencies web targetDir
      return targetDir
  else do
    fetchHttpd web version
    extractHttpd web version
    removeFile ["httpd-" ++ version ++ ".tar.gz"]
    downloadDependencies web targetDir
    return targetDir

/-! ### Calls, one after the other -/

/-- **Calls of `download_apache`**, each with the faults that hit its steps. -/
def downloads (version : Option String) :
    Machine FileTree (List (Option Fault)) (Ending Path) where
  step t faults :=
    let result := (downloadApache web version).run t faults
    (result.1, result.2.1)

/-- **Whether a call is cut off in the middle of unpacking httpd**: the directory is not
there, the archive is fetched, and the unpacking of it does not return, though it is not
hit at once. -/
def cutOffInside (version : String) (t : FileTree) (faults : List (Option Fault)) : Bool :=
  (t ["httpd-" ++ version]).isNone &&
    match (fetchHttpd web version).run t faults with
    | (.returned _, t', faults') =>
      match (extractHttpd web version).run t' faults' with
      | (.returned _, _, _) => false
      | _ => !hitAtOnce faults'
    | _ => false

/-- The members of the archives, each with the directory at the top. -/
structure Archives where
  /-- Those of httpd. -/
  httpd : List Member
  /-- Those of APR. -/
  apr : List Member
  /-- Those of APR-Util. -/
  aprUtil : List Member
  /-- Those of Expat. -/
  expat : List Member

/-- The members of an archive are in a tree, below a directory that is in the place of the
one at the top. -/
def HasTree (p : Path) (ms : List Member) (t : FileTree) : Prop :=
  ∀ m ∈ ms, t (p ++ m.path.tail) = some m.node

/-- The tree of httpd: where it belongs, and the members of its archive. -/
def Archives.httpdTree (archives : Archives) (version : String) : Path × List Member :=
  (["httpd-" ++ version], archives.httpd)

/-- The tree of APR. -/
def Archives.aprTree (archives : Archives) (version : String) : Path × List Member :=
  (["httpd-" ++ version, "srclib", "apr"], archives.apr)

/-- The tree of APR-Util. -/
def Archives.aprUtilTree (archives : Archives) (version : String) : Path × List Member :=
  (["httpd-" ++ version, "srclib", "apr-util"], archives.aprUtil)

/-- The tree of Expat. -/
def Archives.expatTree (archives : Archives) (version : String) : Path × List Member :=
  (["httpd-" ++ version, "srclib", "apr-util", "xml", "expat"], archives.expat)

/-- The four trees. -/
def Archives.trees (archives : Archives) (version : String) : List (Path × List Member) :=
  [archives.httpdTree version, archives.aprTree version, archives.aprUtilTree version,
    archives.expatTree version]

/-- **The tree is complete**: it has every member of every archive. -/
def Archives.Complete (archives : Archives) (version : String) (t : FileTree) : Prop :=
  ∀ x ∈ archives.trees version, HasTree x.1 x.2 t

/-- **A call that returns leaves a complete tree.** -/
def ReturnsComplete (archives : Archives) (version : String)
    (e : Machine.Entry FileTree (List (Option Fault)) (Ending Path)) : Prop :=
  ∀ p, e.answer = .returned p → archives.Complete version e.post

/-- An archive with a directory at the top: its members are below it, and no two have one
path. -/
structure TopDirectory (top : String) (ms : List Member) : Prop where
  /-- The members are at the directory or below it. -/
  below : ∀ m ∈ ms, ∃ rest, m.path = top :: rest
  /-- Their paths differ. -/
  nodup : (ms.map Member.path).Nodup

/-- **What is published**: at each URL, the archive that belongs there. The archive of
httpd has no APR and no APR-Util, and that of APR-Util has no Expat. -/
structure Web.Publishes (version : String) (archives : Archives) : Prop where
  /-- The archive of httpd, on the mirror and on the archive server. -/
  httpd : ∀ server ∈ [apacheMirror, apacheArchive], ∀ body,
    web.get (server ++ "/" ++ ("httpd-" ++ version ++ ".tar.gz")) = some body →
      web.untar body = some archives.httpd
  /-- The archive of APR. -/
  apr : ∀ body, web.get aprUrl = some body → web.untar body = some archives.apr
  /-- The archive of APR-Util. -/
  aprUtil : ∀ body, web.get aprUtilUrl = some body → web.untar body = some archives.aprUtil
  /-- The archive of Expat. -/
  expat : ∀ body, web.get expatUrl = some body → web.untar body = some archives.expat
  /-- The names of the directories at the top. -/
  tops : TopDirectory ("httpd-" ++ version) archives.httpd ∧
    TopDirectory "apr-1.7.6" archives.apr ∧ TopDirectory "apr-util-1.6.3" archives.aprUtil ∧
    TopDirectory "expat-2.6.4" archives.expat
  /-- The archive of httpd comes without APR and APR-Util. -/
  httpd_free : ∀ m ∈ archives.httpd,
    ∀ name ∈ ["apr", "apr-1.7.6", "apr-util", "apr-util-1.6.3"],
      ¬ ["httpd-" ++ version, "srclib", name] <+: m.path
  /-- The archive of APR-Util comes without Expat. -/
  aprUtil_free : ∀ m ∈ archives.aprUtil, ∀ name ∈ ["expat", "expat-2.6.4"],
    ¬ ["apr-util-1.6.3", "xml", name] <+: m.path

end Apatchy
