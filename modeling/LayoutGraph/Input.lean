-- Inputs by path: the image of an object file among the files, and a call to
-- parse it.
import LayoutGraph.Files
import LayoutGraph.Image
import LayoutGraph.Object.Debug
import LayoutGraph.Pass

namespace LayoutGraph

/-! ## Images of files -/

/-- The image of an object file's bytes, and what reading it left in the log. -/
def Image.ofBytes (path : String) (bytes : Bytes) : Except Failure Image × List Log.Event :=
  match Object.ObjectFile.ofBytes bytes with
  | .error defect => (.error (.unavailable (.unreadableFile path defect)), [])
  | .ok file =>
    match file.debugSections #[] with
    | .error (name, defect) log =>
      (.error (.unavailable (.unreadableSection name defect)), log.toList)
    | .ok sections log =>
      if sections.info.bytes.isEmpty then (.error (.unavailable (.noDebugInfo path)), log.toList)
      else
        let (image, later) := Image.ofSections path file.littleEndian sections
        (image, log.toList ++ later)

/-- The image of the file at a path. -/
def Files.image (files : Files) (path : String) : Except Failure Image × List Log.Event :=
  match files.read path with
  | .error e => (.error (.io e), [])
  | .ok bytes => Image.ofBytes path bytes

/-! ## Calls -/

/-- The report of a call whose log starts with other events. -/
def Report.after (earlier : List Log.Event) (r : Report) : Report :=
  { r with log := earlier ++ r.log }

/-- A call to parse the file at a path into a store. It fails as a whole on an overflow alone. -/
def Session.parseFile {σ : Type} [Store σ] (s : Session) (files : Files) (path : String)
    (store : σ) : Except Failure (Report × Session) × σ :=
  let (image, earlier) := files.image path
  match image with
  | .error e =>
    if Pass.handled e then
      let (report, s) := s.fail e
      (.ok (report.after earlier, s), store)
    else (.error e, store)
  | .ok image =>
    let (result, store) := Session.parse image.toSource store
    (result.map fun (report, s) => (report.after earlier, s), store)

end LayoutGraph
