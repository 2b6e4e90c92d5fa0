import Stencil.Files.Outage
import Stencil.Store.File

/-!
# A store in a file when the system fails
-/

namespace Stencil.Store

/-- The store in the file of a path, where writing the file goes as an outage allows. -/
def fileIn (outage : Option Outage) (path : String) : Store FileState :=
  { file path with
    persist := do
      let m ← loaded path
      (Files.replaceIn outage path (fileBytes m)).zoom Lens.snd }

end Stencil.Store
