import ChangeRelay.Host.Prefs
import ChangeRelay.Store.Files

/-!
# Stored preferences

A host keeps its preferences in a store, under one key. A host that cannot read them, or has no
store, runs on the defaults; it writes them down only where there was nothing.

Model of `load_prefs`, over `load_or_init`.
-/

namespace ChangeRelay.Prefs

/-- How preferences are kept. -/
def kept : Kept Prefs := ⟨default, read?, write⟩

/-- The key of a host's preferences. -/
def key : String := "dispatch_host"

/-- The preferences kept below a directory, or else the defaults. -/
def loadFrom (base : Path) (fs : Files) : Prefs × Files :=
  match Store.openFiles base fs with
  | (.error _, fs) => (default, fs)
  | (.ok (), fs) => match kept.loadOrInit (Store.files base) key fs with
    | (.ok p, fs) => (p, fs)
    | (.error _, fs) => (default, fs)

end ChangeRelay.Prefs
