/-
  Patchbay.Catalog.Builtin — the catalog a run uses unless another is named.
-/

import Patchbay.Catalog

namespace Patchbay.Catalog

open Rate in
def builtinTypes : List ModuleType := [
  ⟨1, "Keyboard", [], [control, control, control, control, control], 0⟩,
  ⟨3, "4-Out", [audio, audio, audio, audio], [], 3⟩,
  ⟨4, "2-Out", [audio, audio], [], 3⟩,
  ⟨7, "OscB", [control, control, audio, audio, audio], [audio], 7⟩,
  ⟨9, "OscC", [control, control, audio], [audio], 6⟩,
  ⟨18, "Mix2-1B", [audio, audio, audio], [audio], 4⟩,
  ⟨23, "EnvADSR", [control, control, audio], [control, audio], 8⟩,
  ⟨24, "LfoC", [control], [control], 5⟩,
  ⟨81, "LevMult", [audio, control], [audio], 0⟩,
  ⟨92, "FltLP", [control, audio, audio], [audio], 6⟩,
  ⟨127, "Constant", [], [control], 2⟩]

def builtin : Catalog := ⟨builtinTypes, by decide⟩

end Patchbay.Catalog
