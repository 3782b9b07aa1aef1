import DbLab.Core

namespace DbLab

/-- The text of an error. -/
def errorText : DbError → String
  | .invalidInput reason => s!"invalid input: {reason}"
  | .io reason => s!"I/O error: {reason}"
  | .corruption offset reason => s!"corrupt storage at byte offset {offset}: {reason}"
  | .unsupportedVersion format found supported =>
    s!"unsupported {format} version {found}; this build supports version {supported}"
  | .poisoned =>
    "engine is poisoned by a previous persistent-write failure; reopen it before continuing"

end DbLab
