namespace VirtualFs

/-- What was installed as the default, if anything was. -/
structure Default (α : Type) where
  installed : Option α
  deriving Repr, DecidableEq

namespace Default

variable {α : Type}

/-- Nothing is installed. -/
def unset : Default α :=
  ⟨none⟩

/-- Installs a filesystem in the place of any other. -/
def install (fs : α) (_ : Default α) : Default α :=
  ⟨some fs⟩

/-- The default now. From its first use on, the host counts as installed. -/
def current (host : α) (default : Default α) : α × Default α :=
  let fs := default.installed.getD host
  (fs, ⟨some fs⟩)

end Default

end VirtualFs
