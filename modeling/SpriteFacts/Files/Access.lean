/-! What a run needs of the files around it, in any context `m` of effects: the world, or a tree of files that
    is a value. -/

namespace SpriteFacts

/-- Access to files by their paths. -/
structure FileAccess (m : Type → Type) where
  /-- The path leads to something, which perhaps cannot be read. -/
  isThere : String → m Bool
  /-- The bytes of a file, unless it cannot be read. -/
  read? : String → m (Option ByteArray)
  /-- Makes the directory and those on the way to it, unless they are there; `false` if that fails. -/
  makeDirs : String → m Bool
  /-- Makes the text the content of a file; `false` if that fails, and then no file is changed. -/
  write : String → String → m Bool

end SpriteFacts
