import PassGraph.Files.Basic

/-!
# Hosts

What a command needs of the machine that it runs on: to look at paths, to read and write texts, and
to print. A command is written for any host. One host is here, a state that holds files and what was
printed; the machine itself is another.

## Main definitions

* `Host` — the operations
* `Session`, `Sessioned` — files and what was printed, as a host
-/

namespace PassGraph

/-- What a command needs of the machine that it runs on. -/
class Host (m : Type → Type) where
  /-- What is at the end of a path. -/
  look : String → m (Except FileFault Files.Found)
  /-- The text at the end of a path. -/
  read : String → m (Except FileFault String)
  /-- Have a text at the end of a path. -/
  write : (path text : String) → m (Except FileFault Unit)
  /-- Print a text. -/
  print : String → m Unit

/-- Files, and what was printed. -/
structure Session where
  /-- The files. -/
  files : Files := {}
  /-- What was printed. -/
  printed : String := ""

/-- What happens in a session. -/
abbrev Sessioned := StateM Session

instance : Host Sessioned where
  look path := fun s => (s.files.look path, s)
  read path := fun s => (s.files.read path, s)
  write path text := fun s =>
    match s.files.write path text with
    | .ok files => (.ok (), { s with files })
    | .error f => (.error f, s)
  print text := fun s => ((), { s with printed := s.printed ++ text })

end PassGraph
