import PathPolicy.Automaton.Blob
import PathPolicy.Files.Host
import PathPolicy.Files.Tree
import PathPolicy.Kernel.Interface
import PathPolicy.Protection.Policy

/-!
# A world of files

A world is a tree of files, a working place, a log of events, and a kernel that answers when its
files are written. Programs that use files run in a world as functions from worlds to worlds.
-/

namespace PathPolicy

/-- A kernel that takes the matcher test. -/
structure Kernel.Matcher where
  /-- The automaton that was last written to `.load`. -/
  loaded : Option Packed
  /-- How many paths it has answered. -/
  asked : Nat
  /-- One of its answers may be wrong: which one, and what it is instead. -/
  wrong : Option (Nat × Bytes)
  /-- After one of its answers `.load` may refuse to be written. -/
  refuseAfter : Option Nat

/-- How the kernel answers when a file of its directory is written. -/
inductive Kernel.Behaviour where
  /-- It leaves all files as they are. -/
  | silent
  /-- A policy of protection rules that is written to `.load` is loaded: `.dump` holds it and `hash`
  its digest. -/
  | loading
  /-- It answers the matcher test: `result` holds the value of the path last written to `test`. -/
  | matching (matcher : Kernel.Matcher)

/-- A tree of files, the place where relative paths start, the directory of the kernel and how it
behaves, and the events that were reported, last first. -/
structure World where
  tree : Files.Tree
  workingPlace : Files.Place
  kernelPlace : Files.Place
  behaviour : Kernel.Behaviour
  events : List Event

namespace World

/-- The place of a file of a submodule. -/
def fileOf (w : World) (submodule file : String) : Files.Place :=
  w.kernelPlace ++ [submodule, file]

/-- Makes a policy the one that is loaded. -/
def adopt (w : World) (blob : Bytes) : Except Protection.Blob.Fault (Digest × World) := do
  let (digest, _) ← Protection.Blob.decode blob
  let dumped := w.tree.put (w.fileOf Protection.name Kernel.dumpFile) (.file blob)
  let text := Bytes.ofString (digest.hex ++ "\n")
  let tree := dumped.put (w.fileOf Protection.name Kernel.digestFile) (.file text)
  return (digest, { w with tree })

/-- Answers the path that was written to `test`: with its value in decimal, all ones if there is
none. -/
def answer (w : World) (k : Kernel.Matcher) (path : Bytes) : World :=
  let put := fun (file : String) (node : Files.Node) (tree : Files.Tree) =>
    tree.put (w.fileOf Kernel.matcherDirectory file) node
  let right := k.loaded.map fun t =>
    Bytes.ofString s!"{((t.lookup path).getD reservedValue).toNat}\n"
  let given :=
    match k.wrong with
    | some (asked, instead) => if asked = k.asked then some instead else right
    | none => right
  let answered := (given.map fun text => put Kernel.answerFile (.file text) w.tree).getD w.tree
  { w with
    tree :=
      if k.refuseAfter = some k.asked then put Kernel.loadFile .directory answered else answered
    behaviour := .matching { k with asked := k.asked + 1 } }

/-- What the kernel does after a file has been written. -/
def react (w : World) (place : Files.Place) (content : Bytes) : World :=
  match w.behaviour with
  | .silent => w
  | .loading =>
    if place = w.fileOf Protection.name Kernel.loadFile then
      match w.adopt content with
      | .ok (_, w) => w
      | .error _ => w
    else w
  | .matching k =>
    if place = w.fileOf Kernel.matcherDirectory Kernel.loadFile then
      match Packed.decode content none with
      | .ok t => { w with behaviour := .matching { k with loaded := some t } }
      | .error _ => w
    else if place = w.fileOf Kernel.matcherDirectory Kernel.questionFile then w.answer k content
    else w

instance : Host (StateM World) where
  readFile path := fun w =>
    match w.tree.read w.workingPlace path with
    | .ok (content, tree) => (.ok content, { w with tree })
    | .error fault => (.error fault, w)
  writeFile path content := fun w =>
    match w.tree.write w.workingPlace path content with
    | .ok (place, tree) => (.ok (), { w with tree }.react place content)
    | .error fault => (.error fault, w)
  createDirectories path := fun w =>
    let (result, tree) := w.tree.createDirectories w.workingPlace path
    (result, { w with tree })
  listDirectory path := fun w => (w.tree.list w.workingPlace path, w)
  isDirectory path := fun w => (w.tree.at? w.workingPlace path = some .directory, w)
  isFile path := fun w =>
    (match w.tree.at? w.workingPlace path with
      | some (.file _) => true
      | _ => false, w)
  report event := fun w => ((), { w with events := event :: w.events })

end World

end PathPolicy
