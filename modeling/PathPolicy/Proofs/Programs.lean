import PathPolicy.Files.World
import PathPolicy.Proofs.Hexadecimal
import PathPolicy.Proofs.Places
import PathPolicy.Proofs.Wire

/-!
# What programs do to a kernel

The kernel says in two files which policy it has loaded. A program may read and write many files,
but what it does to these two is little: it leaves them as they are, or loads a policy (`Follows`).
That is so for every single access to a file, and from there for programs that are put together
(`Moves`). Nothing but the accesses is special to this relation between worlds, so the same is shown
for every relation that allows them (`AllowsReading`, `AllowsLoading`).
-/

namespace PathPolicy

open Files (Path Place Tree)

/-! ## Worlds -/

namespace World

/-- A file of the protection submodule. -/
def held (w : World) (file : String) : Option Files.Node :=
  w.tree.get? (w.fileOf Protection.name file)

/-- The files in which the kernel says which policy it has loaded. -/
def account : List String := [Kernel.digestFile, Kernel.dumpFile]

/-- The kernel has loaded a policy. -/
structure Has (w : World) (p : Policy) : Prop where
  digest : w.held Kernel.digestFile = some (.file (Bytes.ofString (p.digest.hex ++ "\n")))
  dump : w.held Kernel.dumpFile = some (.file p.binary)

/-- The places of two worlds are the same, and so is the behaviour of the kernel. -/
structure SamePlaces (w w' : World) : Prop where
  workingPlace : w'.workingPlace = w.workingPlace
  kernelPlace : w'.kernelPlace = w.kernelPlace
  behaviour : w'.behaviour = w.behaviour

/-- The files of the account stay as they are. -/
def Keeps (w w' : World) : Prop :=
  ∀ file ∈ account, ∀ content, w.held file = some (.file content) →
    w'.held file = some (.file content)

/-- A world in which all may be different but the account of the kernel. -/
structure Steady (w w' : World) : Prop extends SamePlaces w w' where
  keeps : Keeps w w'

/-- At most, the kernel has loaded one of the policies. -/
structure Follows (P : Policy → Prop) (w w' : World) : Prop extends SamePlaces w w' where
  account : Keeps w w' ∨ ∃ p, P p ∧ w'.Has p

variable {P Q : Policy → Prop} {w w₁ w₂ : World} {p : Policy}

theorem SamePlaces.refl (w : World) : SamePlaces w w := ⟨rfl, rfl, rfl⟩

theorem SamePlaces.symm (h : SamePlaces w w₁) : SamePlaces w₁ w :=
  ⟨h.workingPlace.symm, h.kernelPlace.symm, h.behaviour.symm⟩

theorem SamePlaces.trans (h : SamePlaces w w₁) (h' : SamePlaces w₁ w₂) : SamePlaces w w₂ :=
  ⟨h'.workingPlace.trans h.workingPlace, h'.kernelPlace.trans h.kernelPlace,
    h'.behaviour.trans h.behaviour⟩

theorem SamePlaces.fileOf (h : SamePlaces w w₁) (submodule file : String) :
    w₁.fileOf submodule file = w.fileOf submodule file := by
  unfold World.fileOf
  rw [h.kernelPlace]

theorem Has.keeps (h : w.Has p) (hw : Keeps w w₁) : w₁.Has p :=
  ⟨hw _ (by simp [World.account]) _ h.digest, hw _ (by simp [World.account]) _ h.dump⟩

theorem Steady.refl (w : World) : Steady w w := ⟨.refl w, fun _ _ _ h => h⟩

theorem Steady.trans (h : Steady w w₁) (h' : Steady w₁ w₂) : Steady w w₂ :=
  ⟨h.toSamePlaces.trans h'.toSamePlaces,
    fun file hfile content hc => h'.keeps file hfile content (h.keeps file hfile content hc)⟩

theorem Steady.follows (h : Steady w w₁) : Follows P w w₁ := ⟨h.toSamePlaces, .inl h.keeps⟩

theorem Follows.refl (w : World) : Follows P w w := (Steady.refl w).follows

theorem Follows.trans (h : Follows P w w₁) (h' : Follows P w₁ w₂) : Follows P w w₂ := by
  refine ⟨h.toSamePlaces.trans h'.toSamePlaces, ?_⟩
  rcases h'.account with hkeeps' | hloaded
  · rcases h.account with hkeeps | ⟨p, hp, has⟩
    · exact .inl fun file hfile content hc =>
        hkeeps' file hfile content (hkeeps file hfile content hc)
    · exact .inr ⟨p, hp, has.keeps hkeeps'⟩
  · exact .inr hloaded

/-- If there is nothing to load, the account stays as it is. -/
theorem Follows.steady (h : Follows (fun _ => False) w w₁) : Steady w w₁ :=
  ⟨h.toSamePlaces, h.account.resolve_right fun ⟨_, hp, _⟩ => hp⟩

theorem held_put {place : Place} {n : Files.Node} {file : String}
    (h : w.fileOf Protection.name file ≠ place) :
    { w with tree := w.tree.put place n }.held file = w.held file :=
  Tree.get?_put_of_ne h

theorem steady_put {place : Place} {n : Files.Node}
    (h : ∀ file ∈ account, w.fileOf Protection.name file ≠ place) :
    Steady w { w with tree := w.tree.put place n } :=
  ⟨⟨rfl, rfl, rfl⟩, fun file hfile _ hc => (held_put (h file hfile)).trans hc⟩

/-- A file that changes by itself may do so, because no file of the account does. -/
theorem steady_put_changing {place : Place} {first later : Bytes}
    (h : w.tree.get? place = some (.changing first later)) (n : Files.Node) :
    Steady w { w with tree := w.tree.put place n } := by
  refine ⟨⟨rfl, rfl, rfl⟩, fun file _ content hc => ?_⟩
  by_cases hplace : w.fileOf Protection.name file = place
  · rw [held, hplace, h] at hc
    cases hc
  · exact (held_put hplace).trans hc

/-- A policy that the kernel takes is the one that it has. -/
theorem has_of_adopt {blob : Bytes} {d : Digest} (h : w.adopt blob = .ok (d, w₁)) (text : String) :
    w₁.Has ⟨blob, d, text⟩ ∧ SamePlaces w w₁ ∧
      ∃ rules, Protection.Blob.decode blob = .ok (d, rules) := by
  unfold adopt at h
  cases hdecode : Protection.Blob.decode blob with
  | error fault => simp [hdecode, bind, Except.bind] at h
  | ok found =>
    obtain ⟨digest, rules⟩ := found
    simp only [hdecode, bind, Except.bind] at h
    obtain ⟨rfl, rfl⟩ := Prod.mk.inj (Except.ok.inj h)
    refine ⟨⟨?_, ?_⟩, ⟨rfl, rfl, rfl⟩, rules, rfl⟩
    · exact Tree.get?_put (by simp [fileOf])
    · refine (Tree.get?_put_of_ne ?_).trans (Tree.get?_put (by simp [fileOf]))
      simp [fileOf, Kernel.dumpFile, Kernel.digestFile]

def putFile (w : World) (place : Place) (content : Bytes) : World :=
  { w with tree := w.tree.put place (.file content) }

theorem readFile_eq (w : World) (path : Path) : (Host.readFile path : StateM World _) w =
    match w.tree.read w.workingPlace path with
    | .ok (content, tree) => (.ok content, { w with tree })
    | .error fault => (.error fault, w) := rfl

theorem writeFile_eq (w : World) (path : Path) (content : Bytes) :
    (Host.writeFile path content : StateM World _) w =
      match w.tree.write w.workingPlace path content with
      | .ok (place, tree) => (.ok (), { w with tree }.react place content)
      | .error fault => (.error fault, w) := rfl

/-- A file is written at the place of its path, where there is no directory, and then the kernel
reacts. -/
theorem writeFile_cases (w : World) (path : Path) (content : Bytes) :
    (Host.writeFile path content : StateM World _) w = (.ok (),
        (w.putFile (Tree.placeOf w.workingPlace path) content).react
          (Tree.placeOf w.workingPlace path) content) ∧
        w.tree.get? (Tree.placeOf w.workingPlace path) ≠ some .directory ∨
      ∃ fault, (Host.writeFile path content : StateM World _) w = (.error fault, w) := by
  rw [writeFile_eq]
  cases hwrite : w.tree.write w.workingPlace path content with
  | error fault => exact .inr ⟨fault, rfl⟩
  | ok found =>
    obtain ⟨place, tree⟩ := found
    obtain ⟨-, ⟨node, hresolve, hnode⟩, rfl⟩ := Tree.write_eq_ok_iff.1 hwrite
    obtain ⟨rfl, rfl⟩ := Tree.resolve_eq_ok hresolve
    exact .inl ⟨rfl, hnode⟩

theorem react_of_ne (hw : w.behaviour = .loading) {place : Place} (content : Bytes)
    (h : place ≠ w.fileOf Protection.name Kernel.loadFile) : w.react place content = w := by
  unfold react
  simp only [hw, if_neg h]

/-- A policy whose digest stands in its binary form is loaded, if the kernel takes it. -/
theorem react_follows (hw : w.behaviour = .loading) {place : Place}
    (hplace : place = w.fileOf Protection.name Kernel.loadFile) (hp : P p)
    (hdigest : ∀ d rules, Protection.Blob.decode p.binary = .ok (d, rules) → d = p.digest) :
    w.Follows P (w.react place p.binary) := by
  unfold react
  simp only [hw, if_pos hplace]
  cases hadopt : w.adopt p.binary with
  | error fault => exact Follows.refl w
  | ok found =>
    obtain ⟨d, w'⟩ := found
    obtain ⟨has, hsame, rules, hdecode⟩ := has_of_adopt hadopt p.text
    obtain rfl := hdigest d rules hdecode
    exact ⟨hsame, .inr ⟨p, hp, has⟩⟩

end World

/-! ## The kernel of a world -/

theorem Kernel.Interface.placeOf_path (k : Kernel.Interface) (workingPlace : Place)
    {submodule file : String} (hs : Path.IsName submodule) (hf : Path.IsName file) :
    Tree.placeOf workingPlace (k.path submodule file) =
      Tree.placeOf workingPlace k.root ++ [submodule, file] := by
  unfold Kernel.Interface.path Kernel.Interface.directory
  rw [Tree.placeOf_join _ _ hf, Tree.placeOf_join _ _ hs]
  simp

def Kernel.Interface.placeIn (k : Kernel.Interface) (w : World) : Place :=
  Tree.placeOf w.workingPlace k.root

def Kernel.Interface.fileIn (k : Kernel.Interface) (w : World) (submodule file : String) : Place :=
  k.placeIn w ++ [submodule, file]

theorem World.SamePlaces.placeIn {w w' : World} (h : w.SamePlaces w') (k : Kernel.Interface) :
    k.placeIn w' = k.placeIn w := by
  unfold Kernel.Interface.placeIn
  rw [h.workingPlace]

theorem World.SamePlaces.fileIn {w w' : World} (h : w.SamePlaces w') (k : Kernel.Interface)
    (submodule file : String) : k.fileIn w' submodule file = k.fileIn w submodule file := by
  unfold Kernel.Interface.fileIn
  rw [h.placeIn]

/-- The directory of the kernel is that of a kernel which loads what is written. -/
structure Kernel.Interface.Reaches (k : Kernel.Interface) (w : World) : Prop where
  place : Tree.placeOf w.workingPlace k.root = w.kernelPlace
  behaviour : w.behaviour = .loading

section Reaches

variable {k : Kernel.Interface} {w w' : World}

theorem Kernel.Interface.Reaches.same (h : k.Reaches w) (hw : w.SamePlaces w') : k.Reaches w' := by
  refine ⟨?_, hw.behaviour.trans h.behaviour⟩
  rw [hw.workingPlace, hw.kernelPlace, h.place]

theorem Kernel.Interface.Reaches.placeOf_path (h : k.Reaches w) {submodule file : String}
    (hs : Path.IsName submodule) (hf : Path.IsName file) :
    Tree.placeOf w.workingPlace (k.path submodule file) = w.fileOf submodule file := by
  rw [k.placeOf_path _ hs hf, h.place]
  rfl

theorem Kernel.Interface.Reaches.fileIn_eq (h : k.Reaches w) (submodule file : String) :
    k.fileIn w submodule file = w.fileOf submodule file := by
  unfold fileIn placeIn World.fileOf
  rw [h.place]

end Reaches

/-- A file of the kernel that it neither loads from nor gives account in. -/
def Kernel.IsFree (submodule file : String) : Prop :=
  Path.IsName submodule ∧ Path.IsName file ∧
    (submodule = Protection.name → file ∉ Kernel.loadFile :: World.account)

instance (submodule file : String) : Decidable (Kernel.IsFree submodule file) :=
  inferInstanceAs (Decidable (_ ∧ _ ∧ _))

theorem Kernel.IsFree.fileOf_ne {submodule file other : String}
    (h : Kernel.IsFree submodule file) (w : World)
    (hother : other ∈ Kernel.loadFile :: World.account) :
    w.fileOf Protection.name other ≠ w.fileOf submodule file := by
  intro heq
  obtain ⟨hsubmodule, hfile⟩ := List.cons.inj (List.append_cancel_left heq)
  apply h.2.2 hsubmodule.symm
  rwa [← (List.cons.inj hfile).1]

/-! ## Programs -/

def World.run {α : Type} (w : World) (t : Task (StateM World) α) : Except Failure α × World :=
  StateT.run (ExceptT.run t) w

section Run

variable {α β : Type} {w w' : World} {t : Task (StateM World) α} {f : α → Task (StateM World) β}

theorem World.pure_eq (a : α) (w : World) : (pure a : StateM World α) w = (a, w) := rfl

theorem World.bind_eq (s : StateM World α) (f : α → StateM World β) (w : World) :
    (s >>= f) w = f (s w).1 (s w).2 := rfl

theorem World.run_bind : w.run (t >>= f) =
    match w.run t with
    | (.ok a, w₁) => w₁.run (f a)
    | (.error e, w₁) => (.error e, w₁) := by
  unfold run
  rw [ExceptT.run_bind, StateT.run_bind]
  cases StateT.run (ExceptT.run t) w with
  | mk r w₁ => cases r <;> rfl

theorem World.run_bind_of_ok {a : α} (h : w.run t = (.ok a, w')) :
    w.run (t >>= f) = w'.run (f a) := by
  rw [run_bind, h]

theorem World.run_bind_of_error {e : Failure} (h : w.run t = (.error e, w')) :
    w.run (t >>= f) = (.error e, w') := by
  rw [run_bind, h]

theorem World.run_bind_ok {b : β} (h : w.run (t >>= f) = (.ok b, w')) :
    ∃ a w₁, w.run t = (.ok a, w₁) ∧ w₁.run (f a) = (.ok b, w') := by
  rw [run_bind] at h
  split at h
  · exact ⟨_, _, ‹_›, h⟩
  · cases h

/-- A program that fails does so in its first part, or in what comes after it. -/
theorem World.run_bind_error {e : Failure} (h : w.run (t >>= f) = (.error e, w')) :
    w.run t = (.error e, w') ∨
      ∃ a w₁, w.run t = (.ok a, w₁) ∧ w₁.run (f a) = (.error e, w') := by
  rw [run_bind] at h
  split at h
  · exact .inr ⟨_, _, ‹_›, h⟩
  · rename_i failure w₁ hfirst
    obtain ⟨hfailure, rfl⟩ := Prod.mk.inj h
    rw [Except.error.inj hfailure] at hfirst
    exact .inl hfirst

theorem World.run_lift {s : StateM World α} :
    w.run (ExceptT.lift s) = (.ok (s w).1, (s w).2) := rfl

theorem World.run_orReport : w.run (Task.orReport t) =
    match w.run t with
    | (.ok a, w₁) => (.ok (some a), w₁)
    | (.error e, w₁) => (.ok none, { w₁ with events := .failed e :: w₁.events }) := by
  unfold run
  show StateT.run (ExceptT.run t >>= _) w = _
  rw [StateT.run_bind]
  cases StateT.run (ExceptT.run t) w with
  | mk r w₁ => cases r <;> rfl

theorem World.run_orReport_eq : w.run (Task.orReport t) =
    (.ok (w.run t).1.toOption, (w.run (Task.orReport t)).2) := by
  rw [run_orReport]
  cases w.run t with
  | mk r w₁ => cases r <;> rfl

theorem World.run_attempt : w.run (Task.attempt t) =
    match w.run t with
    | (.ok a, w₁) => (.ok (some a), w₁)
    | (.error _, w₁) => (.ok none, w₁) := by
  unfold run
  show StateT.run (ExceptT.run t >>= _) w = _
  rw [StateT.run_bind]
  cases StateT.run (ExceptT.run t) w with
  | mk r w₁ => cases r <;> rfl

theorem World.run_access {kind : Access} {path : Path} {s : StateM World (Except Files.Fault α)} :
    w.run (Task.access kind path s) =
      match s w with
      | (.ok a, w₁) => (.ok a, w₁)
      | (.error fault, w₁) => (.error (.file kind path fault), w₁) := by
  unfold run
  show StateT.run (s >>= _) w = _
  rw [StateT.run_bind]
  unfold StateT.run
  cases s w with
  | mk r w₁ => cases r <;> rfl

theorem World.run_access_snd {kind : Access} {path : Path}
    {s : StateM World (Except Files.Fault α)} :
    (w.run (Task.access kind path s)).2 = (s w).2 := by
  rw [run_access]
  cases s w with
  | mk r w₁ => cases r <;> rfl

theorem World.run_access_ok {kind : Access} {path : Path}
    {s : StateM World (Except Files.Fault α)} {a : α}
    (h : w.run (Task.access kind path s) = (.ok a, w')) : s w = (.ok a, w') := by
  rw [run_access] at h
  cases hs : s w with
  | mk r w₁ =>
    rw [hs] at h
    cases r with
    | error fault => cases h
    | ok b =>
      obtain ⟨hb, rfl⟩ := Prod.mk.inj h
      rw [Except.ok.inj hb]

theorem World.tryReadText_eq (w : World) (path : Path) :
    (Task.tryReadText path : StateM World _) w =
      match w.tree.read w.workingPlace path with
      | .ok (content, tree) =>
        (match content.toString? with
          | some text => .ok text
          | none => .error .notText, { w with tree })
      | .error fault => (.error fault, w) := by
  unfold Task.tryReadText
  rw [bind_eq, readFile_eq]
  cases w.tree.read w.workingPlace path with
  | error fault => rfl
  | ok found =>
    obtain ⟨content, tree⟩ := found
    dsimp only
    cases content.toString? <;> rfl

theorem World.run_readText (path : Path) : w.run (Task.readText path) =
    match w.tree.read w.workingPlace path with
    | .ok (content, tree) =>
      match content.toString? with
      | some text => (.ok text, { w with tree })
      | none => (.error (.file .reading path .notText), { w with tree })
    | .error fault => (.error (.file .reading path fault), w) := by
  unfold Task.readText
  rw [run_access, tryReadText_eq]
  cases w.tree.read w.workingPlace path with
  | error fault => rfl
  | ok found =>
    obtain ⟨content, tree⟩ := found
    dsimp only
    cases content.toString? <;> rfl

theorem World.run_orReport_some {a : α} (h : w.run (Task.orReport t) = (.ok (some a), w')) :
    w.run t = (.ok a, w') := by
  rw [run_orReport] at h
  split at h
  · rename_i a' w₁ heq
    obtain ⟨ha, rfl⟩ := Prod.mk.inj h
    rw [heq, Option.some.inj (Except.ok.inj ha)]
  · cases h

theorem World.run_of_fst {r : Except Failure α} (h : (w.run t).1 = r) :
    w.run t = (r, (w.run t).2) := Prod.ext h rfl

theorem World.run_of_toOption {a : α} (h : (w.run t).1.toOption = some a) :
    ∃ w', w.run t = (.ok a, w') := by
  cases hrun : w.run t with
  | mk r w' =>
    rw [hrun] at h
    cases r with
    | ok b => exact ⟨w', by rw [← Option.some.inj h]⟩
    | error e => cases h

end Run

theorem Kernel.Interface.Reaches.readFlag {k : Kernel.Interface} {w w' : World} (hk : k.Reaches w)
    {file : String} (hfile : Path.IsName file) {content : Bytes}
    (hheld : w.held file = some (.file content)) {flag : String}
    (h : w.run (k.readFlag Protection.name file) = (.ok flag, w')) :
    ∃ text, content.toString? = some text ∧ flag = Text.trim text := by
  have hplace := hk.placeOf_path (show Path.IsName Protection.name by decide) hfile
  obtain ⟨text, w₁, htext, hflag⟩ := World.run_bind_ok h
  refine ⟨text, ?_, (Except.ok.inj (Prod.mk.inj hflag).1).symm⟩
  rw [World.run_readText] at htext
  cases hread : w.tree.read w.workingPlace (k.path Protection.name file) with
  | error fault =>
    rw [hread] at htext
    cases htext
  | ok found =>
    obtain ⟨content', tree⟩ := found
    have hsame : content' = content := by
      rcases Tree.read_eq_ok hread with ⟨hget, -⟩ | ⟨later, hget, -⟩ <;>
        rw [hplace, ← World.held, hheld] at hget
      · exact (Files.Node.file.inj (Option.some.inj hget)).symm
      · cases hget
    rw [hread, hsame] at htext
    dsimp only at htext
    split at htext
    · rename_i found heq
      rw [heq, Except.ok.inj (Prod.mk.inj htext).1]
    · cases htext

/-- The switches that are set when policies are loaded, by their directories and names. -/
def Kernel.switchFiles : List (String × String) :=
  [(Kernel.mainDirectory, "enabled"), (Protection.name, "enabled"),
    (Protection.name, "xattr_enabled"), (Protection.name, "xattr_user_allowed")]

theorem Kernel.isFree_of_switch : ∀ e ∈ Kernel.switchFiles, Kernel.IsFree e.1 e.2 := by decide

/-- What is written to a switch. -/
def Kernel.switchContent (value : Bool) : Bytes :=
  Bytes.ofString ((if value then "1" else "0") ++ "\n")

/-- What may become of a world while a program reads files and reports events. -/
class AllowsReading (R : World → World → Prop) : Prop where
  refl : ∀ w, R w w
  trans : ∀ {w w₁ w₂}, R w w₁ → R w₁ w₂ → R w w₂
  same : ∀ {w w'}, R w w' → w.SamePlaces w'
  report : ∀ w e, R w { w with events := e :: w.events }
  /-- A file that changes by itself does so when it is read. -/
  settle : ∀ {w : World} {place : Place} {first later : Bytes},
    w.tree.get? place = some (.changing first later) →
      R w { w with tree := w.tree.put place (.file later) }

/-- What may become of a world while a program sets switches of a kernel and loads one of the
policies. -/
class AllowsLoading (k : Kernel.Interface) (P : outParam (Policy → Prop))
    (R : World → World → Prop) : Prop where
  switch : ∀ {w e}, k.Reaches w → e ∈ Kernel.switchFiles →
    w.tree.get? (w.fileOf e.1 e.2) ≠ some .directory →
      ∀ value, R w (w.putFile (w.fileOf e.1 e.2) (Kernel.switchContent value))
  load : ∀ {w p}, k.Reaches w → P p →
    w.tree.get? (w.fileOf Protection.name Kernel.loadFile) ≠ some .directory →
      R w ((w.putFile (w.fileOf Protection.name Kernel.loadFile) p.binary).react
        (w.fileOf Protection.name Kernel.loadFile) p.binary)

/-- A condition that depends on nothing but the places of a world and the behaviour of its
kernel. -/
class Lasting (I : World → Prop) : Prop where
  same : ∀ {w w'}, I w → w.SamePlaces w' → I w'

instance {k : Kernel.Interface} : Lasting k.Reaches := ⟨fun h hw => h.same hw⟩

/-- Relative paths start at this place. -/
def World.IsAt (place : Place) (w : World) : Prop := w.workingPlace = place

instance {place : Place} : Lasting (World.IsAt place) := ⟨fun h hw => hw.workingPlace.trans h⟩

/-- What a program makes of a world with the condition `I`. -/
def Moves {α : Type} (I : World → Prop) (R : World → World → Prop) (s : StateM World α) : Prop :=
  ∀ w, I w → R w (s w).2

namespace Moves

variable {α β : Type} {k : Kernel.Interface} {I : World → Prop} {R : World → World → Prop}

section Programs

variable [hI : Lasting I] [hR : AllowsReading R]

omit hI in
protected theorem pure (a : α) : Moves I R (pure a : StateM World α) := fun w _ => hR.refl w

protected theorem bind {s : StateM World α} {f : α → StateM World β} (hs : Moves I R s)
    (hf : ∀ a, Moves I R (f a)) : Moves I R (s >>= f) := by
  intro w hw
  have hfirst := hs w hw
  exact hR.trans hfirst (hf (s w).1 (s w).2 (hI.same hw (hR.same hfirst)))

theorem mapM {f : α → StateM World β} (hf : ∀ a, Moves I R (f a)) (as : List α) :
    Moves I R (as.mapM f) := by
  induction as with
  | nil => exact .pure []
  | cons a rest ih =>
    rw [List.mapM_cons]
    exact (hf a).bind fun _ => ih.bind fun _ => .pure _

/-! ### Programs that may fail -/

omit hI in
theorem run_pure (a : α) : Moves I R (pure a : Task (StateM World) α).run :=
  .pure (Except.ok a)

omit hI in
theorem run_throw (e : Failure) : Moves I R (throw e : Task (StateM World) α).run :=
  .pure (Except.error e)

theorem run_bind {t : Task (StateM World) α} {f : α → Task (StateM World) β}
    (ht : Moves I R t.run) (hf : ∀ a, Moves I R (f a).run) : Moves I R (t >>= f).run := by
  rw [ExceptT.run_bind]
  refine ht.bind fun r => ?_
  cases r with
  | ok a => exact hf a
  | error e => exact .pure (Except.error e)

/-- What two parts of a program do one after the other, where the second one is known to come after
the first. -/
theorem run_bind_of {w : World} {t : Task (StateM World) α} {f : α → Task (StateM World) β}
    (ht : Moves I R t.run) (hw : I w)
    (hf : ∀ a w₁, w.run t = (.ok a, w₁) → I w₁ → R w₁ (w₁.run (f a)).2) :
    R w (w.run (t >>= f)).2 := by
  have hfirst := ht w hw
  change R w (w.run t).2 at hfirst
  rw [World.run_bind]
  split
  · rename_i a w₁ heq
    rw [heq] at hfirst
    exact hR.trans hfirst (hf a w₁ heq (hI.same hw (hR.same hfirst)))
  · rename_i e w₁ heq
    rw [heq] at hfirst
    exact hfirst

theorem of_run {w w' : World} {t : Task (StateM World) α} {r : Except Failure α}
    (ht : Moves I R t.run) (hw : I w) (h : w.run t = (r, w')) : R w w' ∧ I w' := by
  have hmoved := ht w hw
  change R w (w.run t).2 at hmoved
  rw [h] at hmoved
  exact ⟨hmoved, hI.same hw (hR.same hmoved)⟩

theorem run_lift {s : StateM World α} (hs : Moves I R s) :
    Moves I R (ExceptT.lift s : Task (StateM World) α).run :=
  hs.bind fun a => .pure (Except.ok a)

theorem run_mapM {f : α → Task (StateM World) β} {as : List α}
    (hf : ∀ a ∈ as, Moves I R (f a).run) : Moves I R (as.mapM f).run := by
  induction as with
  | nil => exact run_pure []
  | cons a rest ih =>
    obtain ⟨ha, hrest⟩ := List.forall_mem_cons.1 hf
    rw [List.mapM_cons]
    exact run_bind ha fun _ => run_bind (ih hrest) fun _ => run_pure _

theorem run_forM {f : α → Task (StateM World) PUnit} (hf : ∀ a, Moves I R (f a).run)
    (as : List α) : Moves I R (as.forM f).run := by
  induction as with
  | nil => exact run_pure _
  | cons a rest ih => exact run_bind (hf a) fun _ => ih

theorem run_foldlM {f : β → α → Task (StateM World) β} (hf : ∀ b a, Moves I R (f b a).run)
    (as : List α) (b : β) : Moves I R (as.foldlM f b).run := by
  induction as generalizing b with
  | nil => exact run_pure b
  | cons a rest ih =>
    rw [List.foldlM_cons]
    exact run_bind (hf b a) fun _ => ih _

theorem run_attempt {t : Task (StateM World) α} (ht : Moves I R t.run) :
    Moves I R (Task.attempt t).run := by
  refine ht.bind fun r => ?_
  cases r with
  | ok a => exact .pure _
  | error e => exact .pure _

/-! ### Single accesses -/

omit hI in
theorem report (e : Event) : Moves I R (Host.report e : StateM World PUnit) :=
  fun w _ => hR.report w e

theorem run_report (e : Event) : Moves I R (Task.report e : Task (StateM World) PUnit).run :=
  run_lift (report e)

theorem run_orReport {t : Task (StateM World) α} (ht : Moves I R t.run) :
    Moves I R (Task.orReport t).run := by
  refine ht.bind fun r => ?_
  cases r with
  | ok a => exact .pure _
  | error e => exact (report _).bind fun _ => .pure _

omit hI in
theorem isDirectory (path : Path) :
    Moves I R (Host.isDirectory path : StateM World Bool) := fun w _ => hR.refl w

omit hI in
theorem isFile (path : Path) : Moves I R (Host.isFile path : StateM World Bool) :=
  fun w _ => hR.refl w

omit hI in
theorem listDirectory (path : Path) :
    Moves I R (Host.listDirectory path : StateM World (Except Files.Fault (List String))) :=
  fun w _ => hR.refl w

omit hI in
theorem readFile (path : Path) :
    Moves I R (Host.readFile path : StateM World (Except Files.Fault Bytes)) := by
  intro w _
  rw [World.readFile_eq]
  cases hread : w.tree.read w.workingPlace path with
  | error fault => exact hR.refl w
  | ok found =>
    obtain ⟨content, tree⟩ := found
    rcases Tree.read_eq_ok hread with ⟨-, rfl⟩ | ⟨later, hget, rfl⟩
    · exact hR.refl w
    · exact hR.settle hget

theorem run_access {kind : Access} {path : Path} {s : StateM World (Except Files.Fault α)}
    (hs : Moves I R s) : Moves I R (Task.access kind path s).run := by
  refine hs.bind fun r => ?_
  cases r with
  | ok a => exact .pure _
  | error fault => exact .pure _

theorem tryReadText (path : Path) :
    Moves I R (Task.tryReadText path : StateM World (Except Files.Fault String)) := by
  refine (readFile path).bind fun r => ?_
  cases r with
  | error fault => exact .pure _
  | ok content =>
    show Moves I R (match content.toString? with
      | some text => pure (Except.ok text)
      | none => pure (Except.error Files.Fault.notText))
    split
    · exact .pure _
    · exact .pure _

end Programs

/-! ### Writing to the kernel -/

section Writing

variable {P : Policy → Prop} [AllowsReading R] [hR : AllowsLoading k P R]

include hR

theorem run_writeSwitch {submodule file : String} (h : (submodule, file) ∈ Kernel.switchFiles)
    (value : Bool) :
    Moves k.Reaches R (k.writeSwitch submodule file value : Task (StateM World) Unit).run := by
  refine run_access fun w hw => ?_
  have hfree := Kernel.isFree_of_switch _ h
  have hplace := hw.placeOf_path hfree.1 hfree.2.1
  have hload := hfree.fileOf_ne w List.mem_cons_self
  rcases World.writeFile_cases w (k.path submodule file) (Kernel.switchContent value) with
    ⟨hok, hnode⟩ | ⟨fault, herror⟩
  · show R w ((Host.writeFile _ (Kernel.switchContent value) : StateM World _) w).2
    rw [hok, hplace]
    rw [hplace] at hnode
    show R w (World.react (w.putFile _ _) _ _)
    rw [World.react_of_ne (w := w.putFile _ _) hw.behaviour _ hload.symm]
    exact hR.switch hw h hnode value
  · show R w ((Host.writeFile _ (Kernel.switchContent value) : StateM World _) w).2
    rw [herror]
    exact AllowsReading.refl w

theorem run_load {p : Policy} (hp : P p) :
    Moves k.Reaches R (k.load Protection.name p.binary : Task (StateM World) Unit).run := by
  refine run_access fun w hw => ?_
  have hplace := hw.placeOf_path (show Path.IsName Protection.name by decide)
    (show Path.IsName Kernel.loadFile by decide)
  rcases World.writeFile_cases w (k.path Protection.name Kernel.loadFile) p.binary with
    ⟨hok, hnode⟩ | ⟨fault, herror⟩
  · rw [hok, hplace]
    rw [hplace] at hnode
    exact hR.load hw hp hnode
  · rw [herror]
    exact AllowsReading.refl w

end Writing

end Moves

/-! ## Programs and the account of the kernel -/

section Follows

variable {α : Type} {k : Kernel.Interface} {P : Policy → Prop}

instance : AllowsReading (World.Follows P) where
  refl := World.Follows.refl
  trans := World.Follows.trans
  same h := h.toSamePlaces
  report _ _ := ⟨⟨rfl, rfl, rfl⟩, .inl fun _ _ _ hc => hc⟩
  settle h := (World.steady_put_changing h _).follows

instance : AllowsLoading k
    (fun p => P p ∧ ∀ d rules, Protection.Blob.decode p.binary = .ok (d, rules) → d = p.digest)
    (World.Follows P) where
  switch _ he _ _ := (World.steady_put fun _ hother =>
    (Kernel.isFree_of_switch _ he).fileOf_ne _ (List.mem_cons_of_mem _ hother)).follows
  load := by
    intro w p hw hp _
    have hsteady : w.Steady (w.putFile (w.fileOf Protection.name Kernel.loadFile) p.binary) := by
      refine World.steady_put fun file hfile => ?_
      simp only [World.account, List.mem_cons, List.not_mem_nil, or_false] at hfile
      rcases hfile with rfl | rfl <;>
        simp [World.fileOf, Kernel.loadFile, Kernel.digestFile, Kernel.dumpFile]
    exact hsteady.follows.trans
      (World.react_follows (w := w.putFile _ _) hw.behaviour rfl hp.1 hp.2)

/-- A file that the kernel neither loads from nor gives account in may be set. -/
theorem Moves.run_writeFlag {submodule file : String} (h : Kernel.IsFree submodule file)
    (text : String) :
    Moves k.Reaches (World.Follows P)
      (k.writeFlag submodule file text : Task (StateM World) Unit).run := by
  refine run_access fun w hw => ?_
  have hplace := hw.placeOf_path h.1 h.2.1
  have hload := h.fileOf_ne w List.mem_cons_self
  rcases World.writeFile_cases w (k.path submodule file) (Bytes.ofString (text ++ "\n")) with
    ⟨hok, -⟩ | ⟨fault, herror⟩
  · rw [hok, hplace]
    show w.Follows P (World.react (w.putFile _ _) _ _)
    rw [World.react_of_ne (w := w.putFile _ _) hw.behaviour _ hload.symm]
    exact (World.steady_put fun other hother =>
      h.fileOf_ne w (List.mem_cons_of_mem _ hother)).follows
  · rw [herror]
    exact World.Follows.refl w

/-- A program that loads nothing leaves the account as it is. -/
theorem Moves.steady {w w' : World} {t : Task (StateM World) α} {r : Except Failure α}
    (ht : Moves k.Reaches (World.Follows fun _ => False) t.run) (hk : k.Reaches w)
    (h : w.run t = (r, w')) : w.Steady w' ∧ k.Reaches w' :=
  (ht.of_run hk h).imp_left World.Follows.steady

end Follows

end PathPolicy
