import PathPolicy.Loader.Artifact
import PathPolicy.Loader.Attribute
import PathPolicy.Loader.RoundTrip
import PathPolicy.Loader.Status
import PathPolicy.Proofs.Histories
import PathPolicy.Proofs.SecondReadings

/-!
# A lock is final

Once the kernel says that it is locked, nothing that a loader is asked for changes its files. What
would change them looks at the lock first and is refused. What is not refused only reads, or writes
somewhere else, or locks once more (`Loader.Operation.upholds`). So the lock and everything that it
protects is upheld in every session of several loaders, whatever is edited elsewhere between their
operations (`Session.final`).
-/

namespace PathPolicy

open Files (Path Place Tree)

/-! ## What is upheld -/

def Kernel.IsOn (c : Bytes) : Prop := ∃ text, c.toString? = some text ∧ Text.trim text = "1"

theorem Kernel.isOn_switchContent : Kernel.IsOn (Kernel.switchContent true) :=
  ⟨"1\n", Bytes.toString?_ofString _, by decide +kernel⟩

/-- The places on the way to the directory of a kernel. -/
def Kernel.Interface.wayIn (k : Kernel.Interface) (w : World) : List Place :=
  Tree.passed (Tree.origin w.workingPlace k.root) k.root.steps

/-- A file of a kernel is passed after the directory that it is in, and this after the way to the
kernel. -/
theorem Kernel.Interface.mem_passed_path (k : Kernel.Interface) {w : World} {q : Place}
    {submodule file : String} (hs : Path.IsName submodule) (hf : Path.IsName file)
    (h : q ∈ Tree.passed (Tree.origin w.workingPlace (k.path submodule file))
      (k.path submodule file).steps) :
    q ∈ k.wayIn w ∨ q = k.placeIn w ++ [submodule] ∨ q = k.placeIn w ++ [submodule, file] := by
  have hdirectory := Tree.placeOf_join w.workingPlace k.root hs
  rcases Tree.mem_passed_join hf h with hq | rfl
  · exact (Tree.mem_passed_join hs hq).imp_right .inl
  · unfold Kernel.Interface.directory
    rw [hdirectory, List.append_assoc]
    exact .inr (.inr rfl)

theorem World.SamePlaces.wayIn {w w' : World} (h : w.SamePlaces w') (k : Kernel.Interface) :
    k.wayIn w' = k.wayIn w := by
  unfold Kernel.Interface.wayIn
  rw [h.workingPlace]

def Kernel.lockPlace (place : Place) : Place := place ++ [Kernel.mainDirectory, "locked"]

namespace World

def IsLocked (place : Place) (w : World) : Prop :=
  ∃ c, w.tree.get? (Kernel.lockPlace place) = some (.file c) ∧ Kernel.IsOn c

/-- A kernel stays locked, and its other files stay as they are, unless they change by themselves.
Directories may be made at some places. The way to the kernel still leads there. -/
structure Upholds (place : Place) (way : List Place) (made : Place → Prop) (w w' : World) : Prop
    extends SamePlaces w w' where
  directory : ∀ q ∈ way, w.tree.get? q = some .directory → w'.tree.get? q = some .directory
  lock : w.IsLocked place → w'.IsLocked place
  node : ∀ q, place <+: q → q ≠ Kernel.lockPlace place → w'.tree.get? q = w.tree.get? q ∨
    (w.tree.get? q = none ∧ w'.tree.get? q = some .directory ∧ made q) ∨
    ∃ first later, w.tree.get? q = some (.changing first later)

section Upholds

variable {place : Place} {way : List Place} {made made' : Place → Prop} {w w₁ w₂ : World}

theorem Upholds.mono (h : w.Upholds place way made w₁) (hmade : ∀ q, made q → made' q) :
    w.Upholds place way made' w₁ :=
  ⟨h.toSamePlaces, h.directory, h.lock, fun q hq hne => (h.node q hq hne).imp_right
    (.imp_left fun ⟨hnone, hdir, hmadeq⟩ => ⟨hnone, hdir, hmade q hmadeq⟩)⟩

theorem upholds_of_grows {t : Tree} (h : Tree.Grows made w.tree t) :
    w.Upholds place way made { w with tree := t } where
  toSamePlaces := ⟨rfl, rfl, rfl⟩
  directory q _ hdir := by
    rcases h q with hsame | ⟨hnone, -⟩
    · exact hsame.trans hdir
    · rw [hdir] at hnone
      cases hnone
  lock := by
    rintro ⟨c, hget, hon⟩
    rcases h (Kernel.lockPlace place) with hsame | ⟨hnone, -⟩
    · exact ⟨c, hsame.trans hget, hon⟩
    · rw [hget] at hnone
      cases hnone
  node q _ _ := (h q).imp_right .inl

/-- A file was written that is not one of the kernel, or the lock was set. -/
theorem upholds_putFile {p : Place} {c : Bytes} (hdir : w.tree.get? p ≠ some .directory)
    (hp : p = Kernel.lockPlace place ∧ Kernel.IsOn c ∨ ¬ place <+: p) :
    w.Upholds place way made (w.putFile p c) where
  toSamePlaces := ⟨rfl, rfl, rfl⟩
  directory q _ hq := by
    refine (Tree.get?_put_of_ne ?_).trans hq
    rintro rfl
    exact hdir hq
  lock := by
    rintro ⟨c', hget, hon⟩
    rcases hp with ⟨rfl, hc⟩ | hp
    · exact ⟨c, Tree.get?_put (by simp [Kernel.lockPlace]), hc⟩
    · refine ⟨c', (Tree.get?_put_of_ne fun heq => hp ?_).trans hget, hon⟩
      exact heq ▸ List.prefix_append place _
  node q hq hne := by
    refine .inl (Tree.get?_put_of_ne fun heq => ?_)
    rcases hp with ⟨rfl, -⟩ | hp
    · exact hne heq
    · exact hp (heq ▸ hq)

instance : AllowsReading (World.Upholds place way made) where
  refl w := ⟨.refl w, fun _ _ h => h, id, fun _ _ _ => .inl rfl⟩
  trans := by
    intro w w₁ w₂ h h'
    refine ⟨h.toSamePlaces.trans h'.toSamePlaces, fun q hq hdir =>
      h'.directory q hq (h.directory q hq hdir), fun hlock => h'.lock (h.lock hlock),
      fun q hq hne => ?_⟩
    rcases h.node q hq hne with hsame | ⟨hnone, hdir, hmade⟩ | hchanging
    · exact hsame ▸ h'.node q hq hne
    · rcases h'.node q hq hne with hsame' | ⟨hnone', -⟩ | ⟨first, later, hchanging'⟩
      · exact .inr (.inl ⟨hnone, hsame'.trans hdir, hmade⟩)
      · rw [hdir] at hnone'
        cases hnone'
      · rw [hdir] at hchanging'
        cases hchanging'
    · exact .inr (.inr hchanging)
  same h := h.toSamePlaces
  report _ _ := ⟨⟨rfl, rfl, rfl⟩, fun _ _ h => h, id, fun _ _ _ => .inl rfl⟩
  settle := by
    intro w p first later h
    have hne : ∀ {q : Place} {n : Files.Node}, w.tree.get? q = some n →
        (∀ first later, n ≠ .changing first later) → q ≠ p := by
      rintro q n hget hn rfl
      rw [h] at hget
      exact hn _ _ (Option.some.inj hget).symm
    refine ⟨⟨rfl, rfl, rfl⟩, fun q _ hdir => ?_, ?_, fun q _ _ => ?_⟩
    · exact (Tree.get?_put_of_ne (hne hdir (by simp))).trans hdir
    · rintro ⟨c, hget, hon⟩
      exact ⟨c, (Tree.get?_put_of_ne (hne hget (by simp))).trans hget, hon⟩
    · by_cases hq : q = p
      · exact .inr (.inr ⟨first, later, hq ▸ h⟩)
      · exact .inl (Tree.get?_put_of_ne hq)

theorem react_of_getLast? {p : Place} {name : String} (hp : p.getLast? = some name)
    (hload : name ≠ Kernel.loadFile) (hquestion : name ≠ Kernel.questionFile) (c : Bytes) :
    w.react p c = w := by
  have hne : ∀ {submodule file : String}, name ≠ file → p ≠ w.fileOf submodule file := by
    rintro submodule file hfile rfl
    rw [fileOf, List.getLast?_append] at hp
    exact hfile (Option.some.inj hp).symm
  unfold react
  split
  · rfl
  · rw [if_neg (hne hload)]
  · rw [if_neg (hne hload), if_neg (hne hquestion)]

theorem upholds_writeFile {path : Path} {p : Place} {name : String} {c : Bytes}
    (hpath : Tree.placeOf w.workingPlace path = p) (hp : p.getLast? = some name)
    (hload : name ≠ Kernel.loadFile) (hquestion : name ≠ Kernel.questionFile)
    (hplace : p = Kernel.lockPlace place ∧ Kernel.IsOn c ∨ ¬ place <+: p) :
    w.Upholds place way made ((Host.writeFile path c : StateM World _) w).2 := by
  rcases w.writeFile_cases path c with ⟨hok, hdir⟩ | ⟨fault, herror⟩
  · rw [hok, hpath, react_of_getLast? hp hload hquestion]
    rw [hpath] at hdir
    exact upholds_putFile hdir hplace
  · rw [herror]
    exact AllowsReading.refl w

end Upholds

end World

/-! ## Operations -/

/-- What a loader can be asked for. -/
inductive Loader.Operation where
  | load (force : Bool)
  | startup
  | enable (submodule : Option String)
  | disable (submodule : Option String)
  | lock
  | selfTest
  | status (verbose : Bool)
  | isLocked
  | binaries (overrides : Kernel.Features)
  | configToFile (directory : Path)
  | encodeAttribute (submodule : String) (columns : List String) (file : Option Path)
  | decodeAttribute (attributeName value : String)

namespace Loader.Operation

/-- Carries an operation out. Of its result only the failure is of interest. -/
def perform {m : Type → Type} [Monad m] [Host m] (l : Loader) : Operation → Task m Unit
  | .load force => do let _ ← l.load force
  | .startup => do let _ ← l.startup
  | .enable submodule => l.enable submodule
  | .disable submodule => l.disable submodule
  | .lock => l.lock
  | .selfTest => l.selfTest
  | .status verbose => do let _ ← l.status verbose
  | .isLocked => do let _ ← l.isLocked
  | .binaries overrides => do let _ ← l.binaries overrides
  | .configToFile directory => do let _ ← l.configToFile directory
  | .encodeAttribute submodule columns file => do let _ ← l.encodeAttribute submodule columns file
  | .decodeAttribute attributeName value => do
    let _ ← Task.ofExcept (Loader.decodeAttribute attributeName value)

/-- Operations that change what the kernel has loaded, or its switches. -/
def IsChange : Operation → Prop
  | .load _ | .startup | .enable _ | .disable _ | .selfTest => True
  | _ => False

/-- The directory that an operation writes to is none of the kernel at `place`. -/
def IsOutside (place workingPlace : Place) : Operation → Prop
  | .configToFile directory => ¬ place <+: Tree.placeOf workingPlace directory
  | _ => True

/-- The way to the directory that an operation writes to passes a place. -/
def Passes (workingPlace : Place) : Operation → Place → Prop
  | .configToFile directory =>
    (· ∈ Tree.passed (Tree.origin workingPlace directory) directory.steps)
  | _ => fun _ => False

end Loader.Operation

/-! ### What only reads -/

namespace Moves

section Reading

variable {I : World → Prop} {R : World → World → Prop} [Lasting I] [AllowsReading R] (l : Loader)

omit [Lasting I] in
theorem ofExcept {α : Type} (r : Except Failure α) :
    Moves I R (Task.ofExcept r : Task (StateM World) α).run := fun w _ => AllowsReading.refl w

theorem isLocked : Moves I R (l.isLocked : Task (StateM World) Bool).run :=
  run_bind (ensureAvailable l) fun _ => readSwitch _ _ _

theorem defaultValue (sm : Submodule) :
    Moves I R (l.defaultValue sm : Task (StateM World) (Option String)).run := by
  unfold Loader.defaultValue
  split
  · exact run_pure _
  · refine run_bind (run_attempt (readFlag _ _ _)) fun text => ?_
    split
    · exact run_pure _
    · split
      · exact run_bind (run_report _) fun _ => run_pure _
      · split
        · exact run_pure _
        · exact run_bind (run_report _) fun _ => run_pure _

theorem submoduleStatus (verbose : Bool) (sm : Submodule) :
    Moves I R (l.submoduleStatus verbose sm : Task (StateM World) SubmoduleStatus).run := by
  unfold Loader.submoduleStatus
  refine run_bind (run_attempt (readFlag _ _ _)) fun _ => ?_
  refine run_bind (run_mapM fun _ _ => run_bind (run_attempt (readFlag _ _ _)) fun _ =>
    run_pure _) fun _ => ?_
  refine run_bind (run_attempt (readSwitch _ _ _)) fun _ => ?_
  refine run_bind (run_attempt (readFlag _ _ _)) fun _ => ?_
  refine run_bind (defaultValue l sm) fun _ => ?_
  dsimp only
  split
  · refine run_bind ?_ fun _ => run_pure _
    refine run_bind (run_access (readFile _)) fun dump => ?_
    exact run_bind (decompile _ _) fun _ => run_pure _
  · exact run_pure _

theorem status (verbose : Bool) :
    Moves I R (l.status verbose : Task (StateM World) Status).run := by
  refine run_bind (ensureAvailable l) fun _ => run_bind (run_lift (submodules l)) fun _ => ?_
  refine run_bind (run_mapM fun sm _ => submoduleStatus l verbose sm) fun _ => ?_
  exact run_bind (readSwitch _ _ _) fun _ => run_bind (readSwitch _ _ _) fun _ => run_pure _

theorem binaries (overrides : Kernel.Features) :
    Moves I R (l.binaries overrides : Task (StateM World) (List (String × Policy))).run :=
  run_bind (readOptions _) fun _ =>
    run_mapM fun sm _ => run_bind (compile l sm _ _) fun _ => run_pure _

theorem encodeAttribute (submodule : String) (columns : List String) (file : Option Path) :
    Moves I R (l.encodeAttribute submodule columns file : Task (StateM World) UInt32).run := by
  unfold Loader.encodeAttribute
  split
  · split
    · exact run_throw _
    · refine run_bind (readOptions _) fun options => ?_
      dsimp only
      split
      · refine run_bind (context l _ _ _ _ _) fun ctx => ?_
        refine run_bind (run_forM run_report _) fun _ => ?_
        split
        · exact run_pure _
        · exact run_throw _
      · exact run_throw _
  · exact run_throw _

end Reading

end Moves

/-! ### What is refused -/

section Refused

variable {place : Place} {w : World} {l : Loader}

/-- Whatever the file of the lock is read as, it is not open. -/
theorem Loader.ensureUnlocked_of_isLocked (hl : l.kernel.placeIn w = place)
    (hlocked : w.IsLocked place) :
    ∃ e, w.run l.ensureUnlocked = (.error e, (w.run l.ensureUnlocked).2) := by
  cases h : (w.run l.ensureUnlocked).1 with
  | error e => exact ⟨e, Prod.ext h rfl⟩
  | ok u =>
    obtain ⟨-, flag, hflag, hne⟩ := Loader.ensureUnlocked_eq_ok.1 h
    obtain ⟨c, text, hc, htext, rfl⟩ := Kernel.Interface.readFlag_eq_ok.1 hflag
    obtain ⟨c', hget, text', htext', hon⟩ := hlocked
    have hread := Tree.get?_of_content hc
    rw [l.kernel.placeOf_path _ (by decide) (by decide), show Tree.placeOf _ _ = place from hl]
      at hread
    obtain rfl : c' = c := by
      rcases hread with hread | ⟨later, hread⟩
      · exact Files.Node.file.inj (Option.some.inj (hget.symm.trans hread))
      · cases hget.symm.trans hread
    obtain rfl := Option.some.inj (htext'.symm.trans htext)
    exact absurd hon hne

/-- A change is refused by a locked kernel, which it has only looked at. -/
theorem Loader.Operation.refused (hl : l.kernel.placeIn w = place) (hlocked : w.IsLocked place)
    {op : Loader.Operation} (hop : op.IsChange) :
    ∃ e, w.run (op.perform l) = (.error e, (w.run l.ensureUnlocked).2) := by
  obtain ⟨e, he⟩ := Loader.ensureUnlocked_of_isLocked hl hlocked
  refine ⟨e, ?_⟩
  cases op with
  | load force => exact World.run_bind_of_error (World.run_bind_of_error he)
  | startup => exact World.run_bind_of_error (World.run_bind_of_error he)
  | enable submodule => exact World.run_bind_of_error he
  | disable submodule => exact World.run_bind_of_error he
  | selfTest => exact World.run_bind_of_error he
  | lock | status | isLocked | binaries | configToFile | encodeAttribute | decodeAttribute =>
    exact hop.elim

end Refused

/-! ### What is written -/

section Written

variable {place start : Place} {way : List Place} {made : Place → Prop} {w : World} {l : Loader}

theorem Moves.lock_upholds (hl : Tree.placeOf start l.kernel.root = place) :
    Moves (World.IsAt start) (World.Upholds place way made)
      (l.lock : Task (StateM World) Unit).run := by
  refine run_bind (ensureAvailable l) fun _ => run_access fun w hw => ?_
  have hlast : (Kernel.lockPlace place).getLast? = some "locked" :=
    List.getLast?_append_of_ne_nil _ (by simp)
  refine World.upholds_writeFile ?_ hlast (by decide) (by decide)
    (.inl ⟨rfl, Kernel.isOn_switchContent⟩)
  rw [hw, l.kernel.placeOf_path _ (by decide) (by decide), hl]
  rfl

theorem Loader.name_of_binaries {overrides : Kernel.Features} {found : List (String × Policy)}
    {w' : World} (h : w.run (l.binaries overrides) = (.ok found, w')) :
    ∀ e ∈ found, e.1 = Protection.name := by
  obtain ⟨options, w₁, -, hmade⟩ := World.run_bind_ok h
  have hall : (Submodule.all.mergeSort fun a b => a.name ≤ b.name) = [.protection] :=
    List.mergeSort_singleton _
  dsimp only at hmade
  rw [hall, List.mapM_cons] at hmade
  obtain ⟨first, w₂, hfirst, hrest⟩ := World.run_bind_ok hmade
  obtain ⟨policy, w₃, -, hpair⟩ := World.run_bind_ok hfirst
  obtain ⟨more, w₄, hmore, hfound⟩ := World.run_bind_ok hrest
  obtain rfl := Except.ok.inj (Prod.mk.inj hpair).1
  obtain rfl := Except.ok.inj (Prod.mk.inj hmore).1
  obtain rfl := Except.ok.inj (Prod.mk.inj hfound).1
  intro e he
  rw [List.mem_singleton.1 he]
  rfl

/-- No file of a variant has the name of the kernel's directory, or one that the kernel reacts
to. -/
theorem Loader.variantName (available : Bool) :
    Path.IsName (Protection.name ++ Loader.variantSuffix available) ∧
      Protection.name ++ Loader.variantSuffix available ∉
        ["sara", Kernel.loadFile, Kernel.questionFile] := by
  cases available <;> decide

section Output

variable {directory : Path} (houtside : ¬ place <+: Tree.placeOf start directory)
  (hsara : place.getLast? = some "sara")

include houtside hsara

theorem Moves.writeVariant_upholds (available : Bool) :
    Moves (World.IsAt start) (World.Upholds place way made)
      (l.writeVariant directory available : Task (StateM World) (List Path)).run := by
  obtain ⟨hname, hother⟩ := Loader.variantName available
  simp only [List.mem_cons, List.not_mem_nil, or_false, not_or] at hother
  obtain ⟨hne, hload, hquestion⟩ := hother
  intro w hw
  refine run_bind_of (binaries l _) hw fun found w₁ hfound hw₁ => ?_
  have hnames := Loader.name_of_binaries hfound
  refine run_mapM (fun e he => ?_) w₁ hw₁
  obtain ⟨name, policy⟩ := e
  obtain rfl : name = Protection.name := hnames _ (List.mem_filter.1 he).1
  refine run_bind (run_access fun w₂ hw₂ => ?_) fun _ => run_pure _
  have hpath := Tree.placeOf_join start directory hname
  rw [← hw₂] at hpath houtside
  refine World.upholds_writeFile hpath (List.getLast?_concat ..) hload hquestion (.inr ?_)
  rw [List.prefix_concat_iff, not_or]
  refine ⟨?_, houtside⟩
  rintro rfl
  rw [List.getLast?_concat] at hsara
  exact hne (Option.some.inj hsara)

/-- Policies may be written to a directory elsewhere, which may have to be made. -/
theorem Moves.configToFile_upholds : Moves (World.IsAt start)
    (World.Upholds place way ((Loader.Operation.configToFile directory).Passes start))
      (l.configToFile directory : Task (StateM World) (List Path)).run := by
  refine run_bind (run_access fun w hw => ?_) fun _ => ?_
  · have hgrows := @Tree.createDirectories_grows w.tree w.workingPlace directory
    rw [hw] at hgrows
    exact World.upholds_of_grows (hw ▸ hgrows)
  · exact run_bind (writeVariant_upholds houtside hsara true) fun _ =>
      run_bind (writeVariant_upholds houtside hsara false) fun _ => run_pure _

end Output

/-- No operation takes anything away from a locked kernel, or adds a file to it. -/
theorem Loader.Operation.upholds (hl : l.kernel.placeIn w = place)
    (hsara : place.getLast? = some "sara") (hlocked : w.IsLocked place) {op : Loader.Operation}
    (hop : op.IsOutside place w.workingPlace) :
    w.Upholds place way (op.Passes w.workingPlace) (w.run (op.perform l)).2 := by
  have hrefused : op.IsChange →
      w.Upholds place way (op.Passes w.workingPlace) (w.run (op.perform l)).2 := by
    intro hchange
    obtain ⟨e, he⟩ := Loader.Operation.refused hl hlocked hchange
    rw [he]
    exact Moves.ensureUnlocked (I := World.IsAt w.workingPlace) l w rfl
  have hread : ∀ {t : Task (StateM World) Unit},
      Moves (World.IsAt w.workingPlace) (World.Upholds place way (op.Passes w.workingPlace)) t.run →
        w.Upholds place way (op.Passes w.workingPlace) (w.run t).2 := fun ht => ht w rfl
  cases op with
  | load | startup | enable | disable | selfTest => exact hrefused trivial
  | lock => exact hread (Moves.lock_upholds hl)
  | status verbose => exact hread (.run_bind (.status l verbose) fun _ => .run_pure _)
  | isLocked => exact hread (.run_bind (.isLocked l) fun _ => .run_pure _)
  | binaries overrides => exact hread (.run_bind (.binaries l overrides) fun _ => .run_pure _)
  | configToFile directory =>
    exact hread (.run_bind (Moves.configToFile_upholds hop hsara) fun _ => .run_pure _)
  | encodeAttribute submodule columns file =>
    exact hread (.run_bind (.encodeAttribute l submodule columns file) fun _ => .run_pure _)
  | decodeAttribute attributeName value =>
    exact hread (.run_bind (.ofExcept _) fun _ => .run_pure _)

end Written

/-! ## Sessions -/

/-- Files were edited that are not files of a kernel, and the way to its directory is still
there. -/
structure World.Edited (k : Kernel.Interface) (w w' : World) : Prop extends SamePlaces w w' where
  directory : ∀ q ∈ k.wayIn w, w.tree.get? q = some .directory → w'.tree.get? q = some .directory
  node : ∀ q, k.placeIn w <+: q → w'.tree.get? q = w.tree.get? q

/-- An operation that some loader was asked for, and what has come of it. -/
structure Session.Step where
  loader : Loader
  operation : Loader.Operation
  result : Except Failure Unit

/-- The way to the directory that one of the operations writes to passes a place. -/
def Session.Passes (steps : List Session.Step) (workingPlace q : Place) : Prop :=
  ∃ step ∈ steps, step.operation.Passes workingPlace q

/-- What has become of a world in which loaders of one kernel were asked for operations, one after
the other, with edits between them. The last operation comes first. -/
inductive Session (k : Kernel.Interface) (start : World) : List Session.Step → World → Prop
  | start : Session k start [] start
  | edit {steps : List Session.Step} {w w' : World} (h : Session k start steps w)
      (hw : w.Edited k w') : Session k start steps w'
  | perform {steps : List Session.Step} {w : World} (h : Session k start steps w) {l : Loader}
      (hl : l.kernel.placeIn w = k.placeIn w) (op : Loader.Operation)
      (hop : op.IsOutside (k.placeIn w) w.workingPlace) :
      Session k start (⟨l, op, (w.run (op.perform l)).1⟩ :: steps) (w.run (op.perform l)).2

section Sessions

variable {k : Kernel.Interface} {start w w' : World} {steps : List Session.Step}

theorem World.Edited.upholds (h : w.Edited k w') (made : Place → Prop) :
    w.Upholds (k.placeIn w) (k.wayIn w) made w' where
  toSamePlaces := h.toSamePlaces
  directory := h.directory
  lock := fun ⟨c, hget, hon⟩ => ⟨c, (h.node _ (List.prefix_append _ _)).trans hget, hon⟩
  node q hq _ := .inl (h.node q hq)

theorem World.edited_putFile {p : Place} {c : Bytes} (hp : ¬ k.placeIn w <+: p)
    (hdir : w.tree.get? p ≠ some .directory) : w.Edited k (w.putFile p c) where
  toSamePlaces := ⟨rfl, rfl, rfl⟩
  directory q _ hq := by
    refine (Tree.get?_put_of_ne ?_).trans hq
    rintro rfl
    exact hdir hq
  node q hq := by
    refine Tree.get?_put_of_ne ?_
    rintro rfl
    exact hp hq

/-- What is upheld by every step is upheld by the session. -/
theorem Session.upholds (h : Session k start steps w)
    (hsara : (k.placeIn start).getLast? = some "sara")
    (hlocked : start.IsLocked (k.placeIn start)) :
    start.Upholds (k.placeIn start) (k.wayIn start)
      (Session.Passes steps start.workingPlace) w := by
  induction h with
  | start => exact AllowsReading.refl start
  | @edit steps _ _ _ hw ih =>
    have hedited := hw.upholds (Session.Passes steps start.workingPlace)
    rw [ih.toSamePlaces.placeIn, ih.toSamePlaces.wayIn] at hedited
    exact AllowsReading.trans ih hedited
  | @perform _ w _ _ hl op hop ih =>
    rw [ih.toSamePlaces.placeIn k] at hl hop
    have hperformed : w.Upholds (k.placeIn start) (k.wayIn start) _ _ :=
      Loader.Operation.upholds hl hsara (ih.lock hlocked) hop
    rw [ih.workingPlace] at hperformed
    refine AllowsReading.trans (ih.mono fun q => ?_) (hperformed.mono fun q hq => ?_)
    · rintro ⟨step, hstep, hq⟩
      exact ⟨step, List.mem_cons_of_mem _ hstep, hq⟩
    · exact ⟨_, List.mem_cons_self, hq⟩

/-- What a locked kernel was asked to change in a session was refused. -/
theorem Session.refused (h : Session k start steps w)
    (hsara : (k.placeIn start).getLast? = some "sara")
    (hlocked : start.IsLocked (k.placeIn start)) :
    ∀ step ∈ steps, step.operation.IsChange → ∃ e, step.result = .error e := by
  induction h with
  | start => exact fun step hstep => absurd hstep List.not_mem_nil
  | edit _ _ ih => exact ih
  | perform h hl op _ ih =>
    have hupheld := h.upholds hsara hlocked
    rw [hupheld.toSamePlaces.placeIn k] at hl
    intro step hstep hchange
    rcases List.mem_cons.1 hstep with rfl | hstep
    · obtain ⟨e, he⟩ := Loader.Operation.refused hl (hupheld.lock hlocked) hchange
      exact ⟨e, congrArg Prod.fst he⟩
    · exact ih step hstep hchange

theorem Kernel.Interface.isLocked_eq_ok : (w.run k.isLocked).1 = .ok true ↔ ∃ c,
    w.tree.content w.workingPlace (k.path Kernel.mainDirectory "locked") = .ok c ∧
      Kernel.IsOn c := by
  have hflag := @Kernel.Interface.readFlag_eq_ok k w Kernel.mainDirectory "locked" "1"
  have hswitch : (w.run k.isLocked).1 = .ok true ↔
      (w.run (k.readFlag Kernel.mainDirectory "locked")).1 = .ok "1" := by
    unfold Kernel.Interface.isLocked Kernel.Interface.readSwitch
    rw [World.run_bind]
    cases w.run (k.readFlag Kernel.mainDirectory "locked") with
    | mk r w₁ =>
      cases r with
      | error e => simp
      | ok flag =>
        show (Except.ok (decide (flag = "1")) : Except Failure Bool) = .ok true ↔ _
        simp
  rw [hswitch, hflag]
  simp only [Kernel.IsOn, exists_and_left]

theorem World.Upholds.isLocked {made : Place → Prop}
    (h : start.Upholds (k.placeIn start) (k.wayIn start) made w)
    (hlock : start.IsLocked (k.placeIn start))
    (hread : (start.run k.isLocked).1 = .ok true) : (w.run k.isLocked).1 = .ok true := by
  obtain ⟨c, hcontent, -⟩ := Kernel.Interface.isLocked_eq_ok.1 hread
  obtain ⟨c₁, hget₁, -⟩ := id hlock
  obtain ⟨c₂, hget₂, hon⟩ := h.lock hlock
  obtain ⟨node, hresolve⟩ := Tree.resolve_of_content hcontent
  have hmain : Path.IsName Kernel.mainDirectory := by decide
  have hlocked : Path.IsName "locked" := by decide
  have hway : ∀ q ∈ Tree.passed
      (Tree.origin start.workingPlace (k.path Kernel.mainDirectory "locked"))
      (k.path Kernel.mainDirectory "locked").steps,
        start.tree.get? q = some .directory → w.tree.get? q = some .directory := by
    intro q hq hdir
    rcases k.mem_passed_path hmain hlocked hq with hq | rfl | rfl
    · exact h.directory q hq hdir
    · have hne :
          k.placeIn start ++ [Kernel.mainDirectory] ≠ Kernel.lockPlace (k.placeIn start) := by
        simp [Kernel.lockPlace]
      rcases h.node _ (List.prefix_append _ _) hne with hsame | ⟨hnone, -⟩ | ⟨_, _, hchanging⟩
      · exact hsame.trans hdir
      · cases hdir.symm.trans hnone
      · cases hdir.symm.trans hchanging
    · cases hdir.symm.trans hget₁
  have hagain := Tree.resolve_of_directories hway (k.endsInSlash_path (by decide)) hresolve
  rw [k.placeOf_path _ hmain hlocked] at hagain
  refine Kernel.Interface.isLocked_eq_ok.2 ⟨c₂, ?_, hon⟩
  unfold Tree.content
  rw [h.workingPlace, Tree.read_of_resolve (hagain.trans (by rw [← hget₂]; rfl))]
  rfl

/-- A lock is final. Whatever loaders of a locked kernel are asked for, and whatever is edited
elsewhere between that, the kernel says that it is locked after every step, and what would change it
is refused. Below its directory no file is made, changed or lost; a directory is made there only if
the way to the directory of an output leads through it. -/
theorem Session.final {mount : Path} (h : Session (.ofMount mount) start steps w)
    (hlocked : (start.run (Kernel.Interface.ofMount mount).isLocked).1 = .ok true)
    (hstill : ∀ q, (Kernel.Interface.ofMount mount).placeIn start <+: q →
      ∀ first later, start.tree.get? q ≠ some (.changing first later)) :
    (w.run (Kernel.Interface.ofMount mount).isLocked).1 = .ok true ∧
    (∀ q, (Kernel.Interface.ofMount mount).placeIn start <+: q →
      q ≠ Kernel.lockPlace ((Kernel.Interface.ofMount mount).placeIn start) →
        w.tree.get? q = start.tree.get? q ∨ start.tree.get? q = none ∧
          w.tree.get? q = some .directory ∧ Session.Passes steps start.workingPlace q) ∧
    ∀ step ∈ steps, step.operation.IsChange → ∃ e, step.result = .error e := by
  have hsara : ((Kernel.Interface.ofMount mount).placeIn start).getLast? = some "sara" := by
    unfold Kernel.Interface.placeIn Kernel.Interface.ofMount
    rw [Tree.placeOf_join _ _ (by decide), List.getLast?_concat]
  have hlock : start.IsLocked ((Kernel.Interface.ofMount mount).placeIn start) := by
    obtain ⟨c, hcontent, hon⟩ := Kernel.Interface.isLocked_eq_ok.1 hlocked
    have hget := Tree.get?_of_content hcontent
    rw [Kernel.Interface.placeOf_path _ _ (by decide) (by decide)] at hget
    refine ⟨c, hget.resolve_right ?_, hon⟩
    rintro ⟨later, hchanging⟩
    exact hstill _ (List.prefix_append _ _) _ _ hchanging
  have hupheld := h.upholds hsara hlock
  refine ⟨hupheld.isLocked hlock hlocked, fun q hq hne => ?_, h.refused hsara hlock⟩
  refine (hupheld.node q hq hne).imp_right fun hmade => hmade.resolve_right ?_
  rintro ⟨first, later, hchanging⟩
  exact hstill q hq _ _ hchanging

end Sessions

/-- The kernel of the sample, locked. -/
def lockedWorld : World := sampleWorld.putFile ["sara", "main", "locked"] (Bytes.ofString "1\n")

/-- The same kernel after a load was tried and the rules were edited. -/
def lockedEdited : World :=
  (lockedWorld.run (Loader.Operation.perform sampleLoader (.load true))).2.putFile
    ["conf", "wxprot.conf"] (Bytes.ofString "/b FULL\n")

theorem lockedEdited_session : Session (.ofMount "/") lockedWorld [⟨sampleLoader, .load true,
    (lockedWorld.run (Loader.Operation.perform sampleLoader (.load true))).1⟩] lockedEdited :=
  .edit (.perform .start (by decide +kernel) _ trivial)
    (World.edited_putFile (by decide +kernel) (by decide +kernel))

/-- The load is refused, and an output to another directory is not. -/
theorem Session.final_sample : ∃ refused w,
    Session (.ofMount "/") lockedWorld [⟨sampleLoader, .configToFile "/out", .ok ()⟩,
      ⟨sampleLoader, .load true, .error refused⟩] w ∧
    (lockedWorld.run (Kernel.Interface.ofMount "/").isLocked).1 = .ok true ∧
    lockedWorld.tree.IsStill ∧
    (w.run (Kernel.Interface.ofMount "/").isLocked).1 = .ok true ∧
    w.tree.get? ["sara", "wxprot"] = some .directory := by
  have houtside : ¬ (Kernel.Interface.ofMount "/").placeIn lockedEdited <+:
      Tree.placeOf lockedEdited.workingPlace "/out" := by decide +kernel
  have hsession := lockedEdited_session.perform (l := sampleLoader) (by decide +kernel)
    (.configToFile "/out") houtside
  obtain ⟨w₁, hlocked⟩ : ∃ w₁, lockedWorld.run (Kernel.Interface.ofMount "/").isLocked =
      (.ok true, w₁) := World.run_of_toOption (by decide +kernel)
  have hstill : lockedWorld.tree.IsStill := Tree.isStill_of_all (by decide +kernel)
  obtain ⟨hread, hnodes, hrefused⟩ :=
    hsession.final (congrArg Prod.fst hlocked) fun q _ => hstill q
  obtain ⟨e, he⟩ := hrefused _ (List.mem_cons_of_mem _ List.mem_cons_self) trivial
  obtain ⟨w₂, hwritten⟩ : ∃ w₂, lockedEdited.run (Loader.Operation.perform sampleLoader
      (.configToFile "/out")) = (.ok (), w₂) := World.run_of_toOption (by decide +kernel)
  rw [hwritten] at hsession hread hnodes
  rw [show (lockedWorld.run _).1 = _ from he] at hsession
  refine ⟨e, w₂, hsession, congrArg Prod.fst hlocked, hstill, hread, ?_⟩
  rcases hnodes ["sara", "wxprot"] (by decide +kernel) (by decide +kernel) with h | ⟨h, -⟩
  · exact h
  · cases h

end PathPolicy
